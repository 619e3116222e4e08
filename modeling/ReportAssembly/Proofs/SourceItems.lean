import ReportAssembly.Proofs.WrittenForms

namespace ReportAssembly

def Piece.items (source : List Char) : List (Located Piece) :=
  (place 0 (split source)).filter fun p => p.value.lexeme ≠ .layout

def Span.Covers (span : Span) (source text : List Char) : Prop :=
  ∃ front back, source = front ++ text ++ back ∧
    span = ⟨byteLength front, byteLength front + byteLength text⟩

/-- Items account for a source: they stand apart, with gaps between them and at both ends. A token
is what its text is read as, and no form that begins where an item begins goes on behind it. -/
structure Accounts (source : List Char) (items : List (Located Piece)) : Prop where
  nonempty : ∀ p ∈ items, p.span.start < p.span.stop
  apart : items.Pairwise fun p q => p.span.stop ≤ q.span.start
  covered : ∀ p ∈ items, p.span.Covers source p.value.text
  gaps : (⟨0, 0⟩ :: items.map (·.span)).IsChain fun a b =>
    ∃ gap, Gap false gap ∧ Span.Covers ⟨a.stop, b.start⟩ source gap
  last : ∃ gap, Gap true gap ∧
    Span.Covers ⟨(items.getLast?.map (·.span.stop)).getD 0, byteLength source⟩ source gap
  alone : ∀ p ∈ items, ∀ t, p.value.lexeme = .token t →
    t.Written p.value.text ∧ lex (.ofList p.value.text) = .ok [⟨t, ⟨0, byteLength p.value.text⟩⟩]
  longest : ∀ p ∈ items, ∀ (l : Lexeme) (front text back : List Char),
    source = front ++ text ++ back → byteLength front = p.span.start → l.Form text →
    p.value.lexeme ≠ .unreadable ∧ text.length ≤ p.value.text.length

inductive Itemized : Nat → List (Located Piece) → List Char → Prop
  | last {start : Nat} {gap : List Char} (hgap : Gap true gap) : Itemized start [] gap
  | item {start : Nat} {gap tail cs : List Char} {c : Char} {l : Lexeme}
      {items : List (Located Piece)} (hgap : Gap false gap)
      (hscan : Lexeme.scan c (tail ++ cs) = (l, tail.length)) (hl : l ≠ .layout)
      (h : Itemized (start + byteLength gap + byteLength (c :: tail)) items cs) :
      Itemized start
        (⟨⟨l, c :: tail⟩, ⟨start + byteLength gap, start + byteLength gap + byteLength (c :: tail)⟩⟩
          :: items)
        (gap ++ c :: tail ++ cs)

/-- The form of a piece that is scanned to its end. -/
theorem Lexeme.form_of_scan {l : Lexeme} {c : Char} {tail cs : List Char}
    (hscan : scan c (tail ++ cs) = (l, tail.length)) (hl : l ≠ .unreadable) :
    l.Form (c :: tail) := by
  have hreadable : (scan c (tail ++ cs)).1 ≠ .unreadable := by
    rwa [hscan]
  have hform := scan_form hreadable
  rwa [hscan, List.take_left] at hform

/-- What is scanned as a token is its written form. -/
theorem Lexeme.written_of_scan {t : Token} {c : Char} {tail cs : List Char}
    (hscan : scan c (tail ++ cs) = (.token t, tail.length)) : t.Written (c :: tail) := by
  cases form_of_scan hscan Lexeme.noConfusion with
  | token h => exact h

/-- A gap goes on in front with a piece of layout, if a line comment has its line end behind it. -/
theorem Gap.layout_append {final : Bool} {c : Char} {tail cs gap : List Char}
    (hscan : Lexeme.scan c (tail ++ cs) = (.layout, tail.length))
    (hfeed : cs.head? = some '\n' → gap.head? = some '\n')
    (hnil : cs = [] → final = true ∧ gap = []) (hgap : Gap final gap) :
    Gap final (c :: tail ++ gap) := by
  have hform := Lexeme.form_of_scan hscan (by decide)
  generalize htext : c :: tail = text at hform
  cases hform with
  | spacing hc => exact .spacing hc hgap
  | @line line hline =>
    obtain ⟨rfl, rfl⟩ := List.cons.inj htext
    have hstop : cs.takeWhile (· != '\n') = [] := by
      rw [List.cons_append, Lexeme.scan_line hline] at hscan
      have hlength := congrArg Prod.snd hscan
      simp only [List.length_cons] at hlength
      exact List.length_eq_zero_iff.mp (by omega)
    refine .line hline ?_ hgap
    cases cs with
    | nil => exact .inr (hnil rfl)
    | cons d ds =>
      by_cases hd : d = '\n'
      · exact .inl (hfeed (by rw [hd]; rfl))
      · rw [List.takeWhile_cons, if_pos (bne_iff_ne.mpr hd)] at hstop
        exact absurd hstop (List.cons_ne_nil _ _)
  | @block body hbody =>
    have hblock := Gap.block hbody hgap
    simpa using hblock

theorem Itemized.layout_append {start : Nat} {c : Char} {tail cs : List Char}
    {items : List (Located Piece)} (hscan : Lexeme.scan c (tail ++ cs) = (.layout, tail.length))
    (h : Itemized (start + byteLength (c :: tail)) items cs) :
    Itemized start items (c :: tail ++ cs) := by
  cases h with
  | last hgap => exact .last (hgap.layout_append hscan id fun hcs => ⟨rfl, hcs⟩)
  | @item _ gap tail' cs' c' l items hgap hscan' hl h =>
    have hgap' : Gap false (c :: tail ++ gap) := by
      refine hgap.layout_append hscan (fun hfeed => ?_) fun hcs => ?_
      · cases gap with
        | cons d ds => exact hfeed
        | nil =>
          obtain rfl : c' = '\n' := Option.some.inj hfeed
          rw [Lexeme.scan_spacing (by decide)] at hscan'
          exact absurd (congrArg Prod.fst hscan').symm hl
      · simp at hcs
    have hstart : start + byteLength (c :: tail) + byteLength gap =
        start + byteLength (c :: tail ++ gap) := by
      rw [byteLength_append, Nat.add_assoc]
    rw [hstart] at h ⊢
    have hitemized := Itemized.item hgap' hscan' hl h
    simpa only [List.append_assoc] using hitemized

/-- The pieces of a source itemize it, layout apart. -/
theorem itemized_split (cs : List Char) (start : Nat) :
    Itemized start ((Piece.place start (Piece.split cs)).filter fun p => p.value.lexeme ≠ .layout)
      cs := by
  fun_induction Piece.split cs generalizing start with
  | case1 => exact .last .nil
  | case2 c cs found ih =>
    have hle : found.2 ≤ cs.length := Lexeme.scan_length_le c cs
    have hcs : cs.take found.2 ++ cs.drop found.2 = cs := List.take_append_drop _ _
    have hscan : Lexeme.scan c (cs.take found.2 ++ cs.drop found.2) =
        (found.1, (cs.take found.2).length) := by
      rw [hcs, List.length_take_of_le hle]
    have hrest := ih (start + byteLength (c :: cs.take found.2))
    by_cases hl : found.1 = .layout
    · rw [hl] at hscan
      have hitemized := hrest.layout_append hscan
      rw [List.cons_append, hcs] at hitemized
      rwa [Piece.place, List.filter_cons_of_neg (by simpa using hl)]
    · have hitemized := Itemized.item .nil hscan hl hrest
      rw [List.nil_append, List.cons_append, hcs] at hitemized
      rwa [Piece.place, List.filter_cons_of_pos (by simpa using hl)]

/-- A stretch of a source has one text. -/
theorem Span.Covers.unique {span : Span} {source as bs : List Char} (h : span.Covers source as)
    (h' : span.Covers source bs) : as = bs := by
  obtain ⟨front, back, rfl, rfl⟩ := h
  obtain ⟨front', back', hsource, hspan⟩ := h'
  obtain ⟨hfront, hlength⟩ := Span.mk.inj hspan
  rw [List.append_assoc, List.append_assoc] at hsource
  obtain ⟨rfl, hrest⟩ := append_inj_of_byteLength hsource hfront
  exact (append_inj_of_byteLength hrest (Nat.add_left_cancel hlength)).1

/-- A token that is written alone is read. -/
theorem Token.Written.lex_eq {t : Token} {text : List Char} (h : t.Written text) :
    lex (.ofList text) = .ok [⟨t, ⟨0, byteLength text⟩⟩] := by
  obtain ⟨c, cs, rfl⟩ := List.exists_cons_of_ne_nil h.ne_nil
  have hscan : Lexeme.scan c cs = (.token t, cs.length) := by
    have hend : ∀ d ∈ ([] : List Char).head?, isWordPart d = false := by simp
    have hscan := Lexeme.scan_written h hend
    rwa [List.append_nil] at hscan
  have hsplit : Piece.split (c :: cs) = [⟨.token t, c :: cs⟩] := by
    rw [Piece.split, hscan, List.take_length, List.drop_length, Piece.split]
  rw [lex, String.toList_ofList, hsplit]
  simp [Piece.place, Piece.error?, Piece.token?]

namespace Itemized

variable {start : Nat} {items : List (Located Piece)} {cs : List Char}

/-- Each item is the scan from its first character. -/
theorem exists_of_mem (h : Itemized start items cs) {p : Located Piece} (hp : p ∈ items) :
    ∃ before c tail rest, cs = before ++ c :: tail ++ rest ∧ p.value.text = c :: tail ∧
      Lexeme.scan c (tail ++ rest) = (p.value.lexeme, tail.length) ∧
      p.span = ⟨start + byteLength before, start + byteLength before + byteLength (c :: tail)⟩ := by
  induction h with
  | last => exact absurd hp List.not_mem_nil
  | @item start gap tail cs c l items hgap hscan hl h ih =>
    obtain rfl | hp := List.mem_cons.mp hp
    · exact ⟨gap, c, tail, cs, rfl, rfl, hscan, rfl⟩
    · obtain ⟨before, d, tail', rest, rfl, htext, hscan', hspan⟩ := ih hp
      refine ⟨gap ++ c :: tail ++ before, d, tail', rest, ?_, htext, hscan', ?_⟩
      · simp only [List.append_assoc]
      · rw [hspan, byteLength_append, byteLength_append]
        simp only [Nat.add_assoc]

/-- Items stand apart, in order. -/
theorem apart (h : Itemized start items cs) :
    items.Pairwise fun p q => p.span.stop ≤ q.span.start := by
  induction h with
  | last => exact .nil
  | item hgap hscan hl h ih =>
    refine List.pairwise_cons.mpr ⟨fun q hq => ?_, ih⟩
    obtain ⟨before, _, _, _, -, -, -, hspan⟩ := h.exists_of_mem hq
    rw [hspan]
    exact Nat.le_add_right _ _

/-- There is a gap before the first item, between each two, and behind the last. -/
theorem gaps (h : Itemized start items cs) {source front : List Char}
    (hsource : source = front ++ cs) (hstart : start = byteLength front) {a : Span}
    (ha : a.stop = start) :
    ((a :: items.map (·.span)).IsChain fun a b =>
      ∃ gap, Gap false gap ∧ Span.Covers ⟨a.stop, b.start⟩ source gap) ∧
    ∃ gap, Gap true gap ∧ Span.Covers
      ⟨(items.getLast?.map (·.span.stop)).getD start, byteLength source⟩ source gap := by
  induction h generalizing front a with
  | @last start gap hgap =>
    have hlast : Span.Covers ⟨start, byteLength source⟩ source gap :=
      ⟨front, [], by rw [hsource, List.append_nil], by rw [hsource, byteLength_append, hstart]⟩
    exact ⟨.singleton a, gap, hgap, hlast⟩
  | @item start gap tail cs c l items hgap hscan hl h ih =>
    have hfirst : Span.Covers ⟨a.stop, start + byteLength gap⟩ source gap :=
      ⟨front, c :: tail ++ cs, by simp [hsource], by rw [ha, hstart]⟩
    have hsource' : source = front ++ gap ++ c :: tail ++ cs := by
      simp [hsource]
    have hstart' : start + byteLength gap + byteLength (c :: tail) =
        byteLength (front ++ gap ++ c :: tail) := by
      rw [byteLength_append, byteLength_append, hstart]
    obtain ⟨hchain, hlast⟩ := ih hsource' hstart'
      (a := ⟨start + byteLength gap, start + byteLength gap + byteLength (c :: tail)⟩) rfl
    refine ⟨.cons_cons ⟨gap, hgap, hfirst⟩ hchain, ?_⟩
    rw [List.getLast?_cons]
    cases hitems : items.getLast? with
    | none => simpa [hitems] using hlast
    | some q => simpa [hitems] using hlast

end Itemized

theorem Lexeme.Form.ne_nil {l : Lexeme} {text : List Char} (h : l.Form text) : text ≠ [] := by
  cases h with
  | token h => exact h.ne_nil
  | _ => exact List.cons_ne_nil _ _

/-- An itemized source is accounted for. -/
theorem Itemized.accounts {items : List (Located Piece)} {source : List Char}
    (h : Itemized 0 items source) : Accounts source items where
  nonempty := by
    intro p hp
    obtain ⟨before, c, tail, _, -, -, -, hspan⟩ := h.exists_of_mem hp
    have hpos := c.utf8Size_pos
    rw [hspan, byteLength_cons]
    dsimp only
    omega
  apart := h.apart
  covered := by
    intro p hp
    obtain ⟨before, c, tail, rest, hsource, htext, -, hspan⟩ := h.exists_of_mem hp
    rw [htext]
    exact ⟨before, rest, hsource, by rw [hspan, Nat.zero_add]⟩
  gaps := (h.gaps (List.nil_append source).symm rfl rfl).1
  last := (h.gaps (List.nil_append source).symm rfl (a := ⟨0, 0⟩) rfl).2
  alone := by
    intro p hp t ht
    obtain ⟨_, c, tail, rest, -, htext, hscan, -⟩ := h.exists_of_mem hp
    rw [ht] at hscan
    have hwritten : t.Written p.value.text := htext ▸ Lexeme.written_of_scan hscan
    exact ⟨hwritten, hwritten.lex_eq⟩
  longest := by
    intro p hp l front text back hsource hfront hform
    obtain ⟨before, c, tail, rest, hsource', htext, hscan, hspan⟩ := h.exists_of_mem hp
    obtain ⟨d, ds, rfl⟩ := List.exists_cons_of_ne_nil hform.ne_nil
    rw [hspan, Nat.zero_add] at hfront
    rw [hsource', List.append_assoc, List.append_assoc] at hsource
    obtain ⟨-, hrest⟩ := append_inj_of_byteLength hsource hfront.symm
    obtain ⟨rfl, htail⟩ : c = d ∧ tail ++ rest = ds ++ back := List.cons.inj hrest
    have hlongest := Lexeme.scan_longest hform back
    rw [← htail, hscan] at hlongest
    rw [htext, List.length_cons, List.length_cons]
    exact ⟨hlongest.1, Nat.succ_le_succ hlongest.2⟩

namespace Piece

variable (ps : List (Located Piece))

theorem errors_eq_nil_iff :
    ps.filterMap error? = [] ↔
      ∀ p ∈ ps.filter fun p => p.value.lexeme ≠ .layout, p.value.lexeme ≠ .unreadable := by
  rw [List.filterMap_eq_nil_iff]
  constructor
  · intro h p hp hlexeme
    have hnone := h p (List.mem_of_mem_filter hp)
    simp [error?, hlexeme] at hnone
  · intro h p hp
    unfold error?
    split
    · next hlexeme => exact absurd hlexeme (h p (List.mem_filter.mpr ⟨hp, by simp [hlexeme]⟩))
    · rfl

/-- Where nothing is unreadable, the tokens are the items. -/
theorem tokens_of_readable
    (h : ∀ p ∈ ps.filter fun p => p.value.lexeme ≠ .layout, p.value.lexeme ≠ .unreadable) :
    (ps.filterMap token?).map (fun t => (Lexeme.token t.value, t.span)) =
      (ps.filter fun p => p.value.lexeme ≠ .layout).map fun p => (p.value.lexeme, p.span) := by
  induction ps with
  | nil => rfl
  | cons p ps ih =>
    obtain ⟨⟨lexeme, text⟩, span⟩ := p
    cases lexeme with
    | layout =>
      rw [List.filter_cons_of_neg (by simp)] at h ⊢
      rw [List.filterMap_cons_none rfl]
      exact ih h
    | unreadable =>
      rw [List.filter_cons_of_pos (by simp)] at h
      exact absurd rfl (h _ List.mem_cons_self)
    | token t =>
      rw [List.filter_cons_of_pos (by simp)] at h ⊢
      rw [List.filterMap_cons_some (f := token?) rfl, List.map_cons, List.map_cons,
        ih fun p hp => h p (List.mem_cons_of_mem _ hp)]

/-- The errors are those of the unreadable items, in order. -/
theorem notices_of_errors :
    (ps.filterMap error?).map SyntaxError.notice =
      ((ps.filter fun p => p.value.lexeme ≠ .layout).filter fun p =>
        p.value.lexeme = .unreadable).map fun p =>
          ⟨p.span, "Unexpected input '" ++ .ofList p.value.text ++ "'", []⟩ := by
  induction ps with
  | nil => rfl
  | cons p ps ih =>
    obtain ⟨⟨lexeme, text⟩, span⟩ := p
    cases lexeme with
    | layout =>
      rw [List.filterMap_cons_none rfl, List.filter_cons_of_neg (by simp), ih]
    | unreadable =>
      rw [List.filterMap_cons_some (f := error?) rfl, List.filter_cons_of_pos (by simp),
        List.filter_cons_of_pos (by simp), List.map_cons, List.map_cons, ih]
      rfl
    | token t =>
      rw [List.filterMap_cons_none rfl, List.filter_cons_of_pos (by simp),
        List.filter_cons_of_neg (by simp), ih]

end Piece

section Lex

variable {source : String}

/-- A source without unreadable items has its tokens. -/
theorem lex_of_readable (h : ∀ p ∈ Piece.items source.toList, p.value.lexeme ≠ .unreadable) :
    ∃ ts, lex source = .ok ts ∧
      ts.map (fun t => (Lexeme.token t.value, t.span)) =
        (Piece.items source.toList).map fun p => (p.value.lexeme, p.span) := by
  refine ⟨_, ?_, Piece.tokens_of_readable _ h⟩
  rw [lex, (Piece.errors_eq_nil_iff _).mpr h]
  rfl

/-- A source with unreadable items has an error for each. -/
theorem lex_of_unreadable (h : ∃ p ∈ Piece.items source.toList, p.value.lexeme = .unreadable) :
    ∃ es, lex source = .error es ∧
      es.map SyntaxError.notice =
        ((Piece.items source.toList).filter fun p => p.value.lexeme = .unreadable).map fun p =>
          ⟨p.span, "Unexpected input '" ++ .ofList p.value.text ++ "'", []⟩ := by
  have hsome : ((Piece.place 0 (Piece.split source.toList)).filterMap
      Piece.error?).isEmpty = false := by
    obtain ⟨p, hp, hunreadable⟩ := h
    rw [List.isEmpty_eq_false_iff]
    exact fun hnil => (Piece.errors_eq_nil_iff _).mp hnil p hp hunreadable
  refine ⟨_, ?_, Piece.notices_of_errors _⟩
  rw [lex, hsome]
  rfl

theorem readable_of_lex {ts : List (Located Token)} (h : lex source = .ok ts) :
    ∀ p ∈ Piece.items source.toList, p.value.lexeme ≠ .unreadable := by
  intro p hp hunreadable
  obtain ⟨es, herror, -⟩ := lex_of_unreadable ⟨p, hp, hunreadable⟩
  exact nomatch h.symm.trans herror

theorem tokens_of_lex {ts : List (Located Token)} (h : lex source = .ok ts) :
    ts.map (fun t => (Lexeme.token t.value, t.span)) =
      (Piece.items source.toList).map fun p => (p.value.lexeme, p.span) := by
  obtain ⟨us, hok, hus⟩ := lex_of_readable (readable_of_lex h)
  obtain rfl := Except.ok.inj (h.symm.trans hok)
  exact hus

theorem unreadable_of_lex {es : List SyntaxError} (h : lex source = .error es) :
    ∃ p ∈ Piece.items source.toList, p.value.lexeme = .unreadable := by
  by_contra hnone
  push Not at hnone
  obtain ⟨ts, hok, -⟩ := lex_of_readable hnone
  exact nomatch h.symm.trans hok

end Lex

/-- Tokens, errors and the gaps between them are all of a source, and the lexer returns all the
tokens, or all the errors if there is one. -/
theorem lexer_accounts_for_source (source : String) :
    Accounts source.toList (Piece.items source.toList) ∧
    ((∃ ts, lex source = .ok ts ∧
        ts.map (fun t => (Lexeme.token t.value, t.span)) =
          (Piece.items source.toList).map fun p => (p.value.lexeme, p.span)) ↔
      ∀ p ∈ Piece.items source.toList, p.value.lexeme ≠ .unreadable) ∧
    ((∃ es, lex source = .error es ∧
        es.map SyntaxError.notice =
          ((Piece.items source.toList).filter fun p => p.value.lexeme = .unreadable).map fun p =>
            ⟨p.span, "Unexpected input '" ++ .ofList p.value.text ++ "'", []⟩) ↔
      ∃ p ∈ Piece.items source.toList, p.value.lexeme = .unreadable) :=
  ⟨(itemized_split source.toList 0).accounts,
    ⟨fun ⟨_, hlex, _⟩ => readable_of_lex hlex, lex_of_readable⟩,
    ⟨fun ⟨_, hlex, _⟩ => unreadable_of_lex hlex, lex_of_unreadable⟩⟩

/-- A keyword, a comment with a character of two bytes in it, a stray character and a string that is
not closed. -/
theorem lexer_accounts_for_source_cut :
    Piece.items "section /* é */ @ \"cut".toList =
      [⟨⟨.token (.keyword .band), "section".toList⟩, ⟨0, 7⟩⟩,
        ⟨⟨.unreadable, "@".toList⟩, ⟨17, 18⟩⟩, ⟨⟨.unreadable, "\"cut".toList⟩, ⟨19, 23⟩⟩] ∧
    (∃ gap, Gap false gap ∧ Span.Covers ⟨7, 17⟩ "section /* é */ @ \"cut".toList gap) ∧
    lex (.ofList "section".toList) = .ok [⟨.keyword .band, ⟨0, 7⟩⟩] ∧
    ∃ es, lex "section /* é */ @ \"cut" = .error es ∧
      es.map SyntaxError.notice = [⟨⟨17, 18⟩, "Unexpected input '@'", []⟩,
        ⟨⟨19, 23⟩, "Unexpected input '\"cut'", []⟩] := by
  have hitems : Piece.items "section /* é */ @ \"cut".toList =
      [⟨⟨.token (.keyword .band), "section".toList⟩, ⟨0, 7⟩⟩,
        ⟨⟨.unreadable, "@".toList⟩, ⟨17, 18⟩⟩, ⟨⟨.unreadable, "\"cut".toList⟩, ⟨19, 23⟩⟩] := by
    decide +kernel
  obtain ⟨haccounts, -, herrors⟩ := lexer_accounts_for_source "section /* é */ @ \"cut"
  rw [hitems] at haccounts herrors
  obtain ⟨es, hlex, hnotices⟩ := herrors.mpr ⟨_, .tail _ (.head _), rfl⟩
  have hgap := (List.isChain_cons_cons.mp (List.isChain_cons_cons.mp haccounts.gaps).2).1
  exact ⟨hitems, hgap, (haccounts.alone _ (.head _) _ rfl).2, es, hlex, hnotices⟩

end ReportAssembly
