import ReportAssembly.Proofs.EntryTokens
import ReportAssembly.Proofs.Relayout

namespace ReportAssembly

/-- A text reads as tokens exactly if these are its pieces, layout apart. -/
theorem reads_iff_bare {cs : List Char} {ts : List Token} :
    Reads cs ts ↔ (Piece.bare cs).map (·.lexeme) = ts.map .token := by
  rw [Reads, Piece.bare, List.filter_map]
  rfl

/-- A gap in front leaves the tokens as they are. -/
theorem Gap.reads_append {gap cs : List Char} {ts : List Token} (h : Gap false gap)
    (hcs : Reads cs ts) : Reads (gap ++ cs) ts := by
  rw [reads_iff_bare, h.bare_append]
  exact reads_iff_bare.mp hcs

theorem Token.Written.spells {t : Token} {text : List Char} (h : t.Written text) :
    Spells text [t] := by
  obtain ⟨c, tail, rfl⟩ := List.exists_cons_of_ne_nil h.ne_nil
  intro rest us hrest hreads
  exact Reads.token_cons (Lexeme.scan_written h hrest) List.drop_left hreads

theorem Keyword.word_of_ofWord? {w : String} {k : Keyword} (h : ofWord? w = some k) :
    k.word = w := by
  have hfound := List.find?_some h
  exact beq_iff_eq.mp hfound

def Token.word? : Token → Option String
  | keyword k => some k.word
  | identifier name => some name
  | _ => none

theorem Token.word?_ofWord (w : String) : (ofWord w).word? = some w := by
  rw [ofWord]
  cases hword : Keyword.ofWord? w with
  | none => rfl
  | some k => exact congrArg some (Keyword.word_of_ofWord? hword)

/-- A word is written in one way. -/
theorem Token.Written.eq_word {t : Token} {w : String} {text : List Char} (h : t.Written text)
    (hw : t.word? = some w) : text = w.toList := by
  cases h with
  | word hc hcs =>
    rw [word?_ofWord] at hw
    rw [← Option.some.inj hw, String.toList_ofList]
  | _ => cases hw

/-- What stands behind a token ends it, if it begins like what stood there before. -/
theorem Lexeme.scan_of_head_eq {t : Token} {c : Char} {tail cs cs' : List Char}
    (hscan : scan c (tail ++ cs) = (.token t, tail.length)) (hhead : cs'.head? = cs.head?) :
    scan c (tail ++ cs') = (.token t, tail.length) := by
  have hwritten : t.Written (c :: tail) := written_of_scan hscan
  cases hc : isWordStart c with
  | false => exact scan_delimited hwritten hc cs'
  | true =>
    obtain ⟨-, htail⟩ := hwritten.of_isWordStart hc
    have hlength : (tail ++ cs.takeWhile isWordPart).length = tail.length := by
      rw [scan_word hc, List.takeWhile_append_of_pos htail] at hscan
      exact (Prod.mk.inj hscan).2
    have hnone : cs.takeWhile isWordPart = [] := by
      rw [List.length_append] at hlength
      exact List.length_eq_zero_iff.mp (by omega)
    refine scan_written hwritten ?_
    rw [hhead]
    cases cs with
    | nil => exact nofun
    | cons d cs =>
      rintro e ⟨⟩
      exact Bool.eq_false_iff.mpr fun hd => by simp [hd] at hnone

/-- A token, a gap and a slice spell what they did where they stood, whatever follows now. -/
theorem Spells.token_cons {t : Token} {c : Char} {tail gap slice back : List Char}
    {ts : List Token}
    (hscan : Lexeme.scan c (tail ++ (gap ++ slice ++ back)) = (.token t, tail.length))
    (hgap : Gap false gap) (hslice : slice ≠ []) (h : Spells slice ts) :
    Spells (c :: tail ++ gap ++ slice) (t :: ts) := by
  intro rest us hrest hreads
  have hbehind : Reads (gap ++ slice ++ rest) (ts ++ us) := by
    rw [List.append_assoc]
    exact hgap.reads_append (h rest us hrest hreads)
  have hhead : (gap ++ slice ++ rest).head? = (gap ++ slice ++ back).head? := by
    obtain ⟨d, slice, rfl⟩ := List.exists_cons_of_ne_nil hslice
    cases gap <;> rfl
  have htoken := Reads.token_cons (Lexeme.scan_of_head_eq hscan hhead) List.drop_left hbehind
  simpa only [List.append_assoc, List.cons_append] using htoken

namespace Itemized

variable {start stop : Nat} {cs source : List Char} {p : Located Piece}
  {before own after : List (Located Piece)} {ts : List Token}

/-- Behind some of the items the others are found. -/
theorem exists_rest (h : Itemized start (before ++ own) cs) :
    ∃ front rest, cs = front ++ rest ∧ Itemized (start + byteLength front) own rest := by
  induction before generalizing start cs with
  | nil => exact ⟨[], cs, rfl, h⟩
  | cons p before ih =>
    cases h with
    | @item _ gap tail cs c l _ _ _ _ h =>
      obtain ⟨front, rest, rfl, hrest⟩ := ih h
      refine ⟨gap ++ c :: tail ++ front, rest, by simp only [List.append_assoc], ?_⟩
      rw [byteLength_append, byteLength_append, ← Nat.add_assoc, ← Nat.add_assoc]
      exact hrest

/-- The first items, if they are tokens, fill a slice that spells them. -/
theorem exists_slice (h : Itemized start (p :: own ++ after) cs)
    (hts : (p :: own).map (·.value.lexeme) = ts.map .token) :
    ∃ gap slice back, cs = gap ++ slice ++ back ∧ Gap false gap ∧
      p.span.start = start + byteLength gap ∧
      (p :: own).getLast?.map (·.span.stop) = some (start + byteLength gap + byteLength slice) ∧
      p.value.text <+: slice ∧ Spells slice ts := by
  induction own generalizing start cs p ts with
  | nil =>
    cases h with
    | @item _ gap tail cs c l _ hgap hscan _ _ =>
      obtain ⟨t, _, rfl, ht, hnil⟩ := List.map_eq_cons_iff.mp hts.symm
      obtain rfl := List.map_eq_nil_iff.mp hnil
      obtain rfl : .token t = l := ht
      have hwritten : t.Written (c :: tail) := Lexeme.written_of_scan hscan
      exact ⟨gap, c :: tail, cs, rfl, hgap, rfl, rfl, List.prefix_rfl, hwritten.spells⟩
  | cons q own ih =>
    cases h with
    | @item _ gap tail cs c l _ hgap hscan _ h =>
      obtain ⟨t, us, rfl, ht, hus⟩ := List.map_eq_cons_iff.mp hts.symm
      obtain rfl : .token t = l := ht
      obtain ⟨gap', slice, back, rfl, hgap', -, hlast, hprefix, hspells⟩ := ih h hus.symm
      have hslice : slice ≠ [] := by
        rintro rfl
        obtain ⟨_, d, text, _, -, htext, -⟩ := h.exists_of_mem List.mem_cons_self
        rw [htext] at hprefix
        cases List.prefix_nil.mp hprefix
      refine ⟨gap, c :: tail ++ gap' ++ slice, back, ?_, hgap, rfl, ?_, ?_, ?_⟩
      · simp only [List.append_assoc]
      · rw [List.getLast?_cons_cons, hlast]
        simp only [byteLength_append, Nat.add_assoc]
      · exact ⟨gap' ++ slice, by simp only [List.append_assoc]⟩
      · exact hspells.token_cons hscan hgap' hslice

/-- Tokens among the items fill a slice of the source. -/
theorem exists_covered (h : Itemized 0 (before ++ (p :: own ++ after)) source)
    (hts : (p :: own).map (·.value.lexeme) = ts.map .token)
    (hstop : (p :: own).getLast?.map (·.span.stop) = some stop) :
    ∃ slice, Span.Covers ⟨p.span.start, stop⟩ source slice ∧ p.value.text <+: slice ∧
      Spells slice ts := by
  obtain ⟨front, rest, rfl, hrest⟩ := h.exists_rest
  obtain ⟨gap, slice, back, rfl, -, hstart, hlast, hprefix, hspells⟩ := hrest.exists_slice hts
  obtain rfl := Option.some.inj (hlast.symm.trans hstop)
  refine ⟨slice, ⟨front ++ gap, back, ?_, ?_⟩, hprefix, hspells⟩
  · simp only [List.append_assoc]
  · rw [hstart, byteLength_append, Nat.zero_add]

end Itemized

section Lex

variable {source : String} {before own after : List (Located Token)}
  (hlex : lex source = .ok (before ++ own ++ after))

include hlex

/-- A run of the tokens is a run of the items of the source. -/
theorem exists_items_of_lex :
    ∃ items₁ items items₂, Piece.items source.toList = items₁ ++ items ++ items₂ ∧
      items.map (fun p => (p.value.lexeme, p.span)) =
        own.map fun t => (Lexeme.token t.value, t.span) := by
  have htokens := tokens_of_lex hlex
  rw [List.map_append, List.map_append] at htokens
  obtain ⟨front, items₂, hitems, hfront, -⟩ := List.map_eq_append_iff.mp htokens.symm
  obtain ⟨items₁, items, rfl, -, hown⟩ := List.map_eq_append_iff.mp hfront
  exact ⟨items₁, items, items₂, hitems, hown⟩

/-- A run of the tokens fills a slice of the source, and the slice alone reads as this run. -/
theorem exists_slice_of_lex {first : Located Token} {stop : Nat} (hfirst : own.head? = some first)
    (hstop : own.getLast?.map (·.span.stop) = some stop) :
    ∃ slice text, Span.Covers ⟨first.span.start, stop⟩ source.toList slice ∧
      first.value.Written text ∧ text <+: slice ∧ Spells slice (own.map (·.value)) := by
  obtain ⟨items₁, items, items₂, hitems, hown⟩ := exists_items_of_lex hlex
  obtain ⟨own', rfl⟩ := List.head?_eq_some_iff.mp hfirst
  obtain ⟨p, items', rfl, hp, -⟩ := List.map_eq_cons_iff.mp hown
  obtain ⟨hlexeme, hspan⟩ := Prod.mk.inj hp
  have hlexemes : (p :: items').map (·.value.lexeme) =
      ((first :: own').map (·.value)).map .token := by
    have hfst := congrArg (List.map Prod.fst) hown
    rw [List.map_map, List.map_map] at hfst
    rw [List.map_map]
    exact hfst
  have hstops : (p :: items').getLast?.map (·.span.stop) =
      (first :: own').getLast?.map (·.span.stop) := by
    have hlast := congrArg (fun xs => (xs.map (·.2.stop)).getLast?) hown
    simp only [List.map_map, List.getLast?_map] at hlast
    exact hlast
  have hitemized : Itemized 0 (items₁ ++ (p :: items' ++ items₂)) source.toList := by
    rw [← List.append_assoc, ← hitems]
    exact itemized_split source.toList 0
  have hmem : p ∈ Piece.items source.toList := by
    rw [hitems]
    simp
  obtain ⟨hwritten, -⟩ := (itemized_split source.toList 0).accounts.alone p hmem _ hlexeme
  obtain ⟨slice, hcovers, hprefix, hspells⟩ :=
    hitemized.exists_covered hlexemes (hstops.trans hstop)
  exact ⟨slice, p.value.text, hspan ▸ hcovers, hwritten, hprefix, hspells⟩

/-- An entry stands at a slice that begins with its keyword and reads as its tokens. -/
theorem Occupies.exists_slice {x : Located Entry} {next : Lookahead} (hx : Occupies x own next) :
    ∃ slice, x.span.Covers source.toList slice ∧ x.value.keyword.word.toList <+: slice ∧
      Spells slice (own.map (·.value)) := by
  obtain ⟨first, hfirst, hstart⟩ := Option.map_eq_some_iff.mp hx.start
  obtain ⟨slice, text, hcovers, hwritten, hprefix, hspells⟩ :=
    exists_slice_of_lex hlex hfirst hx.stop
  have hkeyword : first.value = .keyword x.value.keyword := by
    obtain ⟨values, hvalues⟩ := hx.spelled.exists_cons
    obtain ⟨own', rfl⟩ := List.head?_eq_some_iff.mp hfirst
    exact (List.cons.inj hvalues).1
  rw [hkeyword] at hwritten
  rw [hstart] at hcovers
  exact ⟨slice, hcovers, hwritten.eq_word rfl ▸ hprefix, hspells⟩

end Lex

def framed (name : String) (kind : SectionKind) (slice : List Char) : String :=
  "report " ++ quote name ++ " \x7b section " ++ kind.keyword ++ " \x7b " ++ .ofList slice ++
    " \x7d \x7d"

/-- A slice that spells an entry reads as the entry within its frame. -/
theorem reads_framed (name : String) (kind : SectionKind) {slice : List Char} {ts : List Token}
    (h : Spells slice ts) :
    Reads (framed name kind slice).toList
      (.keyword .report :: .string name :: .braceOpen :: .keyword .band ::
        .identifier kind.keyword :: .braceOpen :: (ts ++ [Token.braceClose, .braceClose])) := by
  have hopening := ((spells_keyword .report).append_space (spells_quote name)).append_space
    spells_brace_open
  have hsection := ((spells_keyword .band).append_space
    (spells_identifier kind.isIdentifier_keyword)).append_space spells_brace_open
  have hclosing := spells_brace_close.append_space spells_brace_close
  have hframed := ((hopening.append_space hsection).append_space h).append_space hclosing
  simpa [framed, Keyword.word] using hframed.reads

/-- An element keeps the tokens that spell it but for a type `string`, if a brace comes next. -/
theorem dropStringTypes_spelled {e : Element} {values : List Token}
    (h : (Entry.element e).SpelledBy values) (hvalues : ∀ t ∈ values, t.Lexical)
    {ts : List Token} :
    dropStringTypes colonNext (values ++ .braceClose :: ts) =
      e.tokens ++ .braceClose :: dropStringTypes colonNext ts := by
  have hclose : dropStringTypes colonNext (.braceClose :: ts) =
      .braceClose :: dropStringTypes colonNext ts := dropStringTypes_cons_of_ne (by simp) ts
  cases h with
  | text => simp [dropStringTypes_cons_of_ne, hclose, Element.tokens]
  | @untyped carrier text =>
    rw [carrier.tokens_element_untyped, List.cons_append,
      dropStringTypes_cons_of_ne (by simp), List.singleton_append,
      dropStringTypes_untyped (by simp), hclose]
    rfl
  | @typed carrier text type t ht =>
    obtain rfl : t = type.token := ht.eq_token (hvalues t (by simp))
    rw [List.cons_append, dropStringTypes_cons_of_ne (by simp)]
    by_cases hstring : type = .string
    · subst hstring
      have hdrop : dropStringTypes colonNext
          (.expression text :: .colon :: ValueType.string.token :: .braceClose :: ts) =
            .expression text :: dropStringTypes colonNext (.braceClose :: ts) :=
        dropStringTypes_string rfl text
      rw [carrier.tokens_element_untyped, ← hclose]
      exact congrArg _ hdrop
    · have hdrop : dropStringTypes colonNext
          (.expression text :: .colon :: type.token :: .braceClose :: ts) =
            .expression text :: .colon :: type.token ::
              dropStringTypes colonNext (.braceClose :: ts) :=
        dropStringTypes_typed ht.ne_expression (ht.ne_string hstring) text _
      rw [carrier.tokens_element_typed text hstring, ← hclose]
      exact congrArg _ hdrop

/-- From a slice that spells an element the element is parsed again. -/
theorem exists_parse_framed (name : String) (kind : SectionKind) {slice : List Char}
    {values : List Token} {e : Located Element} (hslice : Spells slice values)
    (hvalues : (Entry.element e.value).SpelledBy values) (he : e.value.Spellable) :
    ∃ d, Design.parse (framed name kind slice) = .ok d ∧
      d.SameContent ⟨name, [], [⟨kind, [e]⟩]⟩ := by
  rw [Design.exists_parse_iff_spelledBy]
  have hspellable : (⟨name, [], [⟨kind, [e]⟩]⟩ : Design).Spellable := by
    constructor
    · exact List.forall_mem_nil _
    · exact List.forall_mem_singleton.mpr (List.forall_mem_singleton.mpr he)
  have hlast : dropStringTypes colonNext [.braceClose] = [.braceClose] := rfl
  have hdrop : dropStringTypes colonNext (values ++ [Token.braceClose, .braceClose]) =
      e.value.tokens ++ [Token.braceClose, .braceClose] := by
    rw [dropStringTypes_spelled hvalues hslice.reads.lexical, hlast]
  constructor
  case spellable => exact hspellable
  case tokens =>
    have hsource := (tokens?_eq_some_iff (framed name kind slice) _).mpr
      (reads_framed name kind hslice)
    refine ⟨_, hsource, ?_⟩
    rw [Design.tokens?_print hspellable]
    simp [dropStringTypes_cons_of_ne, hdrop, Design.tokens, Section.tokens]

structure Design.SpansExact (d : Design) (source : String) (ts : List (Located Token)) :
    Prop where
  complete : ∀ t ∈ ts, ∀ y : Entry, t.value = .keyword y.keyword →
    ∃ x ∈ d.entries, x.value.keyword = y.keyword ∧ x.span.start = t.span.start
  nonempty : ∀ x ∈ d.entries, x.span.start < x.span.stop
  apart : d.entries.Pairwise fun x y => x.span.stop ≤ y.span.start
  slices : ∀ x ∈ d.entries, ∃ slice before own after, ts = before ++ own ++ after ∧
    Occupies x own (lookahead after) ∧ x.span.Covers source.toList slice ∧
    x.value.keyword.word.toList <+: slice ∧ tokens? (.ofList slice) = some (own.map (·.value))
  alone : ∀ s ∈ d.sections, ∀ e ∈ s.elements, ∀ slice, e.span.Covers source.toList slice →
    ∀ name kind, ∃ d', Design.parse (framed name kind slice) = .ok d' ∧
      d'.SameContent ⟨name, [], [⟨kind, [e]⟩]⟩

/-- The tokens of a source stand apart, in order. -/
theorem tokens_apart {source : String} {ts : List (Located Token)} (hlex : lex source = .ok ts) :
    ts.Pairwise fun t u => t.span.stop ≤ u.span.start := by
  have hitems : ((Piece.items source.toList).map (·.span)).Pairwise fun s s' => s.stop ≤ s'.start :=
    List.pairwise_map.mpr (itemized_split source.toList 0).accounts.apart
  rw [← spans_of_lex hlex] at hitems
  exact List.pairwise_map.mp hitems

/-- The declarations and elements of a parsed design stand in its source in their order and apart,
one wherever a keyword of theirs stands. Each ends with its last token, which is that of its type
where one is written, and each element is parsed again where its slice stands alone. -/
theorem entry_spans_exact {source : String} {d : Design} (h : Design.parse source = .ok d) :
    ∃ ts, lex source = .ok ts ∧ d.SpansExact source ts := by
  obtain ⟨ts, hlex, hread⟩ := (Design.parse_eq_ok_iff source d).mp h
  have hholds : Holds d.entries ts := Design.holds_entries hread
  have hslice (x : Located Entry) (hx : x ∈ d.entries) : ∃ slice before own after,
      ts = before ++ own ++ after ∧ Occupies x own (lookahead after) ∧
      x.span.Covers source.toList slice ∧ x.value.keyword.word.toList <+: slice ∧
      Spells slice (own.map (·.value)) := by
    obtain ⟨before, own, after, rfl, hown⟩ := hholds.exists_of_mem hx
    obtain ⟨slice, hcovers, hprefix, hspells⟩ := hown.exists_slice hlex
    exact ⟨slice, before, own, after, rfl, hown, hcovers, hprefix, hspells⟩
  refine ⟨ts, hlex, ?_⟩
  constructor
  case complete => exact fun t ht y hy => hholds.exists_of_keyword ht hy
  case nonempty =>
    intro x hx
    obtain ⟨slice, _, _, _, -, -, ⟨front, back, -, hspan⟩, ⟨rest, rfl⟩, -⟩ := hslice x hx
    have hword : 0 < byteLength x.value.keyword.word.toList := by
      cases x.value.keyword <;> decide
    rw [hspan, byteLength_append]
    dsimp only
    omega
  case apart => exact hholds.apart (tokens_apart hlex)
  case slices =>
    intro x hx
    obtain ⟨slice, before, own, after, hts, hown, hcovers, hprefix, hspells⟩ := hslice x hx
    refine ⟨slice, before, own, after, hts, hown, hcovers, hprefix, ?_⟩
    rw [tokens?_eq_some_iff, String.toList_ofList]
    exact hspells.reads
  case alone =>
    intro s hs e he slice hcovers name kind
    have hmem : ⟨.element e.value, e.span⟩ ∈ d.entries := by
      refine List.mem_append_right _ (List.mem_flatMap.mpr ⟨s, hs, ?_⟩)
      exact List.mem_map_of_mem (f := fun e => (⟨.element e.value, e.span⟩ : Located Entry)) he
    obtain ⟨slice', _, own, _, -, hown, hcovers', -, hspells⟩ := hslice _ hmem
    obtain rfl : slice' = slice := hcovers'.unique hcovers
    have hspellable : e.value.Spellable := (Design.spellable_of_parse h).sections s hs e he
    exact exists_parse_framed name kind hspells hown.spelled hspellable

def commentedSource : String :=
  "report \"é\" \x7b parameter A:report section detail \x7b" ++
    "textfield `é`/* é */ : number subreport `\"B\"` text \"c\" \x7d \x7d"

/-- The type behind the comment belongs to its element, and where a type is left out nothing of the
next element is taken in. -/
theorem entry_spans_exact_commented :
    ∃ d ts, Design.parse commentedSource = .ok d ∧
      d.entries = [⟨.parameter ⟨"A", .report⟩, ⟨14, 32⟩⟩,
        ⟨.element (.field ⟨"é", .number⟩), ⟨49, 80⟩⟩,
        ⟨.element (.subreport ⟨"\"B\"", .string⟩), ⟨81, 96⟩⟩,
        ⟨.element (.text "c"), ⟨97, 105⟩⟩] ∧
      d.SpansExact commentedSource ts := by
  have hparse : Design.parse commentedSource =
      .ok ⟨"é", [⟨⟨"A", .report⟩, ⟨14, 32⟩⟩], [⟨.detail,
        [⟨.field ⟨"é", .number⟩, ⟨49, 80⟩⟩, ⟨.subreport ⟨"\"B\"", .string⟩, ⟨81, 96⟩⟩,
          ⟨.text "c", ⟨97, 105⟩⟩]⟩]⟩ := by decide +kernel
  obtain ⟨ts, -, hexact⟩ := entry_spans_exact hparse
  exact ⟨_, ts, hparse, rfl, hexact⟩

end ReportAssembly
