import ReportAssembly.Proofs.PlacelessReading
import ReportAssembly.Proofs.SourceItems

namespace ReportAssembly

/-- The texts in a row, with a gap behind each that is empty behind the last at most. -/
inductive Spaced : List (List Char) → List Char → Prop
  | nil : Spaced [] []
  | cons {text gap cs : List Char} {texts : List (List Char)} (hgap : Gap false gap)
      (hsep : texts ≠ [] → gap ≠ []) (h : Spaced texts cs) :
      Spaced (text :: texts) (text ++ gap ++ cs)

def Piece.bare (source : List Char) : List Piece :=
  (split source).filter fun p => p.lexeme ≠ .layout

theorem Piece.map_value_place (start : Nat) (ps : List Piece) :
    (place start ps).map (·.value) = ps := by
  induction ps generalizing start with
  | nil => rfl
  | cons p ps ih => rw [place, List.map_cons, ih]

theorem Piece.map_value_items (source : List Char) :
    (items source).map (·.value) = bare source := by
  rw [items, bare]
  conv_rhs => rw [← map_value_place 0 (split source)]
  rw [List.filter_map]
  rfl

theorem Piece.split_append {l : Lexeme} {c : Char} {tail rest : List Char}
    (hscan : Lexeme.scan c (tail ++ rest) = (l, tail.length)) :
    split (c :: tail ++ rest) = ⟨l, c :: tail⟩ :: split rest := by
  rw [List.cons_append, split, hscan, List.take_left, List.drop_left]

theorem Piece.bare_layout {c : Char} {tail rest : List Char}
    (hscan : Lexeme.scan c (tail ++ rest) = (.layout, tail.length)) :
    bare (c :: tail ++ rest) = bare rest := by
  rw [bare, split_append hscan, List.filter_cons_of_neg (by simp), bare]

theorem Piece.bare_token {t : Token} {c : Char} {tail rest : List Char}
    (hscan : Lexeme.scan c (tail ++ rest) = (.token t, tail.length)) :
    bare (c :: tail ++ rest) = ⟨.token t, c :: tail⟩ :: bare rest := by
  rw [bare, split_append hscan, List.filter_cons_of_pos (by simp), bare]

/-- A gap leaves nothing behind, whatever follows. One that a line comment may end has to be the end
of the source. -/
theorem Gap.bare_eq {final : Bool} {gap rest : List Char} (h : Gap final gap)
    (hrest : final = true → rest = []) : Piece.bare (gap ++ rest) = Piece.bare rest := by
  induction h with
  | nil => rfl
  | @spacing c cs hc _ ih =>
    have hscan := Lexeme.scan_spacing hc ([] ++ (cs ++ rest))
    exact (Piece.bare_layout hscan).trans ih
  | @line line cs hline hend _ ih =>
    have hstop : (cs ++ rest).takeWhile (· != '\n') = [] := by
      obtain hfeed | ⟨hfinal, rfl⟩ := hend
      · obtain ⟨cs', rfl⟩ := List.head?_eq_some_iff.mp hfeed
        rfl
      · rw [hrest hfinal]
        rfl
    have hscan : Lexeme.scan '/' ('/' :: line ++ (cs ++ rest)) =
        (.layout, ('/' :: line).length) := by
      rw [List.cons_append, Lexeme.scan_line hline, hstop, List.length_cons, Nat.add_comm]
      rfl
    have hbare := Piece.bare_layout hscan
    rw [ih] at hbare
    simpa using hbare
  | @block body cs hbody _ ih =>
    have htail : '*' :: (body ++ ['*', '/']) ++ (cs ++ rest) =
        '*' :: (body ++ '*' :: '/' :: (cs ++ rest)) := by
      simp
    have hscan : Lexeme.scan '/' ('*' :: (body ++ ['*', '/']) ++ (cs ++ rest)) =
        (.layout, ('*' :: (body ++ ['*', '/'])).length) := by
      rw [htail, Lexeme.scan_block hbody, List.length_cons, List.length_append]
      rfl
    have hbare := Piece.bare_layout hscan
    rw [ih] at hbare
    simpa using hbare

/-- A gap in front leaves the pieces as they are. -/
theorem Gap.bare_append {gap : List Char} (h : Gap false gap) (rest : List Char) :
    Piece.bare (gap ++ rest) = Piece.bare rest :=
  h.bare_eq fun hfinal => absurd hfinal Bool.false_ne_true

theorem Gap.head_not_isWordPart {final : Bool} {gap : List Char} (h : Gap final gap) :
    ∀ c ∈ gap.head?, isWordPart c = false := by
  intro c hc
  cases h with
  | nil => exact nomatch hc
  | spacing hspacing =>
    obtain rfl := Option.some.inj hc
    exact isWordPart_eq_false_of_isSpacing hspacing
  | line => obtain rfl := Option.some.inj hc; decide
  | block => obtain rfl := Option.some.inj hc; decide

/-- Tokens with gaps between them are read again. -/
theorem Spaced.bare_eq {texts : List (List Char)} {cs : List Char} (h : Spaced texts cs)
    {ps : List Piece} (htexts : ps.map (·.text) = texts)
    (hps : ∀ p ∈ ps, ∃ t, p.lexeme = .token t ∧ t.Written p.text) : Piece.bare cs = ps := by
  induction h generalizing ps with
  | nil =>
    obtain rfl := List.map_eq_nil_iff.mp htexts
    rw [Piece.bare, Piece.split]
    rfl
  | @cons text gap cs texts hgap hsep h ih =>
    obtain ⟨⟨lexeme, text⟩, ps, rfl, rfl, rfl⟩ := List.map_eq_cons_iff.mp htexts
    obtain ⟨⟨t, rfl, hwritten⟩, hrest⟩ := List.forall_mem_cons.mp hps
    obtain ⟨c, tail, rfl⟩ := List.exists_cons_of_ne_nil hwritten.ne_nil
    have hend : ∀ d ∈ (gap ++ cs).head?, isWordPart d = false := by
      cases gap with
      | cons d ds => exact hgap.head_not_isWordPart
      | nil =>
        have hlast : ps = [] := by simpa using hsep
        subst hlast
        cases h
        simp
    have hscan := Lexeme.scan_written hwritten hend
    rw [List.append_assoc, Piece.bare_token hscan, hgap.bare_append, ih rfl hrest]

section Lex

variable {source : String} {ts : List (Located Token)} (hlex : lex source = .ok ts)

include hlex

theorem values_of_lex :
    (ts.map (·.value)).map .token = (Piece.bare source.toList).map (·.lexeme) := by
  have hvalues := congrArg (List.map Prod.fst) (tokens_of_lex hlex)
  rw [List.map_map, List.map_map] at hvalues
  rw [← Piece.map_value_items, List.map_map, List.map_map]
  exact hvalues

theorem spans_of_lex : ts.map (·.span) = (Piece.items source.toList).map (·.span) := by
  have hspans := congrArg (List.map Prod.snd) (tokens_of_lex hlex)
  rwa [List.map_map, List.map_map] at hspans

/-- Each piece of a readable source is the written form of a token. -/
theorem written_of_lex :
    ∀ p ∈ Piece.bare source.toList, ∃ t, p.lexeme = .token t ∧ t.Written p.text := by
  intro p hp
  rw [← Piece.map_value_items] at hp
  obtain ⟨q, hq, rfl⟩ := List.mem_map.mp hp
  have hreadable := readable_of_lex hlex q hq
  have hlayout : q.value.lexeme ≠ .layout := by simpa using (List.mem_filter.mp hq).2
  cases hlexeme : q.value.lexeme with
  | token t => exact ⟨t, rfl, ((itemized_split source.toList 0).accounts.alone q hq t hlexeme).1⟩
  | layout => exact absurd hlexeme hlayout
  | unreadable => exact absurd hlexeme hreadable

/-- The texts at the spans of the tokens are those of the pieces. -/
theorem covers_iff (texts : List (List Char)) :
    List.Forall₂ (fun t text => t.span.Covers source.toList text) ts texts ↔
      texts = (Piece.bare source.toList).map (·.text) := by
  have hspans := spans_of_lex hlex
  have hcovered : List.Forall₂ (fun span text => span.Covers source.toList text)
      (ts.map (·.span)) ((Piece.bare source.toList).map (·.text)) := by
    rw [hspans, ← Piece.map_value_items, List.map_map, List.forall₂_map_left_iff,
      List.forall₂_map_right_iff, List.forall₂_same]
    exact (itemized_split source.toList 0).accounts.covered
  have hunique : Relator.RightUnique fun (span : Span) text => span.Covers source.toList text :=
    fun _ _ _ => Span.Covers.unique
  constructor
  · intro h
    exact List.right_unique_forall₂' hunique (List.forall₂_map_left_iff.mpr h) hcovered
  · rintro rfl
    exact List.forall₂_map_left_iff.mp hcovered

end Lex

/-- Where other gaps are put between the tokens of a source, it is read as before. -/
theorem layout_does_not_matter {source : String} {ts : List (Located Token)}
    {texts : List (List Char)} {lead body : List Char} (hlex : lex source = .ok ts)
    (htexts : List.Forall₂ (fun t text => t.span.Covers source.toList text) ts texts)
    (hlead : Gap false lead) (hbody : Spaced texts body) :
    ∃ us, lex (.ofList (lead ++ body)) = .ok us ∧ us.map (·.value) = ts.map (·.value) ∧
      List.Forall₂ (fun u text => u.span.Covers (lead ++ body) text) us texts ∧
      ((∃ d d', Design.parse source = .ok d ∧ Design.parse (.ofList (lead ++ body)) = .ok d' ∧
          d.SameContent d') ∨
        ∃ e e', Design.parse source = .error [e] ∧
          Design.parse (.ofList (lead ++ body)) = .error [e'] ∧
          e.Corresponds e' (byteLength source.toList) (byteLength (lead ++ body)) ts us) := by
  have htexts' := (covers_iff hlex texts).mp htexts
  have hwritten := written_of_lex hlex
  have hbare : Piece.bare (String.ofList (lead ++ body)).toList = Piece.bare source.toList := by
    rw [String.toList_ofList, hlead.bare_append, hbody.bare_eq htexts'.symm hwritten]
  have hreadable : ∀ p ∈ Piece.items (String.ofList (lead ++ body)).toList,
      p.value.lexeme ≠ .unreadable := by
    intro p hp
    have hmem : p.value ∈ (Piece.items (String.ofList (lead ++ body)).toList).map (·.value) :=
      List.mem_map_of_mem hp
    rw [Piece.map_value_items, hbare] at hmem
    obtain ⟨t, ht, -⟩ := hwritten p.value hmem
    rw [ht]
    exact Lexeme.noConfusion
  obtain ⟨us, hus, -⟩ := lex_of_readable hreadable
  have hvalues : us.map (·.value) = ts.map (·.value) := by
    have htokens := values_of_lex hus
    rw [hbare, ← values_of_lex hlex] at htokens
    exact List.map_injective_iff.mpr (fun _ _ => Lexeme.token.inj) htokens
  have hcovers := (covers_iff hus texts).mpr (hbare ▸ htexts')
  have hparse := Design.parse_of_lex hus
  rw [String.toList_ofList] at hcovers hparse
  refine ⟨us, hus, hvalues, hcovers, ?_⟩
  rw [Design.parse_of_lex hlex, hparse]
  obtain ⟨d, d', hd, hd', hdd⟩ | ⟨e, e', he, he', hee⟩ :=
    Design.ofTokens_alike hvalues.symm (byteLength source.toList) (byteLength (lead ++ body))
  · rw [hd, hd']
    exact .inl ⟨d, d', rfl, rfl, hdd⟩
  · rw [he, he']
    exact .inr ⟨e, e', rfl, rfl, hee⟩

/-- Quotes and backticks in a comment, and a comment sign in an expression, change nothing. -/
theorem layout_does_not_matter_commented :
    lex "report/**/`a//`" =
      .ok [⟨.keyword .report, ⟨0, 6⟩⟩, ⟨.expression "a//", ⟨10, 15⟩⟩] ∧
    List.Forall₂ (fun (t : Located Token) text => t.span.Covers "report/**/`a//`".toList text)
      [⟨.keyword .report, ⟨0, 6⟩⟩, ⟨.expression "a//", ⟨10, 15⟩⟩]
      ["report".toList, "`a//`".toList] ∧
    Gap false "//\n".toList ∧
    Spaced ["report".toList, "`a//`".toList]
      ("report".toList ++ "//\"`\n".toList ++ ("`a//`".toList ++ [] ++ [])) ∧
    ∃ us, lex "//\nreport//\"`\n`a//`" = .ok us ∧
      us.map (·.value) = [.keyword .report, .expression "a//"] := by
  have hlex : lex "report/**/`a//`" =
      .ok [⟨.keyword .report, ⟨0, 6⟩⟩, ⟨.expression "a//", ⟨10, 15⟩⟩] := by
    decide +kernel
  have htexts : List.Forall₂
      (fun (t : Located Token) text => t.span.Covers "report/**/`a//`".toList text)
      [⟨.keyword .report, ⟨0, 6⟩⟩, ⟨.expression "a//", ⟨10, 15⟩⟩]
      ["report".toList, "`a//`".toList] := by
    refine .cons ⟨[], "/**/`a//`".toList, ?_, ?_⟩ (.cons ⟨"report/**/".toList, [], ?_, ?_⟩ .nil)
    all_goals decide
  have hfeed : Gap false ['\n'] := .spacing (by decide) .nil
  have hempty : '\n' ∉ [] := List.not_mem_nil
  have hline : '\n' ∉ ['"', '`'] := by decide
  have hlead : Gap false "//\n".toList := .line hempty (.inl rfl) hfeed
  have hgap : Gap false "//\"`\n".toList := .line hline (.inl rfl) hfeed
  have hbody : Spaced ["report".toList, "`a//`".toList]
      ("report".toList ++ "//\"`\n".toList ++ ("`a//`".toList ++ [] ++ [])) :=
    .cons hgap (by decide) (.cons .nil (by decide) .nil)
  obtain ⟨us, hus, hvalues, -⟩ := layout_does_not_matter hlex htexts hlead hbody
  exact ⟨hlex, htexts, hlead, hbody, us, hus, hvalues⟩

end ReportAssembly
