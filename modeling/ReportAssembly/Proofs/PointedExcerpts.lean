import ReportAssembly.Proofs.PlacelessReading
import ReportAssembly.Proofs.SourceItems
import ReportAssembly.Proofs.SourceLines

namespace ReportAssembly

def LineAt (source front : List Char) (number column : Nat) : Prop :=
  ∃ before head tail after,
    SourceLine.Cut (SourceLine.splitText source) front before head tail after ∧
      number = before.length + 1 ∧ column = head.length + 1

/-- The excerpt is one for the stretch `text` that stands behind `front` in a source: it names the
place where the stretch begins, marks the characters of the stretch, and has the lines of the
stretch, of which the first and the last are printed. -/
structure Excerpt.PointsAt (x : Excerpt) (source front text : List Char) : Prop where
  place : LineAt source front x.line x.column
  marked : ∀ offset, x.covers offset = true ↔
    front.length ≤ offset ∧ offset < front.length + text.length
  lines : ∃ before after lead rest,
    SourceLine.splitText source = before ++ x.lines.map (·.text) ++ after ∧
      before.length + 1 = x.line ∧ before.flatten ++ lead = front ∧
      (x.lines.map (·.text)).flatten = lead ++ text ++ rest
  printed : ∀ l, x.lines.head? = some l ∨ x.lines.getLast? = some l → ∀ file label,
    ∃ row ∈ x.rows file label, x.sourceCells l <:+ row

section

variable {cs front text back source : List Char} {x : Excerpt} {span : Span} {l : SourceLine}

theorem length_le_byteLength (cs : List Char) : cs.length ≤ byteLength cs := by
  induction cs with
  | nil => exact Nat.le_refl 0
  | cons c cs ih =>
    have hpos := c.utf8Size_pos
    rw [List.length_cons, byteLength_cons]
    omega

/-- A text has as many bytes as characters exactly if each character has one byte. -/
theorem byteLength_eq_length_iff :
    byteLength cs = cs.length ↔ ∀ c ∈ cs, c.utf8Size = 1 := by
  induction cs with
  | nil => simp
  | cons c cs ih =>
    have hpos := c.utf8Size_pos
    have hle := length_le_byteLength cs
    rw [List.forall_mem_cons, ← ih, byteLength_cons, List.length_cons]
    omega

namespace Excerpt

/-- There is an excerpt exactly if both ends of the stretch are on lines of the source. -/
theorem ofSource?_eq_some_iff :
    ofSource? source span = some x ↔ span.start ≤ span.stop ∧
      ∃ first last, SourceLine.indexOf? (SourceLine.ofSource source) span.start = some first ∧
        SourceLine.indexOf? (SourceLine.ofSource source)
          (if span.start < span.stop then span.stop - 1 else span.start) = some last ∧
        x = ⟨span.start, span.stop, first,
          ((SourceLine.ofSource source).drop first).take (last + 1 - first)⟩ := by
  simp only [ofSource?, guard, bind, pure, failure, Option.bind_eq_some_iff]
  constructor
  · rintro ⟨_, hguard, first, hfirst, hx⟩
    split_ifs at hguard with hle
    refine ⟨hle, first, ?_⟩
    by_cases hlt : span.start < span.stop
    · rw [if_pos hlt] at hx ⊢
      obtain ⟨last, hlast, hx⟩ := Option.bind_eq_some_iff.mp hx
      exact ⟨last, hfirst, hlast, (Option.some.inj hx).symm⟩
    · rw [if_neg hlt] at hx ⊢
      exact ⟨first, hfirst, hfirst, (Option.some.inj hx).symm⟩
  · rintro ⟨hle, first, last, hfirst, hlast, rfl⟩
    refine ⟨(), if_pos hle, first, hfirst, ?_⟩
    by_cases hlt : span.start < span.stop
    · rw [if_pos hlt] at hlast ⊢
      rw [hlast]
      rfl
    · rw [if_neg hlt] at hlast ⊢
      obtain rfl := Option.some.inj (hfirst.symm.trans hlast)
      rfl

/-- An excerpt names the place of its first character, whatever that is meant to be. -/
theorem lineAt_of_ofSource? (h : ofSource? source span = some x) :
    source ≠ [] ∧ span.start ≤ source.length ∧
      LineAt source (source.take span.start) x.line x.column := by
  obtain ⟨hle, first, last, hfirst, hlast, rfl⟩ := ofSource?_eq_some_iff.mp h
  obtain ⟨hne, hstart⟩ := SourceLine.le_of_indexOf? hfirst
  rw [SourceLine.flatten_splitText] at hstart
  have hflatten : (SourceLine.splitText source).flatten =
      source.take span.start ++ source.drop span.start := by
    rw [SourceLine.flatten_splitText, List.take_append_drop]
  obtain ⟨before, head, tail, after, hcut⟩ := SourceLine.exists_cut hne hflatten
  have hlength : (source.take span.start).length = span.start := List.length_take_of_le hstart
  have hindex := hcut.indexOf?_eq
  rw [hlength] at hindex
  obtain rfl : first = before.length := Option.some.inj (hfirst.symm.trans hindex)
  have hmono : before.length ≤ last := by
    refine SourceLine.indexOf?_mono ?_ hfirst hlast
    split_ifs <;> omega
  have hhead : (((SourceLine.ofSource source).drop before.length).take
      (last + 1 - before.length)).head? = some ⟨before.flatten.length, head ++ tail⟩ := by
    rw [SourceLine.ofSource, hcut.drop_place, Nat.succ_sub hmono]
    rfl
  have hcolumn : span.start = before.flatten.length + head.length := by
    rw [← hlength, hcut.front, List.length_append]
  refine ⟨mt SourceLine.splitText_eq_nil_iff.mpr hne, hstart, before, head, tail, after, hcut,
    rfl, ?_⟩
  rw [column, hhead]
  simp only [Option.map_some, Option.getD_some]
  omega

theorem suffix_numberedRow {row row' : Row} (index : Nat) (h : row <:+ row') :
    row <:+ x.numberedRow index row' :=
  ((h.trans (List.suffix_cons _ _)).trans (List.suffix_cons _ _)).trans (List.suffix_cons _ _)

/-- The first and the last line of a stretch are printed in either layout. -/
theorem exists_printed (hl : l ∈ x.lines)
    (hends : x.lines = [l] ∨ l.contains x.start = true ∨ l.contains (x.stop - 1) = true)
    (hstop : x.lines = [l] → x.stop ≤ l.stop) (file label : String) :
    ∃ row ∈ x.rows file label, x.sourceCells l <:+ row := by
  have hbody : ∃ row ∈ x.body label, x.sourceCells l <:+ row := by
    unfold body
    split
    · next only honly =>
      obtain rfl : l = only := by simpa [honly] using hl
      rw [singleLine, if_neg (Nat.not_lt.mpr (hstop honly))]
      exact ⟨_, List.mem_cons_self, suffix_numberedRow 0 List.suffix_rfl⟩
    · next hseveral =>
      obtain ⟨index, hindex⟩ := List.mem_iff_getElem?.mp hl
      have hmem : (l, index) ∈ x.lines.zipIdx := List.mem_zipIdx_iff_getElem?.mpr hindex
      let row (corner : String) : Row := x.numberedRow index (cells 1 .marked corner ++
        cells 1 .marked "─" ++ cells 1 .marked "▶" ++ cells 1 .marked " " ++ x.sourceCells l)
      have hrow (corner : String) : x.sourceCells l <:+ row corner :=
        suffix_numberedRow index (List.suffix_append _ _)
      simp only [severalLines, List.mem_flatMap]
      by_cases hfirst : l.contains x.start = true
      · refine ⟨row "╭", ⟨(l, index), hmem, ?_⟩, hrow "╭"⟩
        rw [if_pos hfirst]
        exact List.mem_singleton_self _
      · have hlast : l.contains (x.stop - 1) = true := by
          obtain honly | hends := hends
          · exact absurd honly (hseveral l)
          · exact hends.resolve_left hfirst
        refine ⟨row "├", ⟨(l, index), hmem, ?_⟩, hrow "├"⟩
        rw [if_neg hfirst, if_pos hlast]
        exact List.mem_cons_self
  obtain ⟨row, hrow, hcells⟩ := hbody
  exact ⟨row, List.mem_append_left _ (List.mem_append_right _ hrow), hcells⟩

/-- The excerpt for a stretch that is counted in characters. -/
theorem ofSource?_of_frame {before middle after : List (List Char)} {lead rest : List Char}
    (h : SourceLine.Frame (SourceLine.splitText source) front text before middle after lead rest) :
    ofSource? source ⟨front.length, front.length + text.length⟩ =
      some ⟨front.length, front.length + text.length, before.length,
        SourceLine.place before.flatten.length middle⟩ := by
  have hpos := List.length_pos_iff.mpr h.nonempty
  refine ofSource?_eq_some_iff.mpr
    ⟨Nat.le_add_right _ _, before.length, before.length + middle.length - 1, h.first, ?_, ?_⟩
  · rw [← h.last, SourceLine.ofSource]
    congr 1
    dsimp only
    split_ifs <;> omega
  · have hcount : before.length + middle.length - 1 + 1 - before.length = middle.length := by
      omega
    rw [SourceLine.ofSource, h.lines, SourceLine.place_append, SourceLine.place_append,
      Nat.zero_add, List.append_assoc, List.drop_left' (SourceLine.length_place _ _), hcount,
      List.take_left' (SourceLine.length_place _ _)]

/-- The lines of the excerpt for a stretch that is counted in characters are printed. -/
theorem printed_of_frame {before middle after : List (List Char)} {lead rest : List Char}
    (h : SourceLine.Frame (SourceLine.splitText source) front text before middle after lead rest)
    (hx : x = ⟨front.length, front.length + text.length, before.length,
      SourceLine.place before.flatten.length middle⟩)
    (hl : x.lines.head? = some l ∨ x.lines.getLast? = some l) (file label : String) :
    ∃ row ∈ x.rows file label, x.sourceCells l <:+ row := by
  have hmem : l ∈ x.lines := hl.elim List.mem_of_mem_head? List.mem_of_mem_getLast?
  subst hx
  have hstart : front.length = before.flatten.length + lead.length := by
    rw [h.reached, List.length_append]
  have hcovered := congrArg List.length h.covered
  rw [List.length_append, List.length_append] at hcovered
  refine exists_printed hmem ?_ ?_ file label
  · by_cases htext : text = []
    · obtain ⟨only, rfl⟩ := List.length_eq_one_iff.mp (h.single htext)
      exact .inl (congrArg ([·]) (List.mem_singleton.mp hmem).symm)
    · have hpos := List.length_pos_iff.mpr htext
      refine .inr (hl.imp (fun hl => ?_) fun hl => ?_)
      · obtain ⟨line, others, rfl⟩ := List.exists_cons_of_ne_nil h.nonempty
        have hbegins := h.begins htext line rfl
        obtain rfl := Option.some.inj hl
        refine SourceLine.contains_iff.mpr ⟨?_, ?_⟩ <;> dsimp only <;> omega
      · obtain rfl | ⟨others, line, rfl⟩ := middle.eq_nil_or_concat
        · exact absurd rfl h.nonempty
        · have hends := h.ends
          rw [List.concat_eq_append] at hl hends hcovered
          rw [List.dropLast_concat] at hends
          rw [List.flatten_concat, List.length_append] at hcovered
          obtain rfl := Option.some.inj ((SourceLine.getLast?_place_concat _ _ _).symm.trans hl)
          refine SourceLine.contains_iff.mpr ⟨?_, ?_⟩ <;> dsimp only <;> omega
  · intro honly
    have hlength := congrArg List.length honly
    rw [SourceLine.length_place] at hlength
    obtain ⟨line, rfl⟩ := List.length_eq_one_iff.mp hlength
    obtain rfl := List.singleton_inj.mp honly
    rw [List.flatten_singleton] at hcovered
    simp only [SourceLine.stop]
    omega

/-- Where characters are bytes, an excerpt points at the stretch that it is made for. -/
theorem exists_pointsAt (hne : source ≠ []) (hsource : source = front ++ text ++ back) :
    ∃ x, ofSource? source ⟨front.length, front.length + text.length⟩ = some x ∧
      x.PointsAt source front text := by
  have htexts : SourceLine.splitText source ≠ [] := mt SourceLine.splitText_eq_nil_iff.mp hne
  have hflatten : (SourceLine.splitText source).flatten = front ++ text ++ back := by
    rw [SourceLine.flatten_splitText, hsource]
  obtain ⟨before, middle, after, lead, rest, hframe⟩ := SourceLine.exists_frame htexts hflatten
  have hx := ofSource?_of_frame hframe
  refine ⟨_, hx, ?_, ?_, ?_, fun l hl => printed_of_frame hframe rfl hl⟩
  · have htake : source.take front.length = front := by
      rw [hsource, List.append_assoc, List.take_left]
    obtain ⟨-, -, hline⟩ := lineAt_of_ofSource? hx
    rwa [htake] at hline
  · intro offset
    simp [covers]
  · refine ⟨before, after, lead, rest, ?_, rfl, hframe.reached.symm, ?_⟩
    · rw [SourceLine.map_text_place, hframe.lines]
    · rw [SourceLine.map_text_place, hframe.covered]

/-- An excerpt that points at the right stretch was made without counting a byte too much. -/
theorem PointsAt.singleBytes
    (hx : ofSource? source ⟨byteLength front, byteLength (front ++ text)⟩ = some x)
    (h : x.PointsAt source front text) : ∀ c ∈ front ++ text, c.utf8Size = 1 := by
  obtain ⟨-, hstart, before', head', tail', after', hcut', hline', hcolumn'⟩ :=
    lineAt_of_ofSource? hx
  obtain ⟨before, head, tail, after, hcut, hline, hcolumn⟩ := h.place
  -- The place that it names is that of as many characters as there are bytes before the stretch.
  have hfront : front = source.take (byteLength front) :=
    hcut.front_eq hcut' (by omega) (by omega)
  have hlength : front.length = byteLength front := by
    have htake := congrArg List.length hfront
    rwa [List.length_take_of_le hstart] at htake
  obtain ⟨-, first, last, -, -, rfl⟩ := ofSource?_eq_some_iff.mp hx
  rw [← byteLength_eq_length_iff, List.length_append]
  apply Nat.le_antisymm
  · by_contra hlt
    have hcovers := (h.marked (front.length + text.length)).mp
    simp only [covers, Bool.and_eq_true, decide_eq_true_eq] at hcovers
    have hmarked := hcovers ⟨by omega, by omega⟩
    omega
  · rw [← List.length_append]
    exact length_le_byteLength _

end Excerpt

theorem Span.Covers.stop_le (h : span.Covers source text) : span.stop ≤ byteLength source := by
  obtain ⟨front, back, rfl, rfl⟩ := h
  rw [byteLength_append, byteLength_append]
  exact Nat.le_add_right _ _

end

section

variable {source : String} {ts : List (Located Token)} {errors : List SyntaxError}
  {e : SyntaxError}

theorem covers_of_lex (hlex : lex source = .ok ts) {t : Located Token} (ht : t ∈ ts) :
    ∃ text, t.span.Covers source.toList text := by
  have hmem : (Lexeme.token t.value, t.span) ∈
      (Piece.items source.toList).map fun p => (p.value.lexeme, p.span) := by
    rw [← tokens_of_lex hlex]
    exact List.mem_map_of_mem ht
  obtain ⟨p, hp, hpt⟩ := List.mem_map.mp hmem
  rw [← (Prod.mk.inj hpt).2]
  exact ⟨_, (itemized_split source.toList 0).accounts.covered p hp⟩

theorem covers_of_lex_error (hlex : lex source = .error errors) (he : e ∈ errors) :
    ∃ text, e.span.Covers source.toList text := by
  obtain ⟨es, hes, hnotices⟩ := lex_of_unreadable (unreadable_of_lex hlex)
  obtain rfl := Except.error.inj (hlex.symm.trans hes)
  have hmem := List.mem_map_of_mem (f := SyntaxError.notice) he
  rw [hnotices] at hmem
  obtain ⟨p, hp, hnotice⟩ := List.mem_map.mp hmem
  have hspan : p.span = e.span := congrArg Notice.span hnotice
  rw [← hspan]
  exact ⟨_, (itemized_split source.toList 0).accounts.covered p (List.mem_of_mem_filter hp)⟩

/-- The end of a source is a stretch without characters, unless it runs back to the last token. -/
theorem covers_endSpan (hlex : lex source = .ok ts) {span : Span}
    (hspan : span = endSpan (byteLength source.toList) ts) :
    span.stop < span.start ∨ ∃ text, span.Covers source.toList text := by
  have hend : Span.Covers ⟨byteLength source.toList, byteLength source.toList⟩ source.toList [] :=
    ⟨source.toList, [], by simp, rfl⟩
  rw [hspan, endSpan]
  cases hlast : ts.getLast? with
  | none => exact .inr ⟨[], hend⟩
  | some t =>
    obtain ⟨text, hcovers⟩ := covers_of_lex hlex (List.mem_of_mem_getLast? hlast)
    obtain hlt | heq := Nat.lt_or_eq_of_le hcovers.stop_le
    · exact .inl hlt
    · refine .inr ⟨[], ?_⟩
      rw [Option.map_some, Option.getD_some, heq]
      exact hend

/-- An error is at a stretch of the source, unless it runs back from the end. -/
theorem covers_of_parse (hparse : Design.parse source = .error errors) (he : e ∈ errors) :
    e.span.stop < e.span.start ∨ ∃ text, e.span.Covers source.toList text := by
  cases hlex : lex source with
  | error es =>
    rw [Design.parse, hlex] at hparse
    obtain rfl := Except.error.inj hparse
    exact .inr (covers_of_lex_error hlex he)
  | ok ts =>
    rw [Design.parse_of_lex hlex] at hparse
    have hsame : ts.map (·.value) = ts.map (·.value) := rfl
    obtain ⟨d, _, hread, -⟩ | ⟨e', _, hread, -, halike⟩ := Design.ofTokens_alike hsame
      (byteLength source.toList) (byteLength source.toList)
    · rw [hread] at hparse
      cases hparse
    · rw [hread] at hparse
      obtain rfl := Except.error.inj hparse
      obtain rfl := List.mem_singleton.mp he
      obtain ⟨x, hx, hspan, -⟩ | ⟨hspan, -⟩ := halike.place
      · rw [hspan]
        exact .inr (covers_of_lex hlex (List.of_mem_zip hx).1)
      · exact covers_endSpan hlex hspan

def Notice.PointsAt (n : Notice) (source : String) (front text : List Char) : Prop :=
  ∃ x, Excerpt.ofSource? source.toList n.span = some x ∧
    x.PointsAt source.toList front text ∧
    ∃ head : Row, ∀ file, n.render source file =
      String.join ((head :: x.rows file n.label).map Row.render)

/-- An error that does not run back is at a stretch of the source, and is rendered as one there
exactly if all characters up to the end of the stretch have one byte. -/
theorem rendered_error_points_at_stretch_iff (hparse : Design.parse source = .error errors)
    (he : e ∈ errors) :
    (e.span.stop < e.span.start ∨ ∃ text, e.span.Covers source.toList text) ∧
    ∀ front text back, source.toList = front ++ text ++ back →
      e.span = ⟨byteLength front, byteLength (front ++ text)⟩ →
        (e.notice.PointsAt source front text ↔
          source ≠ "" ∧ ∀ c ∈ front ++ text, c.utf8Size = 1) := by
  refine ⟨covers_of_parse hparse he, fun front text back hsource hspan => ?_⟩
  have hempty : source.toList = [] ↔ source = "" := String.toList_eq_nil_iff
  constructor
  · rintro ⟨x, hx, hpoints, -⟩
    have hx' : Excerpt.ofSource? source.toList
        ⟨byteLength front, byteLength (front ++ text)⟩ = some x := hspan ▸ hx
    obtain ⟨hne, -⟩ := Excerpt.lineAt_of_ofSource? hx'
    exact ⟨mt hempty.mpr hne, hpoints.singleBytes hx'⟩
  · rintro ⟨hne, hbytes⟩
    obtain ⟨hfront, htext⟩ := List.forall_mem_append.mp hbytes
    obtain ⟨x, hx, hpoints⟩ := Excerpt.exists_pointsAt (mt hempty.mp hne) hsource
    rw [byteLength_append, byteLength_eq_length_iff.mpr hfront,
      byteLength_eq_length_iff.mpr htext] at hspan
    have hx' : Excerpt.ofSource? source.toList e.notice.span = some x := by
      rw [SyntaxError.notice, hspan, hx]
    refine ⟨x, hx', hpoints, [⟨.marked, "Error:"⟩, ⟨.plain, " " ++ e.notice.message⟩], ?_⟩
    intro file
    rw [Notice.render, hx']

end

/-- The stray character is pointed at, in column 14. -/
theorem rendered_error_points_at_stretch_stray :
    Design.parse "report \"R\" \x7b @ \x7d" = .error [⟨⟨13, 14⟩, .unreadable "@", []⟩] ∧
    SyntaxError.span ⟨⟨13, 14⟩, .unreadable "@", []⟩ =
      ⟨byteLength "report \"R\" \x7b ".toList,
        byteLength ("report \"R\" \x7b ".toList ++ ['@'])⟩ ∧
    (SyntaxError.notice ⟨⟨13, 14⟩, .unreadable "@", []⟩).PointsAt "report \"R\" \x7b @ \x7d"
      "report \"R\" \x7b ".toList ['@'] := by
  have hparse : Design.parse "report \"R\" \x7b @ \x7d" =
      .error [⟨⟨13, 14⟩, .unreadable "@", []⟩] := by
    decide +kernel
  have hspan : SyntaxError.span ⟨⟨13, 14⟩, .unreadable "@", []⟩ =
      ⟨byteLength "report \"R\" \x7b ".toList,
        byteLength ("report \"R\" \x7b ".toList ++ ['@'])⟩ := by
    decide
  have hpoints := rendered_error_points_at_stretch_iff hparse (List.mem_singleton_self _)
  refine ⟨hparse, hspan, (hpoints.2 _ _ " \x7d".toList ?_ hspan).mpr ⟨?_, ?_⟩⟩
  · decide
  · decide
  · exact byteLength_eq_length_iff.mp (by decide)

/-- Behind a character of two bytes the error is rendered one column too far to the right, and the
blank behind the stray character is marked instead of it. -/
theorem rendered_error_past_stretch :
    Design.parse "report \"é\" \x7b @ \x7d" = .error [⟨⟨14, 15⟩, .unreadable "@", []⟩] ∧
    "report \"é\" \x7b @ \x7d".toList[13]? = some '@' ∧
    byteLength ("report \"é\" \x7b @ \x7d".toList.take 13) = 14 ∧
    ∃ x, Excerpt.ofSource? "report \"é\" \x7b @ \x7d".toList ⟨14, 15⟩ = some x ∧
      x.line = 1 ∧ x.column = 15 ∧ x.covers 13 = false ∧ x.covers 14 = true := by
  refine ⟨?_, ?_, ?_, _, rfl, ?_⟩
  · decide +kernel
  · decide
  · decide
  · decide

end ReportAssembly
