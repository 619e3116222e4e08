import ReportAssembly.Proofs.GrammarReading

namespace ReportAssembly

/-- The source of a design shows its content only. -/
theorem Design.SameContent.print_eq {d d' : Design} (h : d.SameContent d') :
    d.print = d'.print := by
  have hparameters (x : Design) : (x.parameters.map fun p => "    " ++ p.value.print) =
      (x.parameters.map (·.value)).map fun p => "    " ++ p.print := by
    rw [List.map_map]
    rfl
  have hlines : Section.lines = fun s =>
      Section.lines ⟨s.content.1, s.content.2.map fun e => ⟨e, ⟨0, 0⟩⟩⟩ := by
    funext s
    simp [Section.lines, Section.content, Function.comp_def]
  have hsections (x : Design) : x.sections.flatMap Section.lines =
      (x.sections.map Section.content).flatMap fun s =>
        Section.lines ⟨s.1, s.2.map fun e => ⟨e, ⟨0, 0⟩⟩⟩ := by
    rw [List.flatMap_map]
    exact congrArg x.sections.flatMap hlines
  rw [print, print, lines, lines, hparameters, hparameters d', hsections, hsections d', h.name,
    h.parameters, h.sections]

/-- Whether a design has a source depends on its content only. -/
theorem Design.SameContent.spellable {d d' : Design} (h : d.SameContent d') (hd : d.Spellable) :
    d'.Spellable := by
  constructor
  · intro p hp
    have hmem : p.value ∈ d.parameters.map (·.value) := h.parameters ▸ List.mem_map_of_mem hp
    obtain ⟨q, hq, hvalue⟩ := List.mem_map.mp hmem
    exact hvalue ▸ hd.parameters q hq
  · intro s hs e he
    have hmem : s.content ∈ d.sections.map Section.content := h.sections ▸ List.mem_map_of_mem hs
    obtain ⟨r, hr, hcontent⟩ := List.mem_map.mp hmem
    have helements : r.elements.map (·.value) = s.elements.map (·.value) :=
      congrArg Prod.snd hcontent
    have hvalue : e.value ∈ r.elements.map (·.value) := helements ▸ List.mem_map_of_mem he
    obtain ⟨x, hx, hxe⟩ := List.mem_map.mp hvalue
    exact hxe ▸ hd.sections r hr x hx

/-- A source is parsed exactly if its tokens spell a design. -/
theorem Design.parse_eq_ok_iff (source : String) (d : Design) :
    Design.parse source = .ok d ↔
      ∃ ts, lex source = .ok ts ∧ Design.ofTokens (byteLength source.toList) ts = .ok d := by
  cases hlex : lex source with
  | error errors =>
    rw [parse, hlex]
    constructor
    · intro h
      cases h
    · rintro ⟨_, hts, -⟩
      cases hts
  | ok ts =>
    rw [parse_of_lex hlex]
    cases htokens : Design.ofTokens (byteLength source.toList) ts with
    | error e => simp [Except.mapError, htokens]
    | ok d' => simp [Except.mapError, htokens]

/-- Every design that comes from a source has a source. -/
theorem Design.spellable_of_parse {source : String} {d : Design}
    (h : Design.parse source = .ok d) : d.Spellable := by
  obtain ⟨ts, hlex, hread⟩ := (parse_eq_ok_iff source d).mp h
  have hreads := (exists_lex_iff_reads source _).mp ⟨ts, hlex, rfl⟩
  refine spellable_of_ofTokens hread fun t ht => ?_
  exact hreads.lexical t.value (List.mem_map_of_mem ht)

/-- The printed form of a design parses back, up to spans. -/
theorem Design.exists_parse_print {d : Design} (h : d.Spellable) :
    ∃ d', Design.parse d.print = .ok d' ∧ d'.SameContent d := by
  obtain ⟨ts, hlex, hts⟩ := (exists_lex_iff_reads d.print d.tokens).mpr (reads_print h)
  obtain ⟨d', hread, hsame⟩ := exists_ofTokens_eq_ok (byteLength d.print.toList) hts
  exact ⟨d', (parse_eq_ok_iff _ _).mpr ⟨ts, hlex, hread⟩, hsame⟩

/-- Printing and parsing are inverse, up to spans, exactly on the designs that have a source. All
designs that are parsed have one, so they are restored and printed alike from their printed forms. -/
theorem printed_design_parses_back_iff :
    (∀ d : Design,
      (∃ d', Design.parse d.print = .ok d' ∧ d'.SameContent d) ↔ d.Spellable) ∧
    ∀ (source : String) (d : Design), Design.parse source = .ok d →
      d.Spellable ∧
      ∃ d', Design.parse d.print = .ok d' ∧ d'.SameContent d ∧ d'.print = d.print := by
  constructor
  · intro d
    constructor
    · rintro ⟨d', hparse, hsame⟩
      exact hsame.spellable (Design.spellable_of_parse hparse)
    · exact Design.exists_parse_print
  · intro source d hparse
    have hd := Design.spellable_of_parse hparse
    obtain ⟨d', hback, hsame⟩ := Design.exists_parse_print hd
    exact ⟨hd, d', hback, hsame, hsame.print_eq⟩

theorem printed_design_parses_back_iff_quoted :
    ∃ d, Design.parse
        "report \"R\" \x7bsection detail \x7btext \"a\\\"\" subreport `\"B\"`\x7d\x7d" = .ok d ∧
      d.Spellable ∧
      ∃ d', Design.parse d.print = .ok d' ∧ d'.SameContent d ∧ d'.print = d.print :=
  have hparse : Design.parse
      "report \"R\" \x7bsection detail \x7btext \"a\\\"\" subreport `\"B\"`\x7d\x7d" =
        .ok ⟨"R", [], [⟨.detail, [⟨.text "a\"", ⟨28, 38⟩⟩,
          ⟨.subreport ⟨"\"B\"", .string⟩, ⟨39, 54⟩⟩]⟩]⟩ := by decide +kernel
  ⟨_, hparse, printed_design_parses_back_iff.2 _ _ hparse⟩

end ReportAssembly
