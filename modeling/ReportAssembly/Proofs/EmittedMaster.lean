import Mathlib
import ReportAssembly.CommandLine.Program
import ReportAssembly.Proofs.CompiledForms
import ReportAssembly.Proofs.FirstFault
import ReportAssembly.Proofs.RoundTrip
import ReportAssembly.Proofs.Registrations

namespace ReportAssembly

namespace Report

theorem repeatedDeclarations_problems {seen : List String} {ps qs : List (Located Parameter)}
    (h : ps.map (·.value) = qs.map (·.value)) :
    (repeatedDeclarations seen ps).map (·.problem) =
      (repeatedDeclarations seen qs).map (·.problem) := by
  induction ps generalizing seen qs with
  | nil =>
    obtain rfl := List.map_eq_nil_iff.mp h.symm
    rfl
  | cons p ps ih =>
    obtain ⟨q, rest, rfl, hq, hrest⟩ := List.map_eq_cons_iff.mp h.symm
    have hproblems : (repeatedDeclarations (p.value.name :: seen) ps).map (·.problem) =
        (repeatedDeclarations (p.value.name :: seen) rest).map (·.problem) := ih hrest.symm
    rw [repeatedDeclarations, repeatedDeclarations, hq]
    dsimp only
    split_ifs
    · rw [List.map_cons, List.map_cons, hproblems]
    · exact hproblems

def problemsOf (declared : Declarations) (e : ReportAssembly.Element) : List Problem :=
  match compileElement declared e with
  | .ok _ => []
  | .error problems => problems

theorem elementProblems_problems (declared : Declarations) (e : Located ReportAssembly.Element) :
    (elementProblems declared e).map (·.problem) = problemsOf declared e.value := by
  rw [elementProblems, problemsOf]
  cases compileElement declared e.value with
  | ok x => rfl
  | error problems =>
    rw [List.map_map]
    exact List.map_id problems

variable {d d' : Design}

theorem declarations_eq (h : d.SameContent d') : declarations d = declarations d' := by
  funext n
  rw [declarations, declarations, Design.parameter?, Design.parameter?, h.parameters]

/-- What is wrong with a design depends on its content only. -/
theorem diagnostics_problems (h : d.SameContent d') :
    (diagnostics d).map (·.problem) = (diagnostics d').map (·.problem) := by
  have hsections (x : Design) (declared : Declarations) :
      (x.sections.flatMap fun s => s.elements.flatMap (elementProblems declared)).map (·.problem) =
        (x.sections.map Section.content).flatMap fun s => s.2.flatMap (problemsOf declared) := by
    rw [List.map_flatMap, List.flatMap_map]
    apply List.flatMap_congr
    intro s _
    rw [List.map_flatMap, Section.content, List.flatMap_map]
    simp only [elementProblems_problems]
  have hname : nameProblems d = nameProblems d' := by
    rw [nameProblems, nameProblems, h.name]
  have hdeclared : (repeatedDeclarations [] d.parameters).map (·.problem) =
      (repeatedDeclarations [] d'.parameters).map (·.problem) :=
    repeatedDeclarations_problems h.parameters
  simp only [diagnostics, List.map_append, hsections, h.sections, hname, hdeclared,
    declarations_eq h]

/-- Designs that differ in spans are compiled to the same report. -/
theorem compile_of_sameContent (h : d.SameContent d') {r : Report} (hr : compile d = .ok r) :
    compile d' = .ok r := by
  obtain ⟨hnil, rfl⟩ := compile_eq_ok_iff.mp hr
  have hproblems := diagnostics_problems h
  rw [hnil, List.map_nil, eq_comm, List.map_eq_nil_iff] at hproblems
  have hsections (x : Design) (declared : Declarations) :
      x.sections.map (compileSection declared) = (x.sections.map Section.content).map fun s =>
        ⟨s.1, s.2.filterMap fun e => (compileElement declared e).toOption⟩ := by
    rw [List.map_map]
    apply List.map_congr_left
    intro s _
    rw [compileSection, Function.comp_apply, Section.content, List.filterMap_map]
    rfl
  rw [compile_eq_ok_iff]
  refine ⟨hproblems, ?_⟩
  rw [hsections, hsections d', h.name, h.parameters, h.sections, declarations_eq h]

end Report

theorem notMem_parameterReference_backtick {n : String} (h : isIdentifier n = true) :
    '`' ∉ (Interpolation.parameterReference n).toList := by
  have hname : '`' ∉ n.toList := fun hmem =>
    absurd (isWordPart_of_isIdentifier h _ hmem) (by decide)
  simpa [Interpolation.parameterReference] using hname

theorem Element.Spellable.bound {e : Element} (h : e.Spellable) : e.bound.Spellable := by
  cases e with
  | subreport x =>
    cases hname : templateName x.text with
    | error fault =>
      have hself : (Element.subreport x).bound = .subreport x := by rw [Element.bound, hname]
      rwa [hself]
    | ok n =>
      have hquotes := (templateName_eq_ok_iff x.text n).mp hname
      rw [Element.bound_subreport hquotes]
      intro y hy
      obtain rfl := Option.some.inj hy
      exact notMem_parameterReference_backtick hquotes.isIdentifier
  | _ => exact h

/-- Placeholders declare identifiers only. -/
theorem isIdentifier_of_mem_bindingParameters {declared : List String} {qs : List Placeholder}
    {p : Located Parameter} (hp : p ∈ bindingParameters declared qs) :
    isIdentifier p.value.name = true := by
  have hmem := List.mem_map_of_mem (f := (·.value.name)) hp
  obtain ⟨q, -, hq⟩ := List.mem_filterMap.mp
    ((mem_bindingParameters_names declared qs p.value.name).mp hmem).1
  exact ((q.name?_eq_some_iff _).mp hq).isIdentifier

/-- Whichever placeholders are bound, the design has a source if it had one before. -/
theorem Design.Spellable.boundAt {d : Design} (h : d.Spellable) (qs : List Placeholder) :
    (d.boundAt qs).Spellable := by
  constructor
  · intro p hp
    rcases List.mem_append.mp hp with hp | hp
    · exact h.parameters p hp
    · exact isIdentifier_of_mem_bindingParameters hp
  · intro s hs e he
    obtain ⟨band, hband⟩ := List.mem_iff_getElem?.mp hs
    obtain ⟨index, hindex⟩ := List.mem_iff_getElem?.mp he
    have helement : (d.boundAt qs).element? ⟨band, index⟩ = some e := by
      simp [element?, hband, hindex]
    rw [element?_boundAt, Option.map_eq_some_iff] at helement
    obtain ⟨e₀, he₀, rfl⟩ := helement
    obtain ⟨s₀, hs₀, he₀⟩ := Option.bind_eq_some_iff.mp he₀
    have hspellable : e₀.value.Spellable :=
      h.sections s₀ (List.mem_of_getElem? hs₀) e₀ (List.mem_of_getElem? he₀)
    dsimp only
    split_ifs
    · exact hspellable.bound
    · exact hspellable

/-- The printed master can be parsed, however the composition has ended, and the report of the
package is compiled from it. It is what a run of the program prints that asks for the design. -/
structure Composition.Reparsable (run : Composition Report Report.CompileError) : Prop where
  parsed : ∃ d, Design.parse run.master.print = .ok d ∧ d.SameContent run.master ∧
    ∀ package, run.outcome = .ok package → Report.compile d = .ok package.report
  emitted : ∀ (a : CommandLine.Arguments) (package : Package Report),
    a.emitDesign = true → run.outcome = .ok package →
      (CommandLine.report a run).code = 0 ∧ (CommandLine.report a run).out = run.master.print

/-- The printed master of a composition is the master that the composition leaves, if the master
had a source. -/
theorem emitted_master_parses_back {source : String} {master : Design}
    (hparse : Design.parse source = .ok master) (store : Store) (nested : Bool) :
    ((⟨store, Report.compile, nested⟩ : Composer Report Report.CompileError).compose
      master).Reparsable := by
  constructor
  case parsed =>
    obtain ⟨k, -, hmaster, -⟩ := Composer.exists_boundAt_and_ends
      (⟨store, Report.compile, nested⟩ : Composer Report Report.CompileError) master
    have hspellable := (Design.spellable_of_parse hparse).boundAt (master.placeholders.take k)
    rw [← hmaster] at hspellable
    obtain ⟨d, hd, hsame⟩ := Design.exists_parse_print hspellable
    refine ⟨d, hd, hsame, ?_⟩
    intro package hok
    obtain ⟨_, _, -, -, hcompile, -, hcompose⟩ := Composer.compose_outcome_eq_ok _ hok
    rw [hcompose] at hsame
    exact Report.compile_of_sameContent hsame.symm hcompile
  case emitted =>
    intro a package hemit hok
    rw [CommandLine.report, hok, hemit]
    exact ⟨rfl, rfl⟩

def soleTemplate : Registry :=
  .ofDesigns [⟨"A", [], [⟨.detail, []⟩]⟩]

theorem emitted_master_parses_back_partly :
    (∃ master, Design.parse "report \"M\" \x7bsection detail \x7bsubreport `\"A\"`\x7d\x7d" =
        .ok master ∧
      (∃ package, ((⟨soleTemplate.toStore, Report.compile, true⟩ :
        Composer Report Report.CompileError).compose master).outcome = .ok package) ∧
      ((⟨soleTemplate.toStore, Report.compile, true⟩ :
        Composer Report Report.CompileError).compose master).Reparsable) ∧
    ∃ master, Design.parse
        "report \"M\" \x7bsection detail \x7bsubreport `\"A\"` subreport `\"B\"`\x7d\x7d" =
        .ok master ∧
      ((⟨soleTemplate.toStore, Report.compile, true⟩ :
        Composer Report Report.CompileError).compose master).outcome =
          .error (.referenceNotFound "B" ⟨44, 59⟩) ∧
      ((⟨soleTemplate.toStore, Report.compile, true⟩ :
        Composer Report Report.CompileError).compose master).Reparsable := by
  have hparse : Design.parse "report \"M\" \x7bsection detail \x7bsubreport `\"A\"`\x7d\x7d" =
      .ok ⟨"M", [], [⟨.detail, [⟨.subreport ⟨"\"A\"", .string⟩, ⟨28, 43⟩⟩]⟩]⟩ := by cbv
  have hpartly : Design.parse
      "report \"M\" \x7bsection detail \x7bsubreport `\"A\"` subreport `\"B\"`\x7d\x7d" =
      .ok ⟨"M", [], [⟨.detail, [⟨.subreport ⟨"\"A\"", .string⟩, ⟨28, 43⟩⟩,
        ⟨.subreport ⟨"\"B\"", .string⟩, ⟨44, 59⟩⟩]⟩]⟩ := by cbv
  have hout : ((⟨soleTemplate.toStore, Report.compile, true⟩ :
      Composer Report Report.CompileError).compose ⟨"M", [],
        [⟨.detail, [⟨.subreport ⟨"\"A\"", .string⟩, ⟨28, 43⟩⟩]⟩]⟩).outcome =
      .ok ⟨⟨"M", [⟨"A", .report⟩], [⟨.detail, [.subreportParameter "A"]⟩]⟩,
        [("A", ⟨"A", [], [⟨.detail, []⟩]⟩)]⟩ := by cbv
  exact ⟨⟨_, hparse, ⟨_, hout⟩, emitted_master_parses_back hparse _ true⟩,
    ⟨_, hpartly, by cbv, emitted_master_parses_back hpartly _ true⟩⟩

end ReportAssembly
