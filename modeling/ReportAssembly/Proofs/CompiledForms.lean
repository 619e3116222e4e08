import Mathlib.Data.List.Basic
import ReportAssembly.Proofs.BoundForms
import ReportAssembly.Proofs.Chunking
import ReportAssembly.Report.Compiler

namespace ReportAssembly

def Element.reference? : Element → Option String
  | .subreport e => (templateName e.text).toOption
  | _ => none

namespace Design

/-- The references of a design are those of its elements, in document order. -/
theorem references_eq_flatMap (d : Design) :
    d.references =
      d.sections.flatMap fun s => s.elements.filterMap fun e => e.value.reference? := by
  have hplaceholders : d.placeholders = d.sections.zipIdx.flatMap fun x =>
      x.1.elements.zipIdx.filterMap fun y => Placeholder.ofElement? ⟨x.2, y.2⟩ y.1 := rfl
  have helement (pos : Position) (e : Located Element) :
      (Placeholder.ofElement? pos e).bind Placeholder.name? = e.value.reference? := by
    obtain ⟨value, span⟩ := e
    cases value <;> rfl
  have hsection (s : Section) : s.elements.zipIdx.filterMap (fun y => y.1.value.reference?) =
      s.elements.filterMap fun e => e.value.reference? := by
    calc s.elements.zipIdx.filterMap (fun y => y.1.value.reference?)
        = (s.elements.zipIdx.map Prod.fst).filterMap fun e => e.value.reference? := by
          rw [List.filterMap_map]
          rfl
      _ = s.elements.filterMap fun e => e.value.reference? := by rw [List.zipIdx_map_fst]
  rw [references, hplaceholders, List.filterMap_flatMap]
  simp only [List.filterMap_filterMap, helement, hsection]
  calc d.sections.zipIdx.flatMap (fun x => x.1.elements.filterMap fun e => e.value.reference?)
      = (d.sections.zipIdx.map Prod.fst).flatMap fun s =>
          s.elements.filterMap fun e => e.value.reference? := by rw [List.flatMap_map]
    _ = d.sections.flatMap fun s => s.elements.filterMap fun e => e.value.reference? := by
        rw [List.zipIdx_map_fst]

theorem Quoted.of_mem {d : Design} (h : d.Quoted) {s : Section} (hs : s ∈ d.sections)
    {e : Located Element} (he : e ∈ s.elements) (x : Expression) (hx : e.value = .subreport x) :
    ∃ n, Quotes x.text n := by
  obtain ⟨band, hband⟩ := List.mem_iff_getElem?.mp hs
  obtain ⟨index, hindex⟩ := List.mem_iff_getElem?.mp he
  have helement : d.element? ⟨band, index⟩ = some ⟨.subreport x, e.span⟩ := by
    simp [element?, hband, hindex, ← hx]
  exact h ⟨⟨band, index⟩, x.text, e.span⟩ ((d.mem_placeholders_iff _).mpr ⟨x, helement, rfl⟩)

theorem sections_bound (d : Design) :
    d.bound.sections = d.sections.map fun s =>
      { s with elements := s.elements.map fun e => { e with value := e.value.bound } } := by
  have helements (s : Section) :
      (s.elements.mapIdx fun _ e => ({ e with value := e.value.bound } : Located Element)) =
        s.elements.map fun e => { e with value := e.value.bound } := by
    rw [List.mapIdx_eq_iff]
    exact fun index => List.getElem?_map
  unfold bound mapElements
  rw [List.mapIdx_eq_iff]
  intro band
  rw [List.getElem?_map]
  simp only [helements]

end Design

namespace Report

variable {declared : Declarations}

theorem ne_nil_of_compileExpression_eq_error {e : Expression} {problems : List Problem}
    (h : compileExpression declared e = .error problems) : problems ≠ [] := by
  unfold compileExpression at h
  split at h
  · next error _ =>
    rw [← Except.error.inj h]
    exact List.cons_ne_nil _ _
  · next chunks _ =>
    dsimp only at h
    split_ifs at h with hempty
    rw [← Except.error.inj h]
    simpa using hempty

/-- An expression that is compiled refers to declared parameters only. -/
theorem isSome_of_compileExpression {e : Expression} {chunks : Interpolation} {n : String}
    (h : compileExpression declared e = .ok chunks) (hn : .reference .parameter n ∈ chunks) :
    (declared n).isSome = true := by
  unfold compileExpression at h
  split at h
  · exact nomatch h
  · next found _ =>
    dsimp only at h
    split_ifs at h with hempty
    obtain rfl := Except.ok.inj h
    rw [List.isEmpty_iff, List.filter_eq_nil_iff] at hempty
    have hfound := hempty n (Interpolation.mem_references_iff.mpr hn)
    rwa [Bool.not_eq_true, Option.isNone_eq_false_iff] at hfound

inductive Verdict (declared : Declarations) :
    ReportAssembly.Element → Except (List Problem) Element → Prop
  | text (content : String) : Verdict declared (.text content) (.ok (.text content))
  | fieldYieldsReport {x : Expression} (htype : x.type = .report) :
      Verdict declared (.field x) (.error [.fieldYieldsReport])
  | fieldUnread {x : Expression} {problems : List Problem} (htype : x.type ≠ .report)
      (hx : compileExpression declared x = .error problems) :
      Verdict declared (.field x) (.error problems)
  | field {x : Expression} {chunks : Interpolation} (htype : x.type ≠ .report)
      (hx : compileExpression declared x = .ok chunks) :
      Verdict declared (.field x) (.ok (.field chunks x.type))
  | subreportUnread {x : Expression} {problems : List Problem}
      (hx : compileExpression declared x = .error problems) :
      Verdict declared (.subreport x) (.error problems)
  | subreportExpression {x : Expression} {chunks : Interpolation} (htype : x.type ≠ .report)
      (hx : compileExpression declared x = .ok chunks) :
      Verdict declared (.subreport x) (.ok (.subreportExpression chunks))
  | notOneParameter {x : Expression} {chunks : Interpolation} (htype : x.type = .report)
      (hx : compileExpression declared x = .ok chunks)
      (hmany : ∀ n, chunks.meaningful ≠ [.reference .parameter n]) :
      Verdict declared (.subreport x) (.error [.notOneParameter x.text])
  | notReportTyped {x : Expression} {chunks : Interpolation} {n : String} {type : ValueType}
      (htype : x.type = .report) (hx : compileExpression declared x = .ok chunks)
      (hone : chunks.meaningful = [.reference .parameter n]) (hd : declared n = some type)
      (hother : type ≠ .report) :
      Verdict declared (.subreport x) (.error [.notReportTyped n type])
  | subreportParameter {x : Expression} {chunks : Interpolation} {n : String}
      (htype : x.type = .report) (hx : compileExpression declared x = .ok chunks)
      (hone : chunks.meaningful = [.reference .parameter n]) (hd : declared n = some .report) :
      Verdict declared (.subreport x) (.ok (.subreportParameter n))

/-- What compiling a text field comes to. -/
theorem verdict_field (declared : Declarations) (x : Expression) :
    Verdict declared (.field x) (compileElement declared (.field x)) := by
  rw [compileElement]
  split_ifs with htype
  · exact .fieldYieldsReport htype
  · cases h : compileExpression declared x with
    | error problems => exact .fieldUnread htype h
    | ok chunks => exact .field htype h

/-- What compiling a sub-report comes to. -/
theorem verdict_subreport (declared : Declarations) (x : Expression) :
    Verdict declared (.subreport x) (compileElement declared (.subreport x)) := by
  rw [compileElement]
  cases h : compileExpression declared x with
  | error problems => exact .subreportUnread h
  | ok chunks =>
    simp only [Bind.bind, Except.bind]
    split_ifs with htype
    · cases hname : chunks.asReference? .parameter with
      | none =>
        refine .notOneParameter htype h fun n hone => ?_
        cases hname.symm.trans (Interpolation.asReference?_eq_some_iff.mpr hone)
      | some n =>
        have hone := Interpolation.asReference?_eq_some_iff.mp hname
        cases hd : declared n with
        | none =>
          have hn := Interpolation.mem_of_meaningful_eq hone
          exact nomatch hd ▸ isSome_of_compileExpression h hn
        | some type =>
          simp only [hd]
          cases type with
          | report => exact .subreportParameter htype h hone hd
          | _ => exact .notReportTyped htype h hone hd (by decide)
    · exact .subreportExpression htype h

/-- Every element has a verdict. -/
theorem verdict (declared : Declarations) (e : ReportAssembly.Element) :
    Verdict declared e (compileElement declared e) := by
  cases e with
  | text content => exact .text content
  | field x => exact verdict_field declared x
  | subreport x => exact verdict_subreport declared x

/-- An element that is not compiled has a problem. -/
theorem ne_nil_of_compileElement_eq_error {e : ReportAssembly.Element} {problems : List Problem}
    (h : compileElement declared e = .error problems) : problems ≠ [] := by
  have hv := verdict declared e
  rw [h] at hv
  cases hv with
  | fieldYieldsReport => exact List.cons_ne_nil _ _
  | fieldUnread _ hx => exact ne_nil_of_compileExpression_eq_error hx
  | subreportUnread hx => exact ne_nil_of_compileExpression_eq_error hx
  | notOneParameter => exact List.cons_ne_nil _ _
  | notReportTyped => exact List.cons_ne_nil _ _

/-- An element has no problems exactly if it has a compiled form. -/
theorem elementProblems_eq_nil_iff {e : Located ReportAssembly.Element} :
    elementProblems declared e = [] ↔ ∃ x, compileElement declared e.value = .ok x := by
  unfold elementProblems
  cases he : compileElement declared e.value with
  | ok x => simp
  | error problems =>
    have hne := ne_nil_of_compileElement_eq_error he
    simp [hne]

/-- A report comes of a design without problems, all of whose elements are compiled. -/
theorem compile_eq_ok_iff {d : Design} {r : Report} :
    compile d = .ok r ↔ diagnostics d = [] ∧
      r = ⟨d.name, d.parameters.map (·.value),
        d.sections.map (compileSection (declarations d))⟩ := by
  unfold compile
  dsimp only
  split_ifs with h
  · rw [Except.ok.injEq, eq_comm]
    simpa using fun _ => h
  · simpa using fun hnil => absurd hnil (by simpa using h)

/-- The diagnostics of a rejection are those of the design. -/
theorem diagnostics_of_error {d : Design} {cause : CompileError} (h : compile d = .error cause) :
    cause.diagnostics = diagnostics d := by
  unfold compile at h
  dsimp only at h
  split_ifs at h
  exact congrArg CompileError.diagnostics (Except.error.inj h).symm

theorem exists_of_diagnostics_eq_nil {d : Design} (h : diagnostics d = [])
    {s : ReportAssembly.Section} (hs : s ∈ d.sections) {e : Located ReportAssembly.Element}
    (he : e ∈ s.elements) : ∃ x, compileElement (declarations d) e.value = .ok x := by
  rw [← elementProblems_eq_nil_iff]
  have hall := (List.append_eq_nil_iff.mp h).2
  rw [List.flatMap_eq_nil_iff] at hall
  have hsection := hall s hs
  rw [List.flatMap_eq_nil_iff] at hsection
  exact hsection e he

/-- A compiled section has the compiled forms of its elements. -/
theorem mem_compileSection_iff {s : ReportAssembly.Section} {x : Element} :
    x ∈ (compileSection declared s).elements ↔
      ∃ e ∈ s.elements, compileElement declared e.value = .ok x := by
  rw [compileSection, List.mem_filterMap]
  have hiff (e : Located ReportAssembly.Element) :
      (compileElement declared e.value).toOption = some x ↔
        compileElement declared e.value = .ok x := by
    cases compileElement declared e.value <;> simp [Except.toOption]
  simp only [hiff]

/-- A reference to a parameter is compiled if the parameter is declared. -/
theorem compileExpression_parameterReference {n : String} (hn : isIdentifier n = true)
    (type : ValueType) :
    compileExpression declared ⟨Interpolation.parameterReference n, type⟩ =
      if (declared n).isSome then .ok [.reference .parameter n]
      else .error [.undeclaredParameter n] := by
  have hnames : Interpolation.references .parameter [.reference .parameter n] = [n] := rfl
  rw [compileExpression, Interpolation.parse_parameterReference hn]
  dsimp only
  rw [hnames]
  cases hd : declared n <;> simp [hd]

/-- The element that a placeholder is bound to is compiled only if its parameter is declared to be
a report, and it then takes its report from there. -/
theorem compileElement_boundElement {n : String} (hn : isIdentifier n = true) {x : Element}
    (h : compileElement declared (Binder.boundElement n) = .ok x) :
    x = .subreportParameter n ∧ declared n = some .report := by
  have hname : Interpolation.asReference? .parameter [.reference .parameter n] = some n := rfl
  rw [Binder.boundElement, compileElement, compileExpression_parameterReference hn] at h
  cases hd : declared n with
  | none =>
    rw [hd] at h
    exact nomatch h
  | some type =>
    rw [hd] at h
    simp only [Option.isSome_some, if_true, Bind.bind, Except.bind, hname, hd] at h
    cases type with
    | report => exact ⟨(Except.ok.inj h).symm, rfl⟩
    | _ => exact nomatch h

structure Slotted (r : Report) : Prop where
  no_static : ∀ s ∈ r.sections, ∀ chunks, .subreportExpression chunks ∉ s.elements
  declared : ∀ n ∈ r.subreportParameters, r.parameter? n = some ⟨n, .report⟩

/-- A bound element is compiled to a sub-report taken from the parameter of the name that it
quoted, or to something that is no sub-report. -/
theorem compileElement_bound_cases {e : ReportAssembly.Element}
    (hq : ∀ x, e = .subreport x → ∃ n, Quotes x.text n) {x : Element}
    (h : compileElement declared e.bound = .ok x) :
    (∃ n, e.reference? = some n ∧ x = .subreportParameter n ∧ declared n = some .report) ∨
      (e.reference? = none ∧
        ((∃ content, x = .text content) ∨ ∃ chunks type, x = .field chunks type)) := by
  cases e with
  | text content => exact Or.inr ⟨rfl, Or.inl ⟨content, (Except.ok.inj h).symm⟩⟩
  | field e =>
    refine Or.inr ⟨rfl, Or.inr ?_⟩
    change compileElement declared (.field e) = .ok x at h
    rw [compileElement] at h
    split_ifs at h
    cases he : compileExpression declared e with
    | error problems =>
      rw [he] at h
      exact nomatch h
    | ok chunks =>
      rw [he] at h
      exact ⟨chunks, e.type, (Except.ok.inj h).symm⟩
  | subreport e =>
    obtain ⟨n, hn⟩ := hq e rfl
    rw [ReportAssembly.Element.bound_subreport hn] at h
    obtain ⟨hx, hdeclared⟩ := compileElement_boundElement hn.isIdentifier h
    refine Or.inl ⟨n, ?_, hx, hdeclared⟩
    rw [ReportAssembly.Element.reference?, (templateName_eq_ok_iff e.text n).mpr hn]
    rfl

theorem parameter?_of_declarations {d : Design} {n : String} {type : ValueType}
    (h : declarations d n = some type) : d.parameter? n = some ⟨n, type⟩ := by
  obtain ⟨q, hq, rfl⟩ := Option.map_eq_some_iff.mp h
  have hname : q.name = n := by simpa using List.find?_some hq
  rw [hq, ← hname]

theorem exists_of_mem_compileSection_bound {d : Design} {s : Section} {x : Element}
    (hs : s ∈ d.bound.sections.map (compileSection declared)) (hx : x ∈ s.elements) :
    ∃ t ∈ d.sections, ∃ e ∈ t.elements, compileElement declared e.value.bound = .ok x := by
  rw [d.sections_bound, List.map_map] at hs
  obtain ⟨t, ht, rfl⟩ := List.mem_map.mp hs
  obtain ⟨e', he', hcompiled⟩ := mem_compileSection_iff.mp hx
  obtain ⟨e, he, rfl⟩ := List.mem_map.mp he'
  exact ⟨t, ht, e, he, hcompiled⟩

/-- Without a problem in the bound form each element has a bound compiled form. -/
theorem exists_compileElement_bound {d : Design} (h : diagnostics d.bound = [])
    {s : ReportAssembly.Section} (hs : s ∈ d.sections) {e : Located ReportAssembly.Element}
    (he : e ∈ s.elements) : ∃ x, compileElement (declarations d.bound) e.value.bound = .ok x := by
  have hs' : ({ s with elements := s.elements.map fun e => { e with value := e.value.bound } } :
      ReportAssembly.Section) ∈ d.bound.sections := by
    rw [d.sections_bound]
    exact List.mem_map.mpr ⟨s, hs, rfl⟩
  exact exists_of_diagnostics_eq_nil h hs' (List.mem_map_of_mem he)

/-- A bound design is compiled to a report that takes its sub-reports from parameters, one for each
name that the design quoted. -/
theorem compile_bound {d : Design} (hq : d.Quoted) {r : Report} (h : compile d.bound = .ok r) :
    r.Slotted ∧ r.subreportParameters = d.references := by
  obtain ⟨hnil, rfl⟩ := compile_eq_ok_iff.mp h
  constructor
  · constructor
    case no_static =>
      intro s hs chunks hmem
      obtain ⟨t, ht, e, he, hcompiled⟩ := exists_of_mem_compileSection_bound hs hmem
      rcases compileElement_bound_cases (hq.of_mem ht he) hcompiled with
        ⟨n, -, hx, -⟩ | ⟨-, ⟨content, hx⟩ | ⟨chunks, type, hx⟩⟩
      all_goals exact nomatch hx
    case declared =>
      intro n hn
      obtain ⟨s, hs, hmem⟩ := List.mem_flatMap.mp hn
      obtain ⟨x, hx, hname⟩ := List.mem_filterMap.mp hmem
      obtain ⟨t, ht, e, he, hcompiled⟩ := exists_of_mem_compileSection_bound hs hx
      apply parameter?_of_declarations (d := d.bound)
      rcases compileElement_bound_cases (hq.of_mem ht he) hcompiled with
        ⟨m, -, rfl, hdeclared⟩ | ⟨-, ⟨content, rfl⟩ | ⟨chunks, type, rfl⟩⟩
      · exact Option.some.inj hname ▸ hdeclared
      · exact nomatch hname
      · exact nomatch hname
  · rw [subreportParameters, d.sections_bound, List.flatMap_map, List.flatMap_map,
      d.references_eq_flatMap]
    apply List.flatMap_congr
    intro s hs
    rw [compileSection, List.filterMap_filterMap, List.filterMap_map]
    apply List.filterMap_congr
    intro e he
    obtain ⟨x, hx⟩ := exists_compileElement_bound hnil hs he
    simp only [Function.comp_apply, hx, Except.toOption, Option.bind_some]
    rcases compileElement_bound_cases (hq.of_mem hs he) hx with
      ⟨n, href, rfl, -⟩ | ⟨href, ⟨content, rfl⟩ | ⟨chunks, type, rfl⟩⟩
    all_goals
      rw [href]
      rfl

end Report

end ReportAssembly
