import Mathlib.Data.List.Induction
import ReportAssembly.Proofs.CompiledForms
import ReportAssembly.Proofs.PrintedForms

namespace ReportAssembly

inductive Expression.HasProblem (declared : Report.Declarations) (x : Expression) :
    Report.Problem → Prop
  | malformed {error : ReferenceError} (h : Interpolation.parse x.text = .error error) :
      HasProblem declared x (.malformedExpression x.text error)
  | undeclared {chunks : Interpolation} {n : String} (h : Interpolation.parse x.text = .ok chunks)
      (hn : .reference .parameter n ∈ chunks) (hfree : declared n = none) :
      HasProblem declared x (.undeclaredParameter n)

inductive Expression.HasSupplyProblem (declared : Report.Declarations) (x : Expression) :
    Report.Problem → Prop
  | notOne (h : ∀ chunks n, Interpolation.parse x.text = .ok chunks →
      chunks.meaningful ≠ [.reference .parameter n]) :
      HasSupplyProblem declared x (.notOneParameter x.text)
  | notReport {chunks : Interpolation} {n : String} {type : ValueType}
      (h : Interpolation.parse x.text = .ok chunks)
      (hone : chunks.meaningful = [.reference .parameter n]) (hd : declared n = some type)
      (htype : type ≠ .report) : HasSupplyProblem declared x (.notReportTyped n type)

inductive Element.HasProblem (declared : Report.Declarations) : Element → Report.Problem → Prop
  | yieldsReport {x : Expression} (h : x.type = .report) :
      HasProblem declared (.field x) .fieldYieldsReport
  | expression {e : Element} {x : Expression} {p : Report.Problem} (he : e.expression? = some x)
      (h : x.HasProblem declared p) : HasProblem declared e p
  | supply {x : Expression} {p : Report.Problem} (htype : x.type = .report)
      (h : x.HasSupplyProblem declared p) : HasProblem declared (.subreport x) p

/-- The checks of an element in the order in which they are made: that a text field yields text,
that the expression can be read, that a report is supplied. -/
def Report.Problem.stage : Report.Problem → Nat
  | .malformedExpression _ _ => 1
  | .undeclaredParameter _ => 1
  | .notOneParameter _ => 2
  | .notReportTyped _ _ => 2
  | _ => 0

/-- A problem of the first check of the element that finds any. -/
structure Element.Foremost (declared : Report.Declarations) (e : Element) (p : Report.Problem) :
    Prop where
  present : e.HasProblem declared p
  first : ∀ q, e.HasProblem declared q → p.stage ≤ q.stage

variable {declared : Report.Declarations} {x : Expression} {p : Report.Problem}

theorem Expression.HasProblem.stage_eq (h : x.HasProblem declared p) : p.stage = 1 := by
  cases h <;> rfl

theorem Expression.HasSupplyProblem.stage_eq (h : x.HasSupplyProblem declared p) :
    p.stage = 2 := by
  cases h <;> rfl

/-- An expression fails to supply a report if it is no single parameter, or one of another type. -/
theorem Expression.hasSupplyProblem_iff {chunks : Interpolation}
    (h : Interpolation.parse x.text = .ok chunks) : x.HasSupplyProblem declared p ↔
      ((∀ n, chunks.meaningful ≠ [.reference .parameter n]) ∧ p = .notOneParameter x.text) ∨
        ∃ n type, chunks.meaningful = [.reference .parameter n] ∧ declared n = some type ∧
          type ≠ .report ∧ p = .notReportTyped n type := by
  constructor
  · rintro (hmany | ⟨hparse, hone, hd, htype⟩)
    · exact Or.inl ⟨fun n => hmany chunks n h, rfl⟩
    · obtain rfl := Except.ok.inj (h.symm.trans hparse)
      exact Or.inr ⟨_, _, hone, hd, htype, rfl⟩
  · rintro (⟨hmany, rfl⟩ | ⟨n, type, hone, hd, htype, rfl⟩)
    · refine .notOne fun found n hparse => ?_
      obtain rfl := Except.ok.inj (h.symm.trans hparse)
      exact hmany n
    · exact .notReport h hone hd htype

namespace Element

theorem not_hasProblem_text (content : String) : ¬(text content).HasProblem declared p := by
  rintro (_ | ⟨he, _⟩)
  exact nomatch he

theorem hasProblem_field_iff : (field x).HasProblem declared p ↔
    (x.type = .report ∧ p = .fieldYieldsReport) ∨ x.HasProblem declared p := by
  constructor
  · rintro (htype | ⟨he, h⟩)
    · exact Or.inl ⟨htype, rfl⟩
    · obtain rfl := Option.some.inj he
      exact Or.inr h
  · rintro (⟨htype, rfl⟩ | h)
    · exact .yieldsReport htype
    · exact .expression rfl h

theorem hasProblem_subreport_iff : (subreport x).HasProblem declared p ↔
    x.HasProblem declared p ∨ (x.type = .report ∧ x.HasSupplyProblem declared p) := by
  constructor
  · rintro (_ | ⟨he, h⟩ | ⟨htype, h⟩)
    · obtain rfl := Option.some.inj he
      exact Or.inl h
    · exact Or.inr ⟨htype, h⟩
  · rintro (h | ⟨htype, h⟩)
    · exact .expression rfl h
    · exact .supply htype h

/-- A text field of type report has one foremost problem, its type. -/
theorem foremost_field_of_report (htype : x.type = .report) :
    (field x).Foremost declared p ↔ p = .fieldYieldsReport := by
  have hreport : (field x).HasProblem declared .fieldYieldsReport := .yieldsReport htype
  constructor
  · intro hp
    rcases hasProblem_field_iff.mp hp.present with ⟨-, heq⟩ | hx
    · exact heq
    · have hstage := hp.first _ hreport
      rw [hx.stage_eq] at hstage
      exact absurd hstage (by decide)
  · rintro rfl
    exact ⟨hreport, fun q _ => Nat.zero_le _⟩

/-- If one check finds all problems of an element, all of them are foremost. -/
theorem foremost_iff_of_stage {e : Element} {k : Nat}
    (h : ∀ q, e.HasProblem declared q → q.stage = k) :
    e.Foremost declared p ↔ e.HasProblem declared p := by
  constructor
  · exact fun hp => hp.present
  · intro hp
    refine ⟨hp, fun q hq => ?_⟩
    rw [h p hp, h q hq]

/-- Any other text field has the problems of its expression foremost. -/
theorem foremost_field_of_ne_report (htype : x.type ≠ .report) :
    (field x).Foremost declared p ↔ x.HasProblem declared p := by
  have hfield (q : Report.Problem) :
      (field x).HasProblem declared q ↔ x.HasProblem declared q := by
    rw [hasProblem_field_iff, or_iff_right fun h => htype h.1]
  rw [foremost_iff_of_stage fun q hq => ((hfield q).mp hq).stage_eq, hfield]

/-- The problems of an expression come before those of what it supplies. -/
theorem foremost_subreport_of_hasProblem {q : Report.Problem} (hq : x.HasProblem declared q) :
    (subreport x).Foremost declared p ↔ x.HasProblem declared p := by
  constructor
  · intro hp
    rcases hasProblem_subreport_iff.mp hp.present with hx | ⟨-, hx⟩
    · exact hx
    · have hstage := hp.first q (.expression rfl hq)
      rw [hx.stage_eq, hq.stage_eq] at hstage
      exact absurd hstage (by decide)
  · intro hp
    refine ⟨.expression rfl hp, fun r hr => ?_⟩
    rw [hp.stage_eq]
    rcases hasProblem_subreport_iff.mp hr with hx | ⟨-, hx⟩
    · rw [hx.stage_eq]
    · rw [hx.stage_eq]
      exact Nat.le_succ 1

/-- The supply of a sub-report is looked at once its expression is sound. -/
theorem foremost_subreport_of_sound (hsound : ∀ q, ¬x.HasProblem declared q) :
    (subreport x).Foremost declared p ↔ x.type = .report ∧ x.HasSupplyProblem declared p := by
  have hsubreport (q : Report.Problem) : (subreport x).HasProblem declared q ↔
      x.type = .report ∧ x.HasSupplyProblem declared q := by
    rw [hasProblem_subreport_iff, or_iff_right (hsound q)]
  rw [foremost_iff_of_stage fun q hq => ((hsubreport q).mp hq).2.stage_eq, hsubreport]

end Element

namespace Report

theorem of_compileExpression_eq_ok {chunks : Interpolation}
    (h : compileExpression declared x = .ok chunks) :
    Interpolation.parse x.text = .ok chunks ∧ ∀ p, ¬x.HasProblem declared p := by
  have hparse : Interpolation.parse x.text = .ok chunks := by
    unfold compileExpression at h
    split at h
    · exact nomatch h
    · next found hfound =>
      dsimp only at h
      split_ifs at h
      rw [hfound, Except.ok.inj h]
  refine ⟨hparse, fun p hp => ?_⟩
  cases hp with
  | malformed hbad => cases hparse.symm.trans hbad
  | undeclared hgood hn hfree =>
    obtain rfl := Except.ok.inj (hparse.symm.trans hgood)
    exact nomatch hfree ▸ isSome_of_compileExpression h hn

/-- All that is wrong with an expression is found at once. -/
theorem mem_of_compileExpression_eq_error {problems : List Problem}
    (h : compileExpression declared x = .error problems) :
    p ∈ problems ↔ x.HasProblem declared p := by
  unfold compileExpression at h
  split at h
  · next error herror =>
    obtain rfl := Except.error.inj h
    rw [List.mem_singleton]
    constructor
    · rintro rfl
      exact .malformed herror
    · rintro (hbad | ⟨hgood, -, -⟩)
      · rw [Except.error.inj (herror.symm.trans hbad)]
      · exact nomatch herror.symm.trans hgood
  · next chunks hchunks =>
    dsimp only at h
    split_ifs at h
    obtain rfl := Except.error.inj h
    simp only [List.mem_map, List.mem_filter, Interpolation.mem_references_iff,
      Option.isNone_iff_eq_none]
    constructor
    · rintro ⟨n, ⟨hn, hfree⟩, rfl⟩
      exact .undeclared hchunks hn hfree
    · rintro (hbad | ⟨hgood, hn, hfree⟩)
      · exact nomatch hchunks.symm.trans hbad
      · obtain rfl := Except.ok.inj (hchunks.symm.trans hgood)
        exact ⟨_, ⟨hn, hfree⟩, rfl⟩

theorem not_hasProblem_of_compileElement_eq_ok {e : ReportAssembly.Element} {y : Element}
    (h : compileElement declared e = .ok y) (p : Problem) : ¬e.HasProblem declared p := by
  have hv := verdict declared e
  rw [h] at hv
  cases hv with
  | text content => exact Element.not_hasProblem_text content
  | field htype hx =>
    rw [Element.hasProblem_field_iff]
    rintro (⟨hreport, -⟩ | hp)
    · exact htype hreport
    · exact (of_compileExpression_eq_ok hx).2 p hp
  | subreportExpression htype hx =>
    rw [Element.hasProblem_subreport_iff]
    rintro (hp | ⟨hreport, -⟩)
    · exact (of_compileExpression_eq_ok hx).2 p hp
    · exact htype hreport
  | subreportParameter htype hx hone hd =>
    obtain ⟨hparse, hsound⟩ := of_compileExpression_eq_ok hx
    rw [Element.hasProblem_subreport_iff, Expression.hasSupplyProblem_iff hparse]
    rintro (hp | ⟨-, ⟨hmany, -⟩ | ⟨m, type, hone', hd', htype', -⟩⟩)
    · exact hsound p hp
    · exact hmany _ hone
    · obtain rfl := Interpolation.name_unique hone hone'
      exact htype' (Option.some.inj (hd'.symm.trans hd))

/-- An element that is not compiled is reported with its foremost problems. -/
theorem mem_of_compileElement_eq_error {e : ReportAssembly.Element} {problems : List Problem}
    (h : compileElement declared e = .error problems) :
    p ∈ problems ↔ e.Foremost declared p := by
  have hv := verdict declared e
  rw [h] at hv
  cases hv with
  | fieldYieldsReport htype =>
    rw [Element.foremost_field_of_report htype, List.mem_singleton]
  | fieldUnread htype hx =>
    rw [Element.foremost_field_of_ne_report htype, mem_of_compileExpression_eq_error hx]
  | subreportUnread hx =>
    obtain ⟨q, hq⟩ := List.exists_mem_of_ne_nil _ (ne_nil_of_compileExpression_eq_error hx)
    have hproblem := (mem_of_compileExpression_eq_error hx).mp hq
    rw [Element.foremost_subreport_of_hasProblem hproblem, mem_of_compileExpression_eq_error hx]
  | notOneParameter htype hx hmany =>
    obtain ⟨hparse, hsound⟩ := of_compileExpression_eq_ok hx
    rw [Element.foremost_subreport_of_sound hsound, Expression.hasSupplyProblem_iff hparse,
      List.mem_singleton]
    constructor
    · exact fun hp => ⟨htype, Or.inl ⟨hmany, hp⟩⟩
    · rintro ⟨-, ⟨-, hp⟩ | ⟨n, type, hone, -⟩⟩
      · exact hp
      · exact absurd hone (hmany n)
  | notReportTyped htype hx hone hd hother =>
    obtain ⟨hparse, hsound⟩ := of_compileExpression_eq_ok hx
    rw [Element.foremost_subreport_of_sound hsound, Expression.hasSupplyProblem_iff hparse,
      List.mem_singleton]
    constructor
    · exact fun hp => ⟨htype, Or.inr ⟨_, _, hone, hd, hother, hp⟩⟩
    · rintro ⟨-, ⟨hmany, -⟩ | ⟨m, type, hone', hd', -, hp⟩⟩
      · exact absurd hone (hmany _)
      · obtain rfl := Interpolation.name_unique hone hone'
        rw [hp, Option.some.inj (hd.symm.trans hd')]

/-- Of an element exactly the foremost problems are reported, at its place. -/
theorem mem_elementProblems_iff {e : Located ReportAssembly.Element} {x : Diagnostic} :
    x ∈ elementProblems declared e ↔
      x.span? = some e.span ∧ e.value.Foremost declared x.problem := by
  obtain ⟨problem, span?⟩ := x
  rw [elementProblems]
  cases he : compileElement declared e.value with
  | ok y =>
    have hnone := not_hasProblem_of_compileElement_eq_ok he
    constructor
    · intro hx
      exact absurd hx List.not_mem_nil
    · exact fun hx => absurd hx.2.present (hnone problem)
  | error problems =>
    simp only [List.mem_map, Diagnostic.mk.injEq, ← mem_of_compileElement_eq_error he]
    constructor
    · rintro ⟨p, hp, rfl, rfl⟩
      exact ⟨rfl, hp⟩
    · rintro ⟨rfl, hp⟩
      exact ⟨problem, hp, rfl, rfl⟩

/-- A faulty element has a foremost problem. -/
theorem exists_foremost {e : ReportAssembly.Element} (h : e.HasProblem declared p) :
    ∃ q, e.Foremost declared q := by
  cases he : compileElement declared e with
  | ok y => exact absurd h (not_hasProblem_of_compileElement_eq_ok he p)
  | error problems =>
    obtain ⟨q, hq⟩ := List.exists_mem_of_ne_nil _ (ne_nil_of_compileElement_eq_error he)
    exact ⟨q, (mem_of_compileElement_eq_error he).mp hq⟩

/-- What is not a foremost problem stands behind one. -/
theorem foremost_or_exists_lt {e : ReportAssembly.Element} (h : e.HasProblem declared p) :
    e.Foremost declared p ∨ ∃ q, e.Foremost declared q ∧ q.stage < p.stage := by
  obtain ⟨q, hq⟩ := exists_foremost h
  rcases Nat.lt_or_ge q.stage p.stage with hlt | hge
  · exact Or.inr ⟨q, hq, hlt⟩
  · exact Or.inl ⟨h, fun r hr => hge.trans (hq.first r hr)⟩

def redeclarations (ps : List (Located Parameter)) : List (Located Parameter) :=
  ps.zipIdx.filterMap fun x =>
    if x.1.value.name ∈ (ps.take x.2).map (·.value.name) then some x.1 else none

/-- A redeclaration is a declaration whose name stands before it. -/
theorem mem_redeclarations_iff {ps : List (Located Parameter)} {p : Located Parameter} :
    p ∈ redeclarations ps ↔
      ∃ i, ps[i]? = some p ∧ p.value.name ∈ (ps.take i).map (·.value.name) := by
  simp only [redeclarations, List.mem_filterMap, Prod.exists, List.mk_mem_zipIdx_iff_getElem?,
    Option.ite_none_right_eq_some, Option.some.injEq]
  constructor
  · rintro ⟨p, i, hi, hmem, rfl⟩
    exact ⟨i, hi, hmem⟩
  · rintro ⟨i, hi, hmem⟩
    exact ⟨p, i, hi, hmem, rfl⟩

theorem redeclarations_concat (ps : List (Located Parameter)) (p : Located Parameter) :
    redeclarations (ps ++ [p]) = redeclarations ps ++
      if p.value.name ∈ ps.map (·.value.name) then [p] else [] := by
  rw [redeclarations, List.zipIdx_append, List.filterMap_append, Nat.zero_add]
  congr 1
  · apply List.filterMap_congr
    rintro ⟨q, i⟩ hq
    obtain ⟨hi, -⟩ := List.getElem?_eq_some_iff.mp (List.mk_mem_zipIdx_iff_getElem?.mp hq)
    dsimp only
    rw [List.take_append_of_le_length hi.le]
  · rw [List.zipIdx_singleton, List.filterMap_cons, List.filterMap_nil]
    dsimp only
    rw [List.take_left]
    split_ifs <;> rfl

theorem repeatedDeclarations_concat (seen : List String) (ps : List (Located Parameter))
    (p : Located Parameter) :
    repeatedDeclarations seen (ps ++ [p]) = repeatedDeclarations seen ps ++
      if p.value.name ∈ seen ++ ps.map (·.value.name) then
        [⟨.repeatedParameter p.value.name, some p.span⟩] else [] := by
  induction ps generalizing seen with
  | nil =>
    rw [List.nil_append, List.map_nil, List.append_nil]
    rfl
  | cons q ps ih =>
    have hmem : p.value.name ∈ (q.value.name :: seen) ++ ps.map (·.value.name) ↔
        p.value.name ∈ seen ++ (q :: ps).map (·.value.name) := by
      simp only [List.map_cons, List.mem_append, List.mem_cons]
      tauto
    rw [List.cons_append, repeatedDeclarations, repeatedDeclarations, ih]
    simp only [hmem]
    split_ifs <;> rfl

/-- Exactly the redeclarations are reported, in order. -/
theorem repeatedDeclarations_eq_map (ps : List (Located Parameter)) :
    repeatedDeclarations [] ps =
      (redeclarations ps).map fun p => ⟨.repeatedParameter p.value.name, some p.span⟩ := by
  induction ps using List.reverseRecOn with
  | nil => rfl
  | append_singleton ps p ih =>
    rw [repeatedDeclarations_concat, redeclarations_concat, List.nil_append, List.map_append, ih]
    split_ifs <;> rfl

theorem elementProblems_subset {d : Design} {s : ReportAssembly.Section} (hs : s ∈ d.sections)
    {e : Located ReportAssembly.Element} (he : e ∈ s.elements) :
    elementProblems (declarations d) e ⊆ diagnostics d := by
  intro x hx
  rw [diagnostics, List.mem_append]
  exact Or.inr (List.mem_flatMap.mpr ⟨s, hs, List.mem_flatMap.mpr ⟨e, he, hx⟩⟩)

/-- Whatever is wrong with a rejected design, a blank name, each repeated declaration and each
faulty element is reported, an element with its foremost problems and no others. -/
theorem foremost_problems_reported {d : Design} {cause : CompileError}
    (h : compile d = .error cause) :
    (Text.allBlank d.name = true → ⟨.blankName, none⟩ ∈ cause.diagnostics) ∧
    (∀ i p, d.parameters[i]? = some p →
      p.value.name ∈ (d.parameters.take i).map (·.value.name) →
        ⟨.repeatedParameter p.value.name, some p.span⟩ ∈ cause.diagnostics) ∧
    ∀ s ∈ d.sections, ∀ e ∈ s.elements,
      elementProblems (declarations d) e ⊆ cause.diagnostics ∧
      (∀ x, x ∈ elementProblems (declarations d) e ↔
        x.span? = some e.span ∧ e.value.Foremost (declarations d) x.problem) ∧
      ∀ p, e.value.HasProblem (declarations d) p → e.value.Foremost (declarations d) p ∨
        ∃ q, e.value.Foremost (declarations d) q ∧ q.stage < p.stage := by
  rw [diagnostics_of_error h]
  refine ⟨fun hblank => ?_, fun i p hi hmem => ?_, fun s hs e he => ?_⟩
  · rw [diagnostics, nameProblems, if_pos hblank]
    exact List.mem_append_left _ (List.mem_append_left _ (List.mem_singleton_self _))
  · rw [diagnostics, repeatedDeclarations_eq_map]
    apply List.mem_append_left
    apply List.mem_append_right
    exact List.mem_map.mpr ⟨p, mem_redeclarations_iff.mpr ⟨i, hi, hmem⟩, rfl⟩
  · exact ⟨elementProblems_subset hs he, fun x => mem_elementProblems_iff,
      fun p => foremost_or_exists_lt⟩

def quotedSubreport : Located ReportAssembly.Element :=
  ⟨.subreport ⟨"\"Lines\"", .report⟩, ⟨89, 116⟩⟩

def faultyDesign : Design :=
  ⟨"", [⟨⟨"A", .string⟩, ⟨12, 31⟩⟩, ⟨⟨"A", .number⟩, ⟨32, 51⟩⟩],
    [⟨.detail, [⟨.field ⟨"$P\x7bopen", .string⟩, ⟨69, 88⟩⟩, quotedSubreport]⟩]⟩

theorem foremost_problems_reported_throughout :
    ∃ cause, compile faultyDesign = .error cause ∧ ⟨.blankName, none⟩ ∈ cause.diagnostics ∧
      ⟨.repeatedParameter "A", some ⟨32, 51⟩⟩ ∈ cause.diagnostics ∧
      quotedSubreport.value.Foremost (declarations faultyDesign) (.notOneParameter "\"Lines\"") ∧
      ⟨.notOneParameter "\"Lines\"", some ⟨89, 116⟩⟩ ∈ cause.diagnostics := by
  have hcompile : compile faultyDesign = .error ⟨[⟨.blankName, none⟩,
      ⟨.repeatedParameter "A", some ⟨32, 51⟩⟩,
      ⟨.malformedExpression "$P\x7bopen" (.unterminated .parameter 0), some ⟨69, 88⟩⟩,
      ⟨.notOneParameter "\"Lines\"", some ⟨89, 116⟩⟩]⟩ := rfl
  have hproblems : elementProblems (declarations faultyDesign) quotedSubreport =
      [⟨.notOneParameter "\"Lines\"", some ⟨89, 116⟩⟩] := rfl
  obtain ⟨hname, hdeclarations, helements⟩ := foremost_problems_reported hcompile
  obtain ⟨hsubset, hforemost, -⟩ := helements _ (List.mem_singleton_self _) quotedSubreport
    (List.mem_cons_of_mem _ (List.mem_singleton_self _))
  have hmem : ⟨.notOneParameter "\"Lines\"", some ⟨89, 116⟩⟩ ∈
      elementProblems (declarations faultyDesign) quotedSubreport := by
    rw [hproblems]
    exact List.mem_singleton_self _
  exact ⟨_, hcompile, hname (by decide), hdeclarations 1 _ rfl (by decide),
    ((hforemost _).mp hmem).2, hsubset hmem⟩

def referringField (type : ValueType) : Located ReportAssembly.Element :=
  ⟨.field ⟨"$P\x7bX\x7d", type⟩, ⟨30, 55⟩⟩

def referringDesign (type : ValueType) : Design :=
  ⟨"R", [], [⟨.detail, [referringField type]⟩]⟩

/-- A text field of type report hides what is wrong with its expression, which comes up when the
type is put right. -/
theorem undeclared_parameter_hidden :
    ∃ cause, compile (referringDesign .report) = .error cause ∧
      (referringField .report).value.HasProblem (declarations (referringDesign .report))
        (.undeclaredParameter "X") ∧
      ⟨.undeclaredParameter "X", some ⟨30, 55⟩⟩ ∉ cause.diagnostics ∧
      compile (referringDesign .string) =
        .error ⟨[⟨.undeclaredParameter "X", some ⟨30, 55⟩⟩]⟩ := by
  have hcompile : compile (referringDesign .report) =
      .error ⟨[⟨.fieldYieldsReport, some ⟨30, 55⟩⟩]⟩ := rfl
  have hparse : Interpolation.parse "$P\x7bX\x7d" = .ok [.reference .parameter "X"] := rfl
  have hretyped : diagnostics (referringDesign .string) =
      [⟨.undeclaredParameter "X", some ⟨30, 55⟩⟩] := rfl
  refine ⟨_, hcompile, ?_, ?_, ?_⟩
  · exact .expression rfl (.undeclared hparse (List.mem_singleton_self _) rfl)
  · intro hmem
    cases List.mem_singleton.mp hmem
  · rw [compile, hretyped]
    rfl

end Report

end ReportAssembly
