import Mathlib.Data.List.Flatten
import ReportAssembly.Proofs.CompiledForms
import ReportAssembly.Proofs.Completion
import ReportAssembly.Proofs.PartlyBound

namespace ReportAssembly

theorem getElem?_filterMap_of_isSome {α β : Type} {f : α → Option β} {l : List α}
    (h : ∀ a ∈ l, (f a).isSome) (i : Nat) : (l.filterMap f)[i]? = l[i]?.bind f := by
  induction l generalizing i with
  | nil => rfl
  | cons a l ih =>
    obtain ⟨ha, hl⟩ := List.forall_mem_cons.mp h
    obtain ⟨b, hb⟩ := Option.isSome_iff_exists.mp ha
    rw [List.filterMap_cons_some hb]
    cases i with
    | zero => exact hb.symm
    | succ i => exact ih hl i

theorem Element.bound_of_ne {e : Element} (h : ∀ x, e ≠ .subreport x) : e.bound = e := by
  cases e with
  | subreport x => exact absurd rfl (h x)
  | _ => rfl

/-- Bound placeholders declare their names in the order of the first references. -/
theorem bindingParameters_values (qs : List Placeholder) :
    (bindingParameters [] qs).map (·.value) =
      (qs.filterMap Placeholder.name?).eraseDups.map fun n => ⟨n, .report⟩ := by
  rw [bindingParameters_nil, List.map_filterMap, ← List.filterMap_eq_map]
  apply List.filterMap_congr
  intro n hn
  obtain ⟨p, hp, hname⟩ := List.mem_filterMap.mp (List.mem_eraseDups.mp hn)
  have hfound : (qs.find? (·.name? == some n)).isSome := by
    rw [List.find?_isSome]
    exact ⟨p, hp, beq_iff_eq.mpr hname⟩
  obtain ⟨q, hq⟩ := Option.isSome_iff_exists.mp hfound
  rw [bindingParameter?, hq]
  rfl

namespace Design

theorem parameters_bound_values (d : Design) :
    d.bound.parameters.map (·.value) =
      d.parameters.map (·.value) ++ d.references.eraseDups.map fun n => ⟨n, .report⟩ := by
  rw [bound, List.map_append, bindingParameters_values, references]

/-- A declared parameter stays what it is in the bound form. -/
theorem parameter?_bound_of_declared (d : Design) {n : String} {q : Parameter}
    (h : d.parameter? n = some q) : d.bound.parameter? n = some q := by
  rw [parameter?] at h ⊢
  rw [parameters_bound_values, List.find?_append, h, Option.some_or]

/-- A name that is referred to and free is a report in the bound form. -/
theorem parameter?_bound_of_mem (d : Design) {n : String} (hfree : ¬d.Declares n)
    (hn : n ∈ d.references) : d.bound.parameter? n = some ⟨n, .report⟩ := by
  have hnone : d.parameter? n = none := (d.parameter?_eq_none_iff n).mpr hfree
  have hfound : (d.references.eraseDups.find? (· == n)).isSome := by
    rw [List.find?_isSome]
    exact ⟨n, List.mem_eraseDups.mpr hn, beq_self_eq_true n⟩
  obtain ⟨m, hm⟩ := Option.isSome_iff_exists.mp hfound
  obtain rfl : m = n := by simpa using List.find?_some hm
  rw [parameter?] at hnone ⊢
  rw [parameters_bound_values, List.find?_append, hnone, Option.none_or, List.find?_map]
  exact congrArg (Option.map _) hm

end Design

namespace Report

def Declarations.Extends (wider declared : Declarations) : Prop :=
  ∀ n type, declared n = some type → wider n = some type

/-- The bound form declares all that the design declares. -/
theorem declarations_bound_extends (d : Design) :
    (declarations d.bound).Extends (declarations d) := by
  intro n type h
  obtain ⟨q, hq, htype⟩ := Option.map_eq_some_iff.mp h
  rw [declarations, d.parameter?_bound_of_declared hq, Option.map_some, htype]

theorem declarations_bound_of_mem {d : Design} (h : d.Bindable) {n : String}
    (hn : n ∈ d.references) : declarations d.bound n = some .report := by
  rw [declarations, d.parameter?_bound_of_mem (h.undeclared n hn) hn, Option.map_some]

/-- What binding declares is declared once, and it repeats nothing. -/
theorem repeatedDeclarations_bindingParameters {seen declared : List String}
    {qs : List Placeholder}
    (h : ∀ n ∈ qs.filterMap Placeholder.name?, n ∈ seen → n ∈ declared) :
    repeatedDeclarations seen (bindingParameters declared qs) = [] := by
  induction qs generalizing seen declared with
  | nil => rfl
  | cons q qs ih =>
    cases hq : q.name? with
    | none =>
      rw [List.filterMap_cons_none hq] at h
      rw [bindingParameters, hq]
      exact ih h
    | some name =>
      rw [List.filterMap_cons_some hq, List.forall_mem_cons] at h
      rw [bindingParameters, hq]
      dsimp only
      split_ifs with hname
      · exact ih h.2
      · have hseen : name ∉ seen := fun hmem => hname (h.1 hmem)
        rw [repeatedDeclarations, if_neg hseen]
        apply ih
        intro n hn hmem
        rcases List.mem_cons.mp hmem with rfl | hmem
        · exact List.mem_cons_self
        · exact List.mem_cons_of_mem _ (h.2 n hn hmem)

/-- Parameters that are declared for free names repeat no declaration. -/
theorem repeatedDeclarations_append_bindingParameters {seen : List String}
    {ps : List (Located Parameter)} {qs : List Placeholder}
    (h : ∀ n ∈ qs.filterMap Placeholder.name?, n ∉ seen ∧ n ∉ ps.map (·.value.name)) :
    repeatedDeclarations seen (ps ++ bindingParameters [] qs) = repeatedDeclarations seen ps := by
  induction ps generalizing seen with
  | nil =>
    rw [List.nil_append, repeatedDeclarations_bindingParameters]
    · rfl
    · exact fun n hn hseen => absurd hseen (h n hn).1
  | cons p ps ih =>
    have hrest : ∀ n ∈ qs.filterMap Placeholder.name?,
        n ∉ p.value.name :: seen ∧ n ∉ ps.map (·.value.name) := by
      intro n hn
      obtain ⟨hseen, hmem⟩ := h n hn
      rw [List.map_cons, List.mem_cons, not_or] at hmem
      rw [List.mem_cons, not_or]
      exact ⟨⟨hmem.1, hseen⟩, hmem.2⟩
    rw [List.cons_append, repeatedDeclarations, repeatedDeclarations, ih hrest]

inductive Eased {β : Type} : Except (List Problem) β → Except (List Problem) β → Prop
  | kept (x : β) : Eased (.ok x) (.ok x)
  | cleared (problems : List Problem) (x : β) : Eased (.error problems) (.ok x)
  | fewer {problems fewer : List Problem} (h : fewer.Sublist problems) :
      Eased (.error problems) (.error fewer)

theorem Eased.refl {β : Type} (x : Except (List Problem) β) : Eased x x := by
  cases x with
  | ok x => exact .kept x
  | error problems => exact .fewer (List.Sublist.refl problems)

theorem Eased.map {β γ : Type} {x y : Except (List Problem) β} (h : Eased x y) (f : β → γ) :
    Eased (x.map f) (y.map f) := by
  cases h with
  | kept x => exact .kept (f x)
  | cleared problems x => exact .cleared problems (f x)
  | fewer h => exact .fewer h

theorem Eased.eq_ok {β : Type} {x y : Except (List Problem) β} (h : Eased x y) {b : β}
    (hx : x = .ok b) : y = .ok b := by
  subst hx
  cases h
  rfl

variable {declared wider : Declarations}

/-- With more declared, an expression has no more problems. -/
theorem compileExpression_eased (h : wider.Extends declared) (e : Expression) :
    Eased (compileExpression declared e) (compileExpression wider e) := by
  unfold compileExpression
  cases Interpolation.parse e.text with
  | error error => exact .refl _
  | ok chunks =>
    dsimp only
    have hsublist : ((chunks.references .parameter).filter fun n => (wider n).isNone).Sublist
        ((chunks.references .parameter).filter fun n => (declared n).isNone) := by
      apply List.monotone_filter_right
      intro n hn
      cases hd : declared n with
      | none => rfl
      | some type =>
        rw [h n type hd] at hn
        exact hn
    split_ifs with hold hnew hnew
    · exact .kept chunks
    · rw [List.isEmpty_iff] at hold hnew
      rw [hold] at hsublist
      exact absurd (List.sublist_nil.mp hsublist) hnew
    · exact .cleared _ chunks
    · exact .fewer (hsublist.map _)

/-- With more declared, an element that is no sub-report has no more problems. -/
theorem compileElement_eased (h : wider.Extends declared) {e : ReportAssembly.Element}
    (he : ∀ x, e ≠ .subreport x) : Eased (compileElement declared e) (compileElement wider e) := by
  cases e with
  | text content => exact .kept _
  | field e =>
    rw [compileElement, compileElement]
    split_ifs
    · exact .refl _
    · exact (compileExpression_eased h e).map _
  | subreport e => exact absurd rfl (he e)

theorem compileElement_boundElement_of_declared {n : String} (hn : isIdentifier n = true)
    (hd : wider n = some .report) :
    compileElement wider (Binder.boundElement n) = .ok (.subreportParameter n) := by
  have hname : Interpolation.asReference? .parameter [.reference .parameter n] = some n := rfl
  rw [Binder.boundElement, compileElement, compileExpression_parameterReference hn, hd]
  simp only [Option.isSome_some, if_true, Bind.bind, Except.bind, hname, hd]

/-- An element that is eased has a sublist of its problems. -/
theorem elementProblems_sublist {e e' : Located ReportAssembly.Element} (hspan : e'.span = e.span)
    (h : Eased (compileElement declared e.value) (compileElement wider e'.value)) :
    (elementProblems wider e').Sublist (elementProblems declared e) := by
  unfold elementProblems
  rw [hspan]
  generalize compileElement declared e.value = x at h ⊢
  generalize compileElement wider e'.value = y at h ⊢
  cases h with
  | kept x => exact List.Sublist.refl _
  | cleared problems x => exact List.nil_sublist _
  | fewer h => exact h.map _

/-- A bound element has a sublist of its problems. -/
theorem elementProblems_bound_sublist {d : Design} (h : d.Bindable) {s : ReportAssembly.Section}
    (hs : s ∈ d.sections) {e : Located ReportAssembly.Element} (he : e ∈ s.elements) :
    (elementProblems (declarations d.bound) { e with value := e.value.bound }).Sublist
      (elementProblems (declarations d) e) := by
  by_cases hsub : ∃ x, e.value = .subreport x
  · obtain ⟨x, hx⟩ := hsub
    obtain ⟨n, hn⟩ := h.quoted.of_mem hs he x hx
    have hmem : n ∈ d.references := by
      rw [d.references_eq_flatMap, List.mem_flatMap]
      refine ⟨s, hs, List.mem_filterMap.mpr ⟨e, he, ?_⟩⟩
      rw [hx, ReportAssembly.Element.reference?, (templateName_eq_ok_iff x.text n).mpr hn]
      rfl
    have hok := compileElement_boundElement_of_declared hn.isIdentifier
      (declarations_bound_of_mem h hmem)
    have hnil : elementProblems (declarations d.bound) { e with value := e.value.bound } = [] := by
      rw [elementProblems_eq_nil_iff, hx, ReportAssembly.Element.bound_subreport hn]
      exact ⟨_, hok⟩
    rw [hnil]
    exact List.nil_sublist _
  · have hne : ∀ x, e.value ≠ .subreport x := not_exists.mp hsub
    rw [ReportAssembly.Element.bound_of_ne hne]
    exact elementProblems_sublist rfl (compileElement_eased (declarations_bound_extends d) hne)

/-- The bound form has a sublist of the problems of the design. -/
theorem diagnostics_bound_sublist {d : Design} (h : d.Bindable) :
    (diagnostics d.bound).Sublist (diagnostics d) := by
  have hparameters : repeatedDeclarations [] d.bound.parameters =
      repeatedDeclarations [] d.parameters := by
    apply repeatedDeclarations_append_bindingParameters
    intro n hn
    exact ⟨List.not_mem_nil, h.undeclared n hn⟩
  rw [diagnostics, diagnostics, hparameters, d.sections_bound, List.flatMap_map]
  apply List.Sublist.append_left
  apply List.Sublist.flatMap_right
  intro s hs
  rw [List.flatMap_map]
  apply List.Sublist.flatMap_right
  intro e he
  exact elementProblems_bound_sublist h hs he

def element? (r : Report) (pos : Position) : Option Element :=
  r.sections[pos.band]? >>= fun s => s.elements[pos.index]?

/-- Compilation keeps the elements at their places. -/
theorem element?_of_compile {d : Design} {r : Report} (h : compile d = .ok r) (pos : Position) :
    r.element? pos =
      (d.element? pos).bind fun e => (compileElement (declarations d) e.value).toOption := by
  obtain ⟨hnil, rfl⟩ := compile_eq_ok_iff.mp h
  unfold element? Design.element?
  dsimp only
  rw [List.getElem?_map]
  cases hs : d.sections[pos.band]? with
  | none => rfl
  | some s =>
    have hsome : ∀ e ∈ s.elements, (compileElement (declarations d) e.value).toOption.isSome := by
      intro e he
      obtain ⟨x, hx⟩ := exists_of_diagnostics_eq_nil hnil (List.mem_of_getElem? hs) he
      rw [hx]
      rfl
    exact getElem?_filterMap_of_isSome hsome pos.index

structure Rewired (d : Design) (r r' : Report) : Prop where
  name : r'.name = r.name
  parameters : r'.parameters = r.parameters ++ d.references.eraseDups.map fun n => ⟨n, .report⟩
  kinds : r'.sections.map (·.kind) = r.sections.map (·.kind)
  lengths : r'.sections.map (·.elements.length) = r.sections.map (·.elements.length)
  placeholders : ∀ p ∈ d.placeholders, ∃ n, Quotes p.expression n ∧
    r'.element? p.pos = some (.subreportParameter n)
  others : ∀ pos, pos ∉ d.placeholders.map (·.pos) → r'.element? pos = r.element? pos

theorem exists_compileElement_of_element? {d : Design} (h : diagnostics d = []) {pos : Position}
    {e : Located ReportAssembly.Element} (he : d.element? pos = some e) :
    ∃ x, compileElement (declarations d) e.value = .ok x := by
  obtain ⟨s, hs, he⟩ := Option.bind_eq_some_iff.mp he
  exact exists_of_diagnostics_eq_nil h (List.mem_of_getElem? hs) (List.mem_of_getElem? he)

theorem kinds_of_compile {d : Design} {r : Report} (h : compile d = .ok r) :
    r.sections.map (·.kind) = d.sections.map (·.kind) := by
  obtain ⟨-, rfl⟩ := compile_eq_ok_iff.mp h
  rw [List.map_map]
  rfl

theorem lengths_of_compile {d : Design} {r : Report} (h : compile d = .ok r) :
    r.sections.map (·.elements.length) = d.sections.map (·.elements.length) := by
  obtain ⟨hnil, rfl⟩ := compile_eq_ok_iff.mp h
  rw [List.map_map]
  apply List.map_congr_left
  intro s hs
  rw [Function.comp_apply, compileSection, List.filterMap_length_eq_length]
  intro e he
  obtain ⟨x, hx⟩ := exists_of_diagnostics_eq_nil hnil hs he
  rw [hx]
  rfl

/-- The report of the bound form is that of the design, rewired. -/
theorem compile_bound_rewired {d : Design} (h : d.Bindable) {r : Report} (hr : compile d = .ok r) :
    ∃ r', compile d.bound = .ok r' ∧ r.Rewired d r' := by
  have hsublist := diagnostics_bound_sublist h
  rw [(compile_eq_ok_iff.mp hr).1, List.sublist_nil] at hsublist
  have hr' := compile_eq_ok_iff.mpr ⟨hsublist, rfl⟩
  refine ⟨_, hr', ?_⟩
  have hbound := d.boundUpTo_bound h.quoted
  constructor
  case name =>
    rw [(compile_eq_ok_iff.mp hr).2]
    rfl
  case parameters =>
    rw [(compile_eq_ok_iff.mp hr).2]
    exact d.parameters_bound_values
  case kinds =>
    rw [kinds_of_compile hr', kinds_of_compile hr, hbound.kinds]
  case lengths =>
    rw [lengths_of_compile hr', lengths_of_compile hr, hbound.lengths]
  case placeholders =>
    intro p hp
    obtain ⟨n, hn⟩ := h.quoted p hp
    have hmem : n ∈ d.references := (d.mem_references_iff n).mpr ⟨p, hp, hn⟩
    have hok := compileElement_boundElement_of_declared hn.isIdentifier
      (declarations_bound_of_mem h hmem)
    refine ⟨n, hn, ?_⟩
    rw [element?_of_compile hr', d.element?_bound hp hn, Option.bind_some, hok]
    rfl
  case others =>
    intro pos hpos
    rw [element?_of_compile hr', element?_of_compile hr, hbound.others pos hpos]
    cases he : d.element? pos with
    | none => rfl
    | some e =>
      have hne : ∀ x, e.value ≠ .subreport x := by
        intro x hx
        apply hpos
        have hp : (⟨pos, x.text, e.span⟩ : Placeholder) ∈ d.placeholders :=
          (d.mem_placeholders_iff _).mpr ⟨x, by rw [he, ← hx], rfl⟩
        exact List.mem_map_of_mem hp
      obtain ⟨x, hx⟩ := exists_compileElement_of_element? (compile_eq_ok_iff.mp hr).1 he
      have hx' := (compileElement_eased (declarations_bound_extends d) hne).eq_ok hx
      rw [Option.bind_some, Option.bind_some, hx, hx']

/-- Compiling the second design instead of the first brings no problem up, and no more than the
sub-reports change in the report. -/
structure Conserved (d d' : Design) : Prop where
  diagnostics : (diagnostics d').Sublist (diagnostics d)
  report : ∀ r, compile d = .ok r → ∃ r', compile d' = .ok r' ∧ r.Rewired d r'
  plain : d.placeholders = [] → compile d' = compile d

/-- Binding conserves the verdict of the compiler. -/
theorem bound_conserved {d : Design} (h : d.Bindable) : Conserved d d.bound where
  diagnostics := diagnostics_bound_sublist h
  report _ hr := compile_bound_rewired h hr
  plain hnone := by rw [← d.boundAt_placeholders, hnone, d.boundAt_nil]

end Report

end ReportAssembly
