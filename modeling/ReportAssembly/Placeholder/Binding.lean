import ReportAssembly.Assembly.Error
import ReportAssembly.Interpolation

/-!
Binding of placeholders. A compiled report cannot be put into another design. A placeholder is made
to refer to a parameter instead, the parameter is declared, and the compiled report becomes its
value when the master is filled.
-/

namespace ReportAssembly

structure Binder where
  declared : List String
  deriving DecidableEq, Repr

namespace Binder

def empty : Binder :=
  ⟨[]⟩

def boundElement (name : String) : Element :=
  .subreport ⟨Interpolation.parameterReference name, .report⟩

/-- The parameter in the way of a binding: one that the binder has not declared itself. -/
def conflict? (b : Binder) (d : Design) (name : String) : Option Parameter :=
  if name ∈ b.declared then none else d.parameter? name

def isSubreportAt (d : Design) (pos : Position) : Bool :=
  match d.element? pos with
  | some ⟨.subreport _, _⟩ => true
  | _ => false

/-- What a call for a binding comes to: the binder and the design as it leaves them, whatever it
answers. -/
structure Bound (ε : Type) where
  binder : Binder
  design : Design
  outcome : Except (ComposeError ε) Unit

def bind {ε : Type} (b : Binder) (d : Design) (p : Placeholder) (name : String) : Bound ε :=
  match b.conflict? d name with
  | some existing => ⟨b, d, .error (.bindingConflict name existing.type p.span)⟩
  | none =>
    if isSubreportAt d p.pos then
      let changed := d.modifyElement p.pos fun _ => boundElement name
      if name ∈ b.declared then ⟨b, changed, .ok ()⟩
      else ⟨⟨name :: b.declared⟩, changed.declare ⟨⟨name, .report⟩, p.span⟩, .ok ()⟩
    else ⟨b, d, .error (.unknownPlaceholder p.pos)⟩

variable {ε : Type} {b : Binder} {d : Design} {p : Placeholder} {name : String}

/-- A conflict refuses the call, and nothing changes. -/
theorem bind_of_conflict {existing : Parameter} (h : b.conflict? d name = some existing) :
    (b.bind d p name : Bound ε) =
      ⟨b, d, .error (.bindingConflict name existing.type p.span)⟩ := by
  rw [bind, h]

/-- A position without a sub-report refuses the call, and nothing changes. -/
theorem bind_of_elsewhere (h : b.conflict? d name = none) (hp : isSubreportAt d p.pos = false) :
    (b.bind d p name : Bound ε) = ⟨b, d, .error (.unknownPlaceholder p.pos)⟩ := by
  rw [bind, h]
  simp only [hp, Bool.false_eq_true, if_false]

/-- A name that is declared by the binder is not declared again. -/
theorem bind_of_declared (h : b.conflict? d name = none) (hp : isSubreportAt d p.pos = true)
    (hn : name ∈ b.declared) :
    (b.bind d p name : Bound ε) =
      ⟨b, d.modifyElement p.pos fun _ => boundElement name, .ok ()⟩ := by
  rw [bind, h]
  simp only [hp, hn, if_true]

/-- A new name is declared where its first placeholder stands. -/
theorem bind_of_new (h : b.conflict? d name = none) (hp : isSubreportAt d p.pos = true)
    (hn : name ∉ b.declared) :
    (b.bind d p name : Bound ε) = ⟨⟨name :: b.declared⟩,
      (d.modifyElement p.pos fun _ => boundElement name).declare ⟨⟨name, .report⟩, p.span⟩,
      .ok ()⟩ := by
  rw [bind, h]
  simp only [hp, hn, if_true, if_false]

/-- A call is refused for a conflict or for want of the placeholder, and nothing changes; or it
succeeds. -/
theorem bind_cases (ε : Type) (b : Binder) (d : Design) (p : Placeholder) (name : String) :
    (∃ existing, b.conflict? d name = some existing ∧ (b.bind d p name : Bound ε) =
      ⟨b, d, .error (.bindingConflict name existing.type p.span)⟩) ∨
    (isSubreportAt d p.pos = false ∧
      (b.bind d p name : Bound ε) = ⟨b, d, .error (.unknownPlaceholder p.pos)⟩) ∨
    (b.bind d p name : Bound ε).outcome = .ok () := by
  cases hconflict : b.conflict? d name with
  | some existing => exact .inl ⟨existing, rfl, bind_of_conflict hconflict⟩
  | none =>
    cases hsub : isSubreportAt d p.pos with
    | false => exact .inr (.inl ⟨rfl, bind_of_elsewhere hconflict hsub⟩)
    | true =>
      refine .inr (.inr ?_)
      by_cases hn : name ∈ b.declared
      · rw [bind_of_declared hconflict hsub hn]
      · rw [bind_of_new hconflict hsub hn]

/-- The two refusals leave the binder and the design as they were. -/
theorem bind_of_error {e : ComposeError ε} (h : (b.bind d p name).outcome = .error e) :
    b.bind d p name = ⟨b, d, .error e⟩ := by
  rcases bind_cases ε b d p name with ⟨existing, -, hbind⟩ | ⟨-, hbind⟩ | hok
  · rw [hbind] at h ⊢
    rw [Bound.mk.injEq]
    exact ⟨rfl, rfl, h⟩
  · rw [hbind] at h ⊢
    rw [Bound.mk.injEq]
    exact ⟨rfl, rfl, h⟩
  · cases hok.symm.trans h

def Bound.result (r : Bound ε) : Except (ComposeError ε) (Binder × Design) :=
  r.outcome.map fun _ => (r.binder, r.design)

theorem Bound.result_eq_error_iff {r : Bound ε} {e : ComposeError ε} :
    r.result = .error e ↔ r.outcome = .error e := by
  rw [Bound.result]
  cases r.outcome with
  | error e' => simp [Except.map]
  | ok u => simp [Except.map]

theorem Bound.result_eq_ok_iff {r : Bound ε} {s : Binder × Design} :
    r.result = .ok s ↔ r.outcome = .ok () ∧ (r.binder, r.design) = s := by
  rw [Bound.result]
  cases r.outcome with
  | error e => simp [Except.map]
  | ok u => simp [Except.map]

end Binder

end ReportAssembly
