import ReportAssembly.Decimal.Shortest

namespace ReportAssembly

inductive Value (α : Type)
  | text (content : String)
  | number (x : Double)
  | boolean (b : Bool)
  | report (artifact : α)
  deriving DecidableEq, Repr

def Value.display {α : Type} : Value α → String
  | text content => content
  | number x => x.display
  | boolean b => if b then "true" else "false"
  | report _ => "[report]"

/-- Values by name. The first entry of a name counts. -/
abbrev Values (α : Type) := List (String × Value α)

namespace Values

variable {α : Type}

def get? (vs : Values α) (name : String) : Option (Value α) :=
  vs.lookup name

def set (vs : Values α) (name : String) (v : Value α) : Values α :=
  (name, v) :: vs.filter (·.1 != name)

theorem get?_filter_ne (vs : Values α) {name other : String} (h : other ≠ name) :
    get? (vs.filter (·.1 != name)) other = vs.get? other := by
  induction vs with
  | nil => rfl
  | cons entry vs ih =>
    obtain ⟨key, v⟩ := entry
    by_cases hk : key = name
    · subst hk
      simpa [get?, List.lookup_cons, beq_eq_false_iff_ne.2 h] using ih
    · simp_all [get?, List.lookup_cons]

/-- A name that is set has its value, and the others keep theirs. -/
theorem get?_set (vs : Values α) (name other : String) (v : Value α) :
    (vs.set name v).get? other = if other = name then some v else vs.get? other := by
  by_cases h : other = name
  · simp [set, get?, h]
  · have := get?_filter_ne vs h
    simp_all [set, get?, List.lookup_cons, beq_eq_false_iff_ne.2 h]

end Values

end ReportAssembly
