import ReportAssembly.Store.Registry

namespace ReportAssembly

inductive Registration
  | design (d : Design)
  | source (text : String)

def Registration.design? : Registration → Option Design
  | .design d => some d
  | .source text => (Design.parse text).toOption

namespace Registry

def call (r : Registry) : Registration → Filling
  | .design d => r.register d
  | .source text => r.registerSource text

def attempt (r : Registry) (x : Registration) : Registry :=
  (r.call x).registry

def after (r : Registry) (calls : List Registration) : Registry :=
  calls.foldl attempt r

def ofDesigns (ds : List Design) : Registry :=
  empty.after (ds.map .design)

variable {r : Registry} {n : String} {d : Design} {x : Registration}

/-- A design is found exactly if it stands under the name. -/
theorem lookup_eq_ok_iff : r.lookup n = .ok d ↔ r.get? n = some d := by
  rw [lookup]
  cases r.get? n with
  | some found => simp
  | none => simp

theorem lookup_eq_error {e : TemplateError} (h : r.lookup n = .error e) : e = .notFound n := by
  rw [lookup] at h
  cases hn : r.get? n with
  | some found =>
    rw [hn] at h
    exact nomatch h
  | none =>
    rw [hn] at h
    exact (Except.error.inj h).symm

/-- A name is reported as not found exactly if nothing stands under it. -/
theorem lookup_eq_notFound_iff : r.lookup n = .error (.notFound n) ↔ r.get? n = none := by
  rw [lookup]
  cases r.get? n with
  | some found => simp
  | none => simp

theorem contains_eq_false_iff : r.contains n = false ↔ n ∉ r.names := by
  rw [← contains_iff, Bool.not_eq_true]

theorem get?_eq_none_iff : r.get? n = none ↔ n ∉ r.names := by
  rw [← contains_eq_false_iff, contains, Option.isSome_eq_false_iff, Option.isNone_iff_eq_none]

/-- A design is refused if its name is taken, and is filed under its name if that is free. -/
theorem register_cases (r : Registry) (d : Design) :
    d.name ∈ r.names ∧ r.register d = ⟨.error (.duplicate d.name), r⟩ ∨
      d.name ∉ r.names ∧ r.register d = ⟨.ok (), r.insert d.name d⟩ := by
  rw [register]
  cases htaken : r.contains d.name with
  | true => exact .inl ⟨contains_iff.mp htaken, rfl⟩
  | false => exact .inr ⟨contains_eq_false_iff.mp htaken, rfl⟩

/-- A call without a design has a source that does not parse, and leaves the registry as it is. -/
theorem call_of_design?_eq_none (r : Registry) (h : x.design? = none) :
    ∃ text errors, x = .source text ∧ Design.parse text = .error errors ∧
      r.call x = ⟨.error (.malformed "<source>" errors), r⟩ := by
  cases x with
  | design d => exact nomatch h
  | source text =>
    cases htext : Design.parse text with
    | ok d =>
      rw [Registration.design?, htext] at h
      exact nomatch h
    | error errors =>
      refine ⟨text, errors, rfl, htext, ?_⟩
      rw [call, registerSource, htext]

/-- A call with a design registers it. -/
theorem call_of_design?_eq_some (r : Registry) (h : x.design? = some d) :
    r.call x = r.register d := by
  cases x with
  | design d' => rw [call, Option.some.inj h]
  | source text =>
    cases htext : Design.parse text with
    | ok d' =>
      rw [Registration.design?, htext] at h
      rw [call, registerSource, htext, Option.some.inj h]
    | error errors =>
      rw [Registration.design?, htext] at h
      exact nomatch h

/-- A call leaves every name its design, and gives a free name that of its own. -/
theorem get?_attempt (r : Registry) (x : Registration) (n : String) :
    (r.attempt x).get? n = (r.get? n).or (x.design?.filter (·.name == n)) := by
  rw [attempt]
  cases hx : x.design? with
  | none =>
    obtain ⟨text, errors, -, -, hcall⟩ := r.call_of_design?_eq_none hx
    rw [hcall]
    exact (Option.or_none).symm
  | some d =>
    rw [r.call_of_design?_eq_some hx, Option.filter_some]
    rcases r.register_cases d with ⟨hmem, hcall⟩ | ⟨hfree, hcall⟩
    · rw [hcall]
      by_cases hn : d.name = n
      · subst hn
        exact (Option.or_of_isSome (contains_iff.mpr hmem)).symm
      · simp [hn]
    · rw [hcall, get?_insert]
      by_cases hn : n = d.name
      · subst hn
        simp [get?_eq_none_iff.mpr hfree]
      · simp [hn, Ne.symm hn]

/-- A call leaves what is registered before it. -/
theorem lookup_attempt (h : r.lookup n = .ok d) (x : Registration) :
    (r.attempt x).lookup n = .ok d := by
  rw [lookup_eq_ok_iff] at h ⊢
  rw [get?_attempt, h]
  rfl

/-- What is found under a name is found there after any calls. -/
theorem lookup_after (h : r.lookup n = .ok d) (calls : List Registration) :
    (r.after calls).lookup n = .ok d := by
  induction calls generalizing r with
  | nil => exact h
  | cons x calls ih => exact ih (lookup_attempt h x)

end Registry

end ReportAssembly
