import ReportAssembly.Store.Basic

/-!
Registries: stores in memory, filled by one call after the other. A registry maps keys to designs.
That the key of a design is its own name, and that a name keeps its first design, is the doing of
the calls.
-/

namespace ReportAssembly

structure Registry where
  entries : List (String × Design)
  nodup_keys : (entries.map (·.1)).Nodup
  deriving DecidableEq, Repr

namespace Registry

def empty : Registry :=
  ⟨[], .nil⟩

def get? (r : Registry) (key : String) : Option Design :=
  r.entries.lookup key

def contains (r : Registry) (key : String) : Bool :=
  (r.get? key).isSome

def names (r : Registry) : List String :=
  r.entries.map (·.1)

def size (r : Registry) : Nat :=
  r.entries.length

def put (key : String) (d : Design) : List (String × Design) → List (String × Design)
  | [] => [(key, d)]
  | (other, kept) :: entries =>
    if key = other then (key, d) :: entries else (other, kept) :: put key d entries

theorem map_fst_put (key : String) (d : Design) (entries : List (String × Design)) :
    (put key d entries).map (·.1) =
      if key ∈ entries.map (·.1) then entries.map (·.1) else entries.map (·.1) ++ [key] := by
  induction entries with
  | nil => rfl
  | cons e entries ih =>
    rw [put]
    by_cases h : key = e.1
    · simp [h]
    · simp only [h, if_false, List.map_cons, ih, List.mem_cons, false_or]
      split <;> rfl

theorem lookup_cons (key other : String) (d : Design) (entries : List (String × Design)) :
    ((key, d) :: entries).lookup other = if other = key then some d else entries.lookup other := by
  by_cases h : other = key
  · simp [h]
  · rw [List.lookup_cons, beq_false_of_ne h, if_neg h]

/-- Another design is found under the key that is put, and under no other. -/
theorem lookup_put (key other : String) (d : Design) (entries : List (String × Design)) :
    (put key d entries).lookup other = if other = key then some d else entries.lookup other := by
  induction entries with
  | nil => exact lookup_cons key other d []
  | cons e entries ih =>
    obtain ⟨k, kept⟩ := e
    rw [put]
    by_cases h : key = k
    · subst h
      rw [if_pos rfl, lookup_cons, lookup_cons]
      split <;> rfl
    · rw [if_neg h, lookup_cons, lookup_cons, ih]
      by_cases ho : other = key
      · rw [ho, if_neg h, if_pos rfl, if_pos rfl]
      · rw [if_neg ho, if_neg ho]

def insert (r : Registry) (key : String) (d : Design) : Registry where
  entries := put key d r.entries
  nodup_keys := by
    rw [map_fst_put]
    split
    · exact r.nodup_keys
    · next h =>
      refine List.nodup_append.mpr ⟨r.nodup_keys, List.pairwise_singleton _ _, ?_⟩
      intro k hk k' hk' he
      exact h (List.mem_singleton.mp hk' ▸ he ▸ hk)

/-- A design that is inserted under a new key comes last; else the keys stay as they are. -/
theorem names_insert (r : Registry) (key : String) (d : Design) :
    (r.insert key d).names = if key ∈ r.names then r.names else r.names ++ [key] :=
  map_fst_put key d r.entries

/-- A key that is inserted has its design, and the others keep theirs. -/
theorem get?_insert (r : Registry) (key other : String) (d : Design) :
    (r.insert key d).get? other = if other = key then some d else r.get? other :=
  lookup_put key other d r.entries

structure Filling where
  outcome : Except TemplateError Unit
  registry : Registry

def Filling.result (f : Filling) : Except TemplateError Registry :=
  f.outcome.map fun _ => f.registry

def register (r : Registry) (d : Design) : Filling :=
  if r.contains d.name then ⟨.error (.duplicate d.name), r⟩ else ⟨.ok (), r.insert d.name d⟩

def registerSource (r : Registry) (source : String) : Filling :=
  match Design.parse source with
  | .ok d => r.register d
  | .error errors => ⟨.error (.malformed "<source>" errors), r⟩

def lookup (r : Registry) (name : String) : Except TemplateError Design :=
  match r.get? name with
  | some d => .ok d
  | none => .error (.notFound name)

/-- What is found under a key is an entry. -/
theorem get?_eq_some_iff {r : Registry} {key : String} {d : Design} :
    r.get? key = some d ↔ (key, d) ∈ r.entries := by
  obtain ⟨entries, hnodup⟩ := r
  change entries.lookup key = some d ↔ (key, d) ∈ entries
  induction entries with
  | nil => simp
  | cons e entries ih =>
    obtain ⟨hfree, hrest⟩ := List.nodup_cons.mp hnodup
    rw [lookup_cons, List.mem_cons]
    by_cases h : key = e.1
    · subst h
      have hnone : (e.1, d) ∉ entries := fun hmem => hfree (List.mem_map.mpr ⟨_, hmem, rfl⟩)
      simp [hnone, Prod.ext_iff, eq_comm]
    · simp [h, ih hrest, Prod.ext_iff]

theorem contains_iff {r : Registry} {key : String} : r.contains key = true ↔ key ∈ r.names := by
  rw [contains, Option.isSome_iff_exists, names, List.mem_map]
  constructor
  · rintro ⟨d, hd⟩
    exact ⟨(key, d), get?_eq_some_iff.mp hd, rfl⟩
  · rintro ⟨e, he, rfl⟩
    exact ⟨e.2, get?_eq_some_iff.mpr he⟩

/-- A name that is found is listed. -/
theorem mem_names_of_lookup {r : Registry} {name : String} {d : Design}
    (h : r.lookup name = .ok d) : name ∈ r.names := by
  unfold lookup at h
  split at h
  · next found hf => exact contains_iff.mp (Option.isSome_iff_exists.mpr ⟨found, hf⟩)
  · exact nomatch h

def toStore (r : Registry) : Store where
  lookup name := ⟨r.lookup name, []⟩
  names := r.names
  mem_names := mem_names_of_lookup

end Registry

end ReportAssembly
