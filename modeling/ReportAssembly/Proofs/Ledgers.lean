import Mathlib.Data.List.Induction
import Mathlib.Data.List.Infix
import ReportAssembly.Proofs.ReservedNames

namespace ReportAssembly

/-- An element of a list, or the one that is put after them. -/
theorem getElem?_concat_eq_some_iff {β : Type} (l : List β) (a b : β) (i : Nat) :
    (l ++ [a])[i]? = some b ↔ l[i]? = some b ∨ i = l.length ∧ a = b := by
  rcases lt_trichotomy i l.length with hi | rfl | hi
  · simp [List.getElem?_append_left hi, hi.ne]
  · simp
  · have hlength : (l ++ [a]).length ≤ i := by
      rw [List.length_append]
      exact hi
    have hpast : (l ++ [a])[i]? = none := List.getElem?_eq_none hlength
    simp [hpast, List.getElem?_eq_none hi.le, hi.ne']

structure Ledger (α : Type) where
  /-- The compiled templates in the order of their completion. -/
  compiled : List (String × α)
  /-- The places of the compiled templates. -/
  index : Std.HashMap String Nat
  /-- The designs in hand, outermost first. -/
  chain : List String
  /-- The parameters that the master declared before the composition. -/
  reserved : Std.HashMap String ValueType

namespace Ledger

variable {α : Type}

def ofMaster (master : Design) : Ledger α where
  compiled := []
  index := ∅
  chain := [master.name]
  reserved := master.parameters.foldl (fun m p => m.insert p.value.name p.value.type) ∅

def isCompiled (l : Ledger α) (name : String) : Bool :=
  l.index.contains name

/-- Both parts change together: nothing looks at the ledger in between. -/
def record (l : Ledger α) (name : String) (artifact : α) : Ledger α :=
  { l with
    index := l.index.insert name l.compiled.length
    compiled := l.compiled ++ [(name, artifact)] }

def push (l : Ledger α) (name : String) : Ledger α :=
  { l with chain := l.chain ++ [name] }

def pop (l : Ledger α) : Ledger α :=
  { l with chain := l.chain.dropLast }

def names (l : Ledger α) : List String :=
  l.compiled.map (·.1)

theorem names_record (l : Ledger α) (n : String) (artifact : α) :
    (l.record n artifact).names = l.names ++ [n] := by
  simp [names, record]

theorem length_names (l : Ledger α) : l.names.length = l.compiled.length :=
  List.length_map _

/-- The map of the reserved names has the last declaration of each. -/
theorem getElem?_reserved_ofMaster (master : Design) (n : String) :
    (ofMaster master : Ledger α).reserved[n]? = master.lastDeclared? n := by
  rw [ofMaster, Design.lastDeclared?]
  induction master.parameters using List.reverseRecOn with
  | nil => simp
  | append_singleton ps p ih =>
    rw [List.foldl_append, List.foldl_cons, List.foldl_nil, Std.HashMap.getElem?_insert, ih,
      List.reverse_append, List.reverse_singleton, List.singleton_append, List.find?_cons]
    cases p.value.name == n <;> rfl

structure Consistent (nested : Bool) (master : Design) (l : Ledger α) : Prop where
  nodup : l.names.Nodup
  index : ∀ (n : String) (i : Nat), l.index[n]? = some i ↔ l.names[i]? = some n
  reserved : ∀ n : String, l.reserved[n]? = master.lastDeclared? n
  free : ∀ n ∈ l.names, n ∉ l.reserved
  head : nested = true → l.chain.head? = some master.name
  chain : nested = true → l.chain.Nodup
  apart : nested = true → l.chain.Disjoint l.names

structure Admits (nested : Bool) (l : Ledger α) (n : String) : Prop where
  unknown : n ∉ l.names
  free : n ∉ l.reserved
  apart : nested = true → n ∉ l.chain

namespace Consistent

variable {nested : Bool} {master : Design} {l : Ledger α} {n : String}

/-- The ledger of a master is consistent at the beginning. -/
theorem ofMaster (nested : Bool) (master : Design) :
    (Ledger.ofMaster master : Ledger α).Consistent nested master where
  nodup := List.nodup_nil
  index n i := by simp [Ledger.ofMaster, names]
  reserved := getElem?_reserved_ofMaster master
  free _ hn := nomatch hn
  head _ := rfl
  chain _ := List.nodup_singleton master.name
  apart _ := List.disjoint_nil_right _

/-- The index tells what is compiled. -/
theorem isCompiled_iff (h : l.Consistent nested master) : l.isCompiled n = true ↔ n ∈ l.names := by
  rw [isCompiled, Std.HashMap.contains_eq_isSome_getElem?, Option.isSome_iff_exists,
    List.mem_iff_getElem?]
  exact exists_congr fun i => h.index n i

/-- A name is reserved exactly if the master declares it. -/
theorem notMem_reserved_iff (h : l.Consistent nested master) :
    n ∉ l.reserved ↔ master.lastDeclared? n = none := by
  rw [← h.reserved, Std.HashMap.mem_iff_isSome_getElem?, Option.not_isSome_iff_eq_none]

/-- The checks that are made of a name before its template is looked up. -/
theorem admits (h : l.Consistent nested master) (hunknown : l.isCompiled n = false)
    (hfree : l.reserved[n]? = none) (hapart : ¬(nested = true ∧ n ∈ l.chain)) :
    l.Admits nested n where
  unknown hn := Bool.false_ne_true (hunknown.symm.trans (h.isCompiled_iff.mpr hn))
  free := h.notMem_reserved_iff.mpr (h.reserved n ▸ hfree)
  apart hnested hn := hapart ⟨hnested, hn⟩

/-- A name that is admitted can be put on the chain. -/
theorem push (h : l.Consistent nested master) (hn : l.Admits nested n) :
    (l.push n).Consistent nested master where
  nodup := h.nodup
  index := h.index
  reserved := h.reserved
  free := h.free
  head hnested := by rw [Ledger.push, List.head?_append, h.head hnested, Option.some_or]
  chain hnested := by
    rw [Ledger.push, ← List.concat_eq_append]
    exact (h.chain hnested).concat (hn.apart hnested)
  apart hnested := by
    rw [Ledger.push, List.disjoint_append_left]
    exact ⟨h.apart hnested, List.singleton_disjoint.mpr hn.unknown⟩

/-- The master stays in hand when a template is taken out. -/
theorem pop (h : l.Consistent nested master) {chain : List String} (hchain : l.chain = chain ++ [n])
    (hhead : nested = true → chain.head? = some master.name) :
    l.pop.Consistent nested master where
  nodup := h.nodup
  index := h.index
  reserved := h.reserved
  free := h.free
  head := by rwa [Ledger.pop, hchain, List.dropLast_concat]
  chain hnested := (h.chain hnested).sublist (List.dropLast_sublist _)
  apart hnested m hm := h.apart hnested (List.mem_of_mem_dropLast hm)

/-- While a template is in hand, its name is not recorded. -/
theorem admits_pop (h : l.Consistent nested master) (hnested : nested = true) {chain : List String}
    (hchain : l.chain = chain ++ [n]) (hfree : n ∉ l.reserved) : l.pop.Admits nested n where
  unknown := h.apart hnested (hchain ▸ List.mem_append_right chain List.mem_cons_self)
  free := hfree
  apart _ := by
    have hnodup := h.chain hnested
    rw [hchain, ← List.concat_eq_append, List.nodup_concat] at hnodup
    rw [Ledger.pop, hchain, List.dropLast_concat]
    exact hnodup.1

/-- A name that is admitted can be recorded. -/
theorem record (h : l.Consistent nested master) (hn : l.Admits nested n) (artifact : α) :
    (l.record n artifact).Consistent nested master where
  nodup := by
    rw [names_record, ← List.concat_eq_append]
    exact h.nodup.concat hn.unknown
  index m i := by
    rw [names_record, getElem?_concat_eq_some_iff, ← h.index, Ledger.record,
      Std.HashMap.getElem?_insert, ← length_names]
    by_cases hm : n = m
    · have hunknown : l.index[m]? ≠ some i := fun hi =>
        hn.unknown (hm ▸ List.mem_of_getElem? ((h.index m i).mp hi))
      simp [hm, hunknown, eq_comm]
    · simp [hm]
  reserved := h.reserved
  free m hm := by
    rw [names_record, List.mem_append, List.mem_singleton] at hm
    rcases hm with hm | rfl
    · exact h.free m hm
    · exact hn.free
  head := h.head
  chain := h.chain
  apart hnested := by
    rw [names_record, List.disjoint_append_right]
    exact ⟨h.apart hnested, List.disjoint_singleton.mpr (hn.apart hnested)⟩

end Consistent

end Ledger

end ReportAssembly
