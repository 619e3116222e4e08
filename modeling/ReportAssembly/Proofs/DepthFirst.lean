import Mathlib.Data.List.Basic
import Mathlib.Data.Set.Insert
import Mathlib.Logic.Relation
import Mathlib.Tactic.Tauto

/-!
Depth-first order of a reference graph, and orders in which nothing stands before what it refers
to. Main statements: a depth-first order is unique, and lists what can be reached once; in an order
of the second kind all that a name reaches stands before it, so no name reaches itself.
-/

namespace ReportAssembly

variable {refs : String → List String}

theorem union_mem_append (met : Set String) (n : String) (below order : List String) :
    met ∪ {m | m ∈ below ++ n :: order} = insert n met ∪ {m | m ∈ below} ∪ {m | m ∈ order} := by
  ext m
  simp only [Set.mem_union, Set.mem_insert_iff, Set.mem_ofPred_eq, List.mem_append, List.mem_cons]
  tauto

def Refers (refs : String → List String) (n m : String) : Prop :=
  m ∈ refs n

def Reached (refs : String → List String) (roots : List String) (n : String) : Prop :=
  ∃ r ∈ roots, Relation.ReflTransGen (Refers refs) r n

/-- The depth-first visits that begin with the names `ns`, those in `met` being met before: the
names met first, in the order in which they are finished. A name is finished when all that it refers
to has been visited. -/
inductive DepthFirst (refs : String → List String) :
    Set String → List String → List String → Prop
  | nil (met : Set String) : DepthFirst refs met [] []
  | again {met : Set String} {n : String} {ns order : List String} (h : n ∈ met)
      (rest : DepthFirst refs met ns order) : DepthFirst refs met (n :: ns) order
  | first {met : Set String} {n : String} {ns below order : List String} (h : n ∉ met)
      (inner : DepthFirst refs (insert n met) (refs n) below)
      (rest : DepthFirst refs (insert n met ∪ {m | m ∈ below}) ns order) :
      DepthFirst refs met (n :: ns) (below ++ n :: order)

namespace DepthFirst

variable {met : Set String} {ns ms order : List String}

theorem eq_nil (h : DepthFirst refs met [] order) : order = [] := by
  cases h
  rfl

theorem unique {order' : List String} (h : DepthFirst refs met ns order)
    (h' : DepthFirst refs met ns order') : order = order' := by
  -- Whether the first name was met decides how the other derivation begins.
  induction h generalizing order' with
  | nil => cases h'; rfl
  | again hm _ ih =>
    cases h' with
    | again _ rest => exact ih rest
    | first hn => exact absurd hm hn
  | first hn _ _ ihi ihr =>
    cases h' with
    | again hm => exact absurd hm hn
    | first _ inner rest =>
      obtain rfl := ihi inner
      rw [ihr rest]

/-- Names are finished once, and only those that were not met before. -/
theorem nodup_and_fresh (h : DepthFirst refs met ns order) :
    order.Nodup ∧ ∀ n ∈ order, n ∉ met := by
  induction h with
  | nil => simp
  | again _ _ ih => exact ih
  | @first met n ns below order hn _ _ ihi ihr =>
    obtain ⟨hib, hif⟩ := ihi
    obtain ⟨hrn, hrf⟩ := ihr
    constructor
    · rw [List.nodup_append, List.nodup_cons]
      refine ⟨hib, ⟨fun hm => hrf n hm (Or.inl (Or.inl rfl)), hrn⟩, ?_⟩
      rintro a ha b hb rfl
      rcases List.mem_cons.mp hb with rfl | hb
      · exact hif a ha (Or.inl rfl)
      · exact hrf a hb (Or.inr ha)
    · intro m hm
      rcases List.mem_append.mp hm with hm | hm
      · exact fun hmet => hif m hm (Or.inr hmet)
      · rcases List.mem_cons.mp hm with rfl | hm
        · exact hn
        · exact fun hmet => hrf m hm (Or.inl (Or.inr hmet))

/-- What is visited can be reached from the roots. -/
theorem reached_of_mem (h : DepthFirst refs met ns order) : ∀ m ∈ order, Reached refs ns m := by
  induction h with
  | nil => simp
  | again _ _ ih =>
    intro m hm
    obtain ⟨r, hr, hreach⟩ := ih m hm
    exact ⟨r, List.mem_cons_of_mem _ hr, hreach⟩
  | @first met n ns below order _ _ _ ihi ihr =>
    intro m hm
    rcases List.mem_append.mp hm with hm | hm
    · obtain ⟨r, hr, hreach⟩ := ihi m hm
      exact ⟨n, List.mem_cons_self, Relation.ReflTransGen.head hr hreach⟩
    · rcases List.mem_cons.mp hm with rfl | hm
      · exact ⟨m, List.mem_cons_self, Relation.ReflTransGen.refl⟩
      · obtain ⟨r, hr, hreach⟩ := ihr m hm
        exact ⟨r, List.mem_cons_of_mem _ hr, hreach⟩

/-- No name is left out, neither at the beginning nor behind a finished name. -/
theorem covers (h : DepthFirst refs met ns order) :
    (∀ n ∈ ns, n ∈ met ∨ n ∈ order) ∧ ∀ n ∈ order, ∀ m ∈ refs n, m ∈ met ∨ m ∈ order := by
  induction h with
  | nil => simp
  | again hm _ ih => exact ⟨List.forall_mem_cons.mpr ⟨Or.inl hm, ih.1⟩, ih.2⟩
  | @first met n ns below order _ _ _ ihi ihr =>
    have hbelow {m : String} (hm : m ∈ insert n met ∨ m ∈ below) :
        m ∈ met ∨ m ∈ below ++ n :: order := by
      rcases hm with (rfl | hm) | hm
      · exact Or.inr (by simp)
      · exact Or.inl hm
      · exact Or.inr (List.mem_append_left _ hm)
    have hrest {m : String} (hm : m ∈ insert n met ∪ {m | m ∈ below} ∨ m ∈ order) :
        m ∈ met ∨ m ∈ below ++ n :: order := by
      rcases hm with hm | hm
      · exact hbelow hm
      · exact Or.inr (List.mem_append_right _ (List.mem_cons_of_mem _ hm))
    refine ⟨List.forall_mem_cons.mpr ⟨Or.inr (by simp), fun m hm => hrest (ihr.1 m hm)⟩, ?_⟩
    intro m hm k hk
    rcases List.mem_append.mp hm with hm | hm
    · exact hbelow (ihi.2 m hm k hk)
    · rcases List.mem_cons.mp hm with rfl | hm
      · exact hbelow (ihi.1 k hk)
      · exact hrest (ihr.2 m hm k hk)

/-- From the start, the finished names are those that can be reached. -/
theorem mem_iff_reached (h : DepthFirst refs ∅ ns order) (n : String) :
    n ∈ order ↔ Reached refs ns n := by
  refine ⟨h.reached_of_mem n, ?_⟩
  rintro ⟨r, hr, hreach⟩
  induction hreach with
  | refl => exact (h.covers.1 r hr).resolve_left (Set.notMem_empty r)
  | tail _ hstep ih => exact (h.covers.2 _ ih _ hstep).resolve_left (Set.notMem_empty _)

theorem append {order' : List String} (h : DepthFirst refs met ns order)
    (h' : DepthFirst refs (met ∪ {m | m ∈ order}) ms order') :
    DepthFirst refs met (ns ++ ms) (order ++ order') := by
  induction h with
  | nil => simpa using h'
  | again hm _ ih => exact again hm (ih h')
  | @first met n ns below order hn inner _ _ ihr =>
    rw [union_mem_append] at h'
    rw [List.append_assoc, List.cons_append, List.cons_append]
    exact first hn inner (ihr h')

/-- The visit of a row of names is that of the first ones, then that of the others. -/
theorem exists_append (h : DepthFirst refs met (ns ++ ms) order) :
    ∃ front back, order = front ++ back ∧ DepthFirst refs met ns front ∧
      DepthFirst refs (met ∪ {m | m ∈ front}) ms back := by
  induction ns generalizing met order with
  | nil => exact ⟨[], order, rfl, nil met, by simpa using h⟩
  | cons n ns ih =>
    cases h with
    | again hm rest =>
      obtain ⟨front, back, rfl, hf, hb⟩ := ih rest
      exact ⟨front, back, rfl, again hm hf, hb⟩
    | @first _ _ _ below order hn inner rest =>
      obtain ⟨front, back, rfl, hf, hb⟩ := ih rest
      refine ⟨below ++ n :: front, back, by simp, first hn inner hf, ?_⟩
      rw [union_mem_append]
      exact hb

/-- It makes no difference whether a name was met that cannot be reached. -/
theorem erase_met {r : String} (h : DepthFirst refs (insert r met) ns order)
    (hr : ¬Reached refs ns r) : DepthFirst refs met ns order := by
  generalize hM : insert r met = M at h
  induction h generalizing met with
  | nil => exact nil met
  | @again _ n ns order hm _ ih =>
    subst hM
    have hn : n ∈ met := by
      refine hm.resolve_left ?_
      rintro rfl
      exact hr ⟨n, List.mem_cons_self, Relation.ReflTransGen.refl⟩
    exact again hn (ih (fun ⟨k, hk, hreach⟩ => hr ⟨k, List.mem_cons_of_mem _ hk, hreach⟩) rfl)
  | @first _ n ns below order hn _ _ ihi ihr =>
    subst hM
    refine first (fun hm => hn (Or.inr hm)) (ihi ?_ (Set.insert_comm _ _ _)) (ihr ?_ ?_)
    · rintro ⟨k, hk, hreach⟩
      exact hr ⟨n, List.mem_cons_self, Relation.ReflTransGen.head hk hreach⟩
    · rintro ⟨k, hk, hreach⟩
      exact hr ⟨k, List.mem_cons_of_mem _ hk, hreach⟩
    · simp only [Set.insert_comm n r met, Set.insert_union]

open scoped Classical in
/-- Without references the visits are the distinct names in order. -/
theorem eq_eraseDups_filter (hrefs : ∀ n, refs n = []) (h : DepthFirst refs met ns order) :
    order = (ns.filter (· ∉ met)).eraseDups := by
  induction h with
  | nil => rfl
  | again hm _ ih => rw [ih, List.filter_cons_of_neg (by simpa using hm)]
  | @first met n ns below order hn inner _ _ ihr =>
    rw [hrefs n] at inner
    cases inner
    rw [List.filter_cons_of_pos (by simpa using hn), List.eraseDups_cons, List.filter_filter,
      List.nil_append, ihr]
    congr 3
    funext m
    by_cases h : m = n <;> simp [h]

/-- Where nothing refers to anything, the order is that of first occurrence. -/
theorem eq_eraseDups (hrefs : ∀ n, refs n = []) (h : DepthFirst refs ∅ ns order) :
    order = ns.eraseDups := by
  rw [h.eq_eraseDups_filter hrefs]
  simp

/-- A root that no earlier root reaches is finished after all of these. -/
theorem idxOf_lt_of_not_reached {n : String} (h : DepthFirst refs ∅ (ns ++ n :: ms) order)
    (hn : ¬Reached refs ns n) : ∀ m ∈ ns, order.idxOf m < order.idxOf n := by
  obtain ⟨front, back, rfl, hf, -⟩ := h.exists_append
  intro m hm
  have hmf : m ∈ front := (hf.covers.1 m hm).resolve_left (Set.notMem_empty m)
  have hnf : n ∉ front := fun hmem => hn (hf.reached_of_mem n hmem)
  rw [List.idxOf_append_of_mem hmf, List.idxOf_append_of_notMem hnf]
  exact Nat.lt_add_right _ (List.idxOf_lt_length_of_mem hmf)

end DepthFirst

/-- A list in which every name comes after all that it refers to; what is in `before` may be left
out. -/
def Layered (refs : String → List String) : Set String → List String → Prop
  | _, [] => True
  | before, n :: ns => (∀ m ∈ refs n, m ∈ before) ∧ Layered refs (insert n before) ns

/-- A row of two layered lists is layered over what stands in front. -/
theorem layered_append (before : Set String) (ns ms : List String) :
    Layered refs before (ns ++ ms) ↔
      Layered refs before ns ∧ Layered refs (before ∪ {n | n ∈ ns}) ms := by
  induction ns generalizing before with
  | nil => simp [Layered]
  | cons n ns ih =>
    have hbefore : before ∪ {m | m ∈ n :: ns} = insert n before ∪ {m | m ∈ ns} := by
      ext m
      simp only [Set.mem_union, Set.mem_insert_iff, Set.mem_ofPred_eq, List.mem_cons]
      tauto
    rw [List.cons_append, Layered, ih, Layered, hbefore, and_assoc]

namespace Layered

variable {order : List String} {n m : String}

theorem idxOf_lt_of_refers (h : Layered refs ∅ order) (hn : n ∈ order) (hm : Refers refs n m) :
    m ∈ order ∧ order.idxOf m < order.idxOf n := by
  obtain ⟨front, back, rfl, hfront⟩ := List.eq_append_cons_of_mem hn
  obtain ⟨-, hafter, -⟩ := (layered_append ∅ front (n :: back)).mp h
  have hmf : m ∈ front := (hafter m hm).resolve_left (Set.notMem_empty m)
  refine ⟨List.mem_append_left _ hmf, ?_⟩
  rw [List.idxOf_append_of_mem hmf, List.idxOf_append_of_notMem hfront]
  exact Nat.lt_add_right _ (List.idxOf_lt_length_of_mem hmf)

/-- All that a name reaches stands before it. -/
theorem idxOf_lt_of_transGen (h : Layered refs ∅ order) (hn : n ∈ order)
    (hm : Relation.TransGen (Refers refs) n m) : m ∈ order ∧ order.idxOf m < order.idxOf n := by
  induction hm with
  | single hstep => exact h.idxOf_lt_of_refers hn hstep
  | tail _ hstep ih =>
    obtain ⟨hmem, hlt⟩ := h.idxOf_lt_of_refers ih.1 hstep
    exact ⟨hmem, hlt.trans ih.2⟩

/-- In a layered order no name leads back to itself. -/
theorem not_transGen_self (h : Layered refs ∅ order) (hn : n ∈ order) :
    ¬Relation.TransGen (Refers refs) n n :=
  fun hcycle => lt_irrefl _ (h.idxOf_lt_of_transGen hn hcycle).2

/-- Nothing outside the order can be reached from names in it. -/
theorem mem_of_reached {roots : List String} (h : Layered refs ∅ order)
    (hroots : ∀ r ∈ roots, r ∈ order) (hn : Reached refs roots n) : n ∈ order := by
  obtain ⟨r, hr, hreach⟩ := hn
  induction hreach with
  | refl => exact hroots r hr
  | tail _ hstep ih => exact (h.idxOf_lt_of_refers ih hstep).1

end Layered

end ReportAssembly
