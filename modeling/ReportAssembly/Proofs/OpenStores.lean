import ReportAssembly.Proofs.Locality

namespace ReportAssembly

variable {α ε : Type}

def Store.within (answer : String → Answer) (names : List String) : Store where
  lookup name := if name ∈ names then answer name else ⟨.error (.notFound name), []⟩
  names := names
  mem_names := by
    intro name d h
    by_contra hn
    rw [if_neg hn] at h
    exact nomatch h

theorem Store.lookup_within {answer : String → Answer} {names : List String} {n : String}
    (h : n ∈ names) : (within answer names).lookup n = answer n :=
  if_pos h

/-- A composer that may find a design under any name, also under infinitely many. -/
structure OpenComposer (α ε : Type) where
  answer : String → Answer
  compile : Design → Except ε α
  nested : Bool

def Moment.name? : Moment α ε → Option String
  | .working inner _ _ => inner.name?
  | .ended _ => none

namespace Composer

variable {c : Composer α ε} {reserved : String → Option ValueType} {inner : InHand}
  {outer : List InHand} {s : Progress α} {m : Moment α ε} {store : Store}

/-- A move stays as it is against another store, if that gives the same answer to the name that the
move looks up. -/
theorem Moves.of_lookup_eq (h : c.Moves reserved inner s outer m)
    (hstore : ∀ n ∈ inner.name?, n ∈ Event.lookups m.events →
      store.lookup n = c.store.lookup n) :
    (c.withStore store).Moves reserved inner s outer m := by
  have hanswer {p : Placeholder} {ps : List Placeholder} {n : String} (left : inner.left = p :: ps)
      (name : p.name? = some n)
      (hlookups : Event.lookups m.events =
        Event.lookups (s.record (.lookup n (c.store.lookup n))).events) :
      (c.withStore store).store.lookup n = c.store.lookup n := by
    apply hstore
    · rw [InHand.name?, left]
      exact name
    · rw [hlookups, Progress.record, Event.lookups_lookup]
      exact List.mem_concat_self
  cases h with
  | unnamed left name => exact .unnamed left name
  | unbound left name known bind => exact .unbound left name known bind
  | bound left name known bind => exact .bound left name known bind
  | conflict left name unknown taken => exact .conflict left name unknown taken
  | circular left name unknown free nested inHand =>
    exact .circular left name unknown free nested inHand
  | missing left name unknown free apart lost =>
    have heq := hanswer left name rfl
    rw [← heq] at lost ⊢
    exact .missing left name unknown free apart lost
  | entered left name unknown free nested apart found =>
    have heq := hanswer left name rfl
    rw [← heq] at found ⊢
    exact .entered left name unknown free nested apart found
  | plain left name unknown free flat found =>
    have heq := hanswer left name (by rw [Moment.events_after, lookups_compileTemplate])
    rw [← heq] at found ⊢
    exact .plain left name unknown free flat found
  | returned left => exact .returned left
  | closed left => exact .closed left

/-- A move does not depend on the answers to names that it does not look up. -/
theorem next_withStore
    (hstore : ∀ n ∈ m.name?, n ∈ Event.lookups (c.next reserved m).events →
      store.lookup n = c.store.lookup n) :
    (c.withStore store).next reserved m = c.next reserved m := by
  cases m with
  | ended run => rfl
  | working inner outer s => exact ((c.moves_next reserved inner outer s).of_lookup_eq hstore).next_eq

end Composer

namespace OpenComposer

variable (o : OpenComposer α ε)

def within (names : List String) : Composer α ε :=
  ⟨.within o.answer names, o.compile, o.nested⟩

/-- The moment after a moment. What is looked up, if anything, is the name at hand. -/
def next (reserved : String → Option ValueType) (m : Moment α ε) : Moment α ε :=
  (o.within m.name?.toList).next reserved m

def moment (master : Design) (k : Nat) : Moment α ε :=
  (o.next master.lastDeclared?)^[k] (.working (.ofDesign master.name master) [] .start)

def Ends (master : Design) (run : Composition α ε) : Prop :=
  ∃ k, o.moment master k = .ended run

variable {o} {reserved : String → Option ValueType} {m : Moment α ε} {master : Design} {k : Nat}
  {store : Store} {names : List String} {run : Composition α ε}

/-- A finite store serves a move, if it gives the answer to what the move looks up. -/
theorem next_eq_of_lookups (h : ∀ n ∈ Event.lookups (o.next reserved m).events,
    store.lookup n = o.answer n) :
    (⟨store, o.compile, o.nested⟩ : Composer α ε).next reserved m = o.next reserved m := by
  have hstore : ∀ n ∈ m.name?, n ∈ Event.lookups (o.next reserved m).events →
      store.lookup n = (o.within m.name?.toList).store.lookup n := by
    intro n hname hn
    rw [h n hn]
    exact (Store.lookup_within (Option.mem_toList.mpr hname)).symm
  exact Composer.next_withStore hstore

/-- What a finite store is asked decides whether it serves a move. -/
theorem next_eq_of_lookups_finite
    (h : ∀ n ∈ Event.lookups
        ((⟨store, o.compile, o.nested⟩ : Composer α ε).next reserved m).events,
      store.lookup n = o.answer n) :
    o.next reserved m = (⟨store, o.compile, o.nested⟩ : Composer α ε).next reserved m := by
  have hanswer : ∀ n ∈ m.name?,
      n ∈ Event.lookups ((⟨store, o.compile, o.nested⟩ : Composer α ε).next reserved m).events →
      (o.within m.name?.toList).store.lookup n = store.lookup n := by
    intro n hname hn
    rw [h n hn]
    exact Store.lookup_within (Option.mem_toList.mpr hname)
  exact Composer.next_withStore hanswer

theorem moment_succ (master : Design) (k : Nat) :
    o.moment master (k + 1) = o.next master.lastDeclared? (o.moment master k) :=
  Function.iterate_succ_apply' _ k _

/-- A move adds to the names looked up. -/
theorem lookups_next_extends (reserved : String → Option ValueType) (m : Moment α ε) :
    Event.lookups m.events <+: Event.lookups (o.next reserved m).events := by
  cases m with
  | ended run => exact List.prefix_rfl
  | working inner outer s => exact (Composer.moves_next _ reserved inner outer s).lookups_extends

/-- A finite store serves a composition up to a moment, if it gives the answers up to then. -/
theorem moment_eq_of_lookups (h : ∀ n ∈ Event.lookups (o.moment master k).events,
    store.lookup n = o.answer n) :
    (⟨store, o.compile, o.nested⟩ : Composer α ε).moment master k = o.moment master k := by
  induction k with
  | zero => rfl
  | succ k ih =>
    rw [moment_succ] at h
    have hbefore : ∀ n ∈ Event.lookups (o.moment master k).events,
        store.lookup n = o.answer n :=
      fun n hn => h n ((lookups_next_extends _ _).subset hn)
    rw [moment_succ, Composer.moment_succ, ih hbefore]
    exact next_eq_of_lookups h

/-- A finite store serves a composition, if it gives the answers to all that its own composition
looks up. -/
theorem moment_eq_of_lookedUp
    (h : ∀ n ∈ ((⟨store, o.compile, o.nested⟩ : Composer α ε).compose master).lookedUp,
      store.lookup n = o.answer n) (k : Nat) :
    o.moment master k = (⟨store, o.compile, o.nested⟩ : Composer α ε).moment master k := by
  induction k with
  | zero => rfl
  | succ k ih =>
    have hnext : ∀ n ∈ Event.lookups
        ((⟨store, o.compile, o.nested⟩ : Composer α ε).moment master (k + 1)).events,
        store.lookup n = o.answer n :=
      fun n hn => h n ((Composer.lookups_moment_extends (k + 1)).subset hn)
    rw [Composer.moment_succ] at hnext
    rw [moment_succ, Composer.moment_succ, ih]
    exact next_eq_of_lookups_finite hnext

/-- If the finite store of some names is asked for no others, it serves the composition. -/
theorem moment_within (h : ((o.within names).compose master).lookedUp ⊆ names) (k : Nat) :
    o.moment master k = (o.within names).moment master k :=
  moment_eq_of_lookedUp (fun _ hn => Store.lookup_within (h hn)) k

/-- A composition that ends is that over the finite store of the names it has looked up, and every
such composition is one that ends. -/
theorem ends_iff_compose_within :
    o.Ends master run ↔ (o.within run.lookedUp).compose master = run := by
  constructor
  · rintro ⟨k, hk⟩
    have hserved : (o.within run.lookedUp).moment master k = o.moment master k := by
      apply moment_eq_of_lookups
      rw [hk]
      exact fun n hn => Store.lookup_within hn
    exact Composer.compose_eq_of_moment _ (hserved.trans hk)
  · intro hrun
    obtain ⟨k, hk⟩ := (o.within run.lookedUp).exists_moment_eq_ended master
    refine ⟨k, (moment_within ?_ k).trans (hk.trans (congrArg _ hrun))⟩
    rw [hrun]
    exact List.Subset.refl _

/-- A composition ends if and only if it looks up finitely many names. -/
theorem exists_ends_iff : (∃ run, o.Ends master run) ↔
    ∃ names : List String, ∀ k, Event.lookups (o.moment master k).events ⊆ names := by
  constructor
  · rintro ⟨run, hrun⟩
    have hlookedUp : ((o.within run.lookedUp).compose master).lookedUp ⊆ run.lookedUp := by
      rw [ends_iff_compose_within.mp hrun]
      exact List.Subset.refl _
    refine ⟨run.lookedUp, fun k => ?_⟩
    rw [moment_within hlookedUp k]
    exact List.Subset.trans (Composer.lookups_moment_extends k).subset hlookedUp
  · rintro ⟨names, hnames⟩
    obtain ⟨k, hk⟩ := (o.within names).exists_moment_eq_ended master
    refine ⟨_, k, Eq.trans ?_ hk⟩
    exact (moment_eq_of_lookups fun n hn => Store.lookup_within (hnames k hn)).symm

end OpenComposer

namespace Composer

variable {c : Composer α ε} {master : Design}

/-- A composer with a finite store makes the moves of the open one with the same answers. -/
theorem moment_open (k : Nat) :
    (⟨c.store.lookup, c.compile, c.nested⟩ : OpenComposer α ε).moment master k =
      c.moment master k :=
  OpenComposer.moment_eq_of_lookedUp (fun _ _ => rfl) k

/-- A composition of one level looks up names that its master quotes. -/
theorem lookups_moment_subset (hflat : c.nested = false) (k : Nat) :
    Event.lookups (c.moment master k).events ⊆ master.references := by
  induction k with
  | zero => exact List.nil_subset _
  | succ k ih =>
    rw [moment_succ]
    cases hk : c.moment master k with
    | ended run =>
      rw [hk] at ih
      exact ih
    | working inner outer s =>
      rw [hk] at ih
      have hleft : ∀ p ∈ inner.left, p ∈ master.placeholders := by
        cases linked_of_moment hk with
        | master _ left => exact left
        | inner _ _ _ nested => exact nomatch hflat.symm.trans nested
      rcases (c.moves_next master.lastDeclared? inner outer s).lookups_cases with heq | ⟨n, hn, heq⟩
      · rw [heq]
        exact ih
      · obtain ⟨p, hp, hname⟩ := Option.bind_eq_some_iff.mp hn
        rw [heq]
        apply List.append_subset.mpr ⟨ih, List.forall_mem_singleton.mpr ?_⟩
        exact List.mem_filterMap.mpr ⟨p, hleft p (List.mem_of_mem_head? hp), hname⟩

end Composer

/-- A composition of one level ends against any store, with what it comes to over the names that its
master quotes. -/
theorem OpenComposer.ends_of_flat {o : OpenComposer α ε} (hflat : o.nested = false)
    (master : Design) : o.Ends master ((o.within master.references).compose master) := by
  obtain ⟨k, hk⟩ := (o.within master.references).exists_moment_eq_ended master
  refine ⟨k, (moment_within ?_ k).trans hk⟩
  have hlookups : Event.lookups ((o.within master.references).moment master k).events ⊆
      master.references := Composer.lookups_moment_subset hflat k
  rw [hk] at hlookups
  exact hlookups

end ReportAssembly
