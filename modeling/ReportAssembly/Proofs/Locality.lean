import Mathlib.Tactic.FinCases
import ReportAssembly.Proofs.OnceEach
import ReportAssembly.Proofs.Registrations

namespace ReportAssembly

variable {α ε : Type}

def InHand.name? (inner : InHand) : Option String :=
  inner.left.head?.bind Placeholder.name?

namespace Composer

variable {c : Composer α ε} {reserved : String → Option ValueType} {inner : InHand}
  {outer : List InHand} {s : Progress α} {m : Moment α ε} {master : Design} {k j : Nat}

theorem lookups_compileTemplate (n : String) (d : Design) (s : Progress α) :
    Event.lookups (c.compileTemplate n d s).progress.events = Event.lookups s.events := by
  rw [compileTemplate]
  cases c.compile d with
  | ok artifact => exact Event.lookups_compile _ _ _ _
  | error cause => exact Event.lookups_compile _ _ _ _

theorem lookups_close (d : Design) (s : Progress α) :
    Event.lookups (c.close d s).events = Event.lookups s.events := by
  rw [close]
  cases c.compile d with
  | ok report => exact Event.lookups_compile _ _ _ _
  | error cause => exact Event.lookups_compile _ _ _ _

/-- A move looks up the name of the placeholder at hand, or nothing. -/
theorem Moves.lookups_cases (h : c.Moves reserved inner s outer m) :
    Event.lookups m.events = Event.lookups s.events ∨
      ∃ n ∈ inner.name?, Event.lookups m.events = Event.lookups s.events ++ [n] := by
  have hname {p : Placeholder} {ps : List Placeholder} {n : String} (left : inner.left = p :: ps)
      (name : p.name? = some n) : n ∈ inner.name? := by
    rw [InHand.name?, left]
    exact name
  cases h with
  | unnamed => exact .inl rfl
  | unbound => exact .inl rfl
  | bound => exact .inl rfl
  | conflict => exact .inl rfl
  | circular => exact .inl rfl
  | missing left name => exact .inr ⟨_, hname left name, Event.lookups_lookup _ _ _⟩
  | entered left name => exact .inr ⟨_, hname left name, Event.lookups_lookup _ _ _⟩
  | plain left name =>
    refine .inr ⟨_, hname left name, ?_⟩
    rw [Moment.events_after, lookups_compileTemplate]
    exact Event.lookups_lookup _ _ _
  | returned =>
    left
    rw [Moment.events_after, lookups_compileTemplate]
  | closed =>
    left
    rw [Moment.events, lookups_close]

/-- A move adds to the names looked up. -/
theorem Moves.lookups_extends (h : c.Moves reserved inner s outer m) :
    Event.lookups s.events <+: Event.lookups m.events := by
  rcases h.lookups_cases with heq | ⟨n, -, heq⟩
  · exact ⟨[], (List.append_nil _).trans heq.symm⟩
  · exact ⟨[n], heq.symm⟩

theorem lookups_extends_of_le (h : k ≤ j) :
    Event.lookups (c.moment master k).events <+: Event.lookups (c.moment master j).events := by
  induction j, h using Nat.le_induction with
  | base => exact List.prefix_rfl
  | succ j _ ih =>
    rw [moment_succ]
    cases hj : c.moment master j with
    | ended run =>
      rw [hj] at ih
      exact ih
    | working inner outer s =>
      rw [hj] at ih
      exact ih.trans (c.moves_next _ inner outer s).lookups_extends

/-- What has been looked up in a moment is among what the composition looks up. -/
theorem lookups_moment_extends (k : Nat) :
    Event.lookups (c.moment master k).events <+: (c.compose master).lookedUp := by
  obtain ⟨j, hj⟩ := c.exists_moment_eq_ended master
  have hmax : Event.lookups (c.moment master k).events <+:
      Event.lookups (c.moment master (max k j)).events := lookups_extends_of_le (le_max_left k j)
  rw [moment_eq_ended_of_le c hj (le_max_right k j)] at hmax
  exact hmax

end Composer

structure Progress.Agrees (s s' : Progress α) : Prop where
  compiled : s.compiled = s'.compiled
  lookups : Event.lookups s.events = Event.lookups s'.events
  handed : s.events.filterMap Event.handed? = s'.events.filterMap Event.handed?

/-- Two compositions with the same outcome, which leave the same master, look up the same names and
give the same designs to the compiler. -/
structure Composition.Agrees (r r' : Composition α ε) : Prop where
  outcome : r.outcome = r'.outcome
  master : r.master = r'.master
  lookedUp : r.lookedUp = r'.lookedUp
  handed : r.handed = r'.handed

inductive Moment.Agrees : Moment α ε → Moment α ε → Prop
  | working {inner : InHand} {outer : List InHand} {s s' : Progress α} (h : s.Agrees s') :
      Agrees (.working inner outer s) (.working inner outer s')
  | ended {r r' : Composition α ε} (h : r.Agrees r') : Agrees (.ended r) (.ended r')

namespace Progress.Agrees

variable {s s' : Progress α}

theorem refl (s : Progress α) : s.Agrees s :=
  ⟨rfl, rfl, rfl⟩

theorem isCompiled (h : s.Agrees s') (n : String) : s.isCompiled n = s'.isCompiled n := by
  rw [Progress.isCompiled, Progress.isCompiled, h.compiled]

/-- A name is looked up by both, whatever the answers are. -/
theorem lookup (h : s.Agrees s') (n : String) (a a' : Answer) :
    (s.record (.lookup n a)).Agrees (s'.record (.lookup n a')) where
  compiled := h.compiled
  lookups := by
    simp only [Progress.record, Event.lookups_lookup, h.lookups]
  handed := by
    simp only [Progress.record, List.filterMap_append, h.handed]
    rfl

theorem compile (h : s.Agrees s') (t : Option String) (d : Design) (accepted : Bool) :
    (s.record (.compile t d accepted)).Agrees (s'.record (.compile t d accepted)) where
  compiled := h.compiled
  lookups := by
    simp only [Progress.record, Event.lookups_compile, h.lookups]
  handed := by
    simp only [Progress.record, List.filterMap_append, h.handed]

theorem complete (h : s.Agrees s') (n : String) (artifact : α) :
    (s.complete n artifact).Agrees (s'.complete n artifact) where
  compiled := congrArg (· ++ [(n, artifact)]) h.compiled
  lookups := h.lookups
  handed := h.handed

/-- A failure ends both compositions. -/
theorem failed (h : s.Agrees s') (inner : InHand) (outer : List InHand) (e : ComposeError ε) :
    (Moment.after inner outer ⟨s, .error e⟩).Agrees (.after inner outer ⟨s', .error e⟩) :=
  .ended ⟨rfl, rfl, h.lookups, h.handed⟩

end Progress.Agrees

theorem Answer.design_congr {a a' : Answer} (h : a'.outcome = a.outcome) (n : String)
    (p : Placeholder) :
    (a'.design n p : Except (ComposeError ε) Design) = a.design n p := by
  rw [Answer.design, Answer.design, h]

namespace Composer

def withStore (c : Composer α ε) (store : Store) : Composer α ε :=
  { c with store := store }

variable {c : Composer α ε} {reserved : String → Option ValueType} {inner : InHand}
  {outer : List InHand} {s s' : Progress α} {m : Moment α ε} {master : Design} {store : Store}

theorem agrees_compileTemplate (h : s.Agrees s') (inner : InHand) (outer : List InHand)
    (n : String) (d : Design) :
    (Moment.after inner outer (c.compileTemplate n d s)).Agrees
      (.after inner outer ((c.withStore store).compileTemplate n d s')) := by
  rw [compileTemplate, compileTemplate]
  cases hd : c.compile d with
  | ok artifact =>
    have hd' : (c.withStore store).compile d = .ok artifact := hd
    rw [hd']
    exact .working ((h.compile (some n) d true).complete n artifact)
  | error cause =>
    have hd' : (c.withStore store).compile d = .error cause := hd
    rw [hd']
    exact (h.compile (some n) d false).failed inner outer _

/-- Runs that agree end in agreement. -/
theorem agrees_close (h : s.Agrees s') (d : Design) :
    (c.close d s).Agrees ((c.withStore store).close d s') := by
  rw [close, close]
  cases hd : c.compile d with
  | ok report =>
    have hd' : (c.withStore store).compile d = .ok report := hd
    have hs := h.compile none d true
    rw [hd', ← h.compiled]
    exact ⟨rfl, rfl, hs.lookups, hs.handed⟩
  | error cause =>
    have hd' : (c.withStore store).compile d = .error cause := hd
    have hs := h.compile none d false
    rw [hd']
    exact ⟨rfl, rfl, hs.lookups, hs.handed⟩

/-- A move is made against another store too, if that agrees on the name looked up. -/
theorem Moves.withStore (h : c.Moves reserved inner s outer m) (hs : s.Agrees s')
    (hstore : ∀ n ∈ Event.lookups m.events,
      (store.lookup n).outcome = (c.store.lookup n).outcome) :
    ∃ m', (c.withStore store).Moves reserved inner s' outer m' ∧ m.Agrees m' := by
  have hrecord (n : String) (a : Answer) : n ∈ Event.lookups (s.record (.lookup n a)).events := by
    rw [Progress.record, Event.lookups_lookup]
    exact List.mem_concat_self
  cases h with
  | unnamed left name => exact ⟨_, .unnamed left name, hs.failed inner outer _⟩
  | unbound left name known bind =>
    exact ⟨_, .unbound left name (hs.isCompiled _ ▸ known) bind, hs.failed inner outer _⟩
  | bound left name known bind =>
    exact ⟨_, .bound left name (hs.isCompiled _ ▸ known) bind, .working hs⟩
  | conflict left name unknown taken =>
    exact ⟨_, .conflict left name (hs.isCompiled _ ▸ unknown) taken, hs.failed inner outer _⟩
  | circular left name unknown free nested inHand =>
    exact ⟨_, .circular left name (hs.isCompiled _ ▸ unknown) free nested inHand,
      hs.failed inner outer _⟩
  | missing left name unknown free apart lost =>
    have halike := hstore _ (hrecord _ _)
    have hlost := (Answer.design_congr halike _ _).trans lost
    exact ⟨_, .missing left name (hs.isCompiled _ ▸ unknown) free apart hlost,
      (hs.lookup _ _ _).failed inner outer _⟩
  | entered left name unknown free nested apart found =>
    have hfound := (hstore _ (hrecord _ _)).trans found
    exact ⟨_, .entered left name (hs.isCompiled _ ▸ unknown) free nested apart hfound,
      .working (hs.lookup _ _ _)⟩
  | plain left name unknown free flat found =>
    rw [Moment.events_after, lookups_compileTemplate] at hstore
    have hfound := (hstore _ (hrecord _ _)).trans found
    exact ⟨_, .plain left name (hs.isCompiled _ ▸ unknown) free flat hfound,
      agrees_compileTemplate (hs.lookup _ _ _) inner outer _ _⟩
  | returned left => exact ⟨_, .returned left, agrees_compileTemplate hs _ _ _ _⟩
  | closed left => exact ⟨_, .closed left, .ended (agrees_close hs _)⟩

/-- Stores that agree on what is looked up in one of them lead to the same composition. -/
theorem compose_agrees (h : ∀ n ∈ (c.compose master).lookedUp,
    (store.lookup n).outcome = (c.store.lookup n).outcome) :
    (c.compose master).Agrees ((c.withStore store).compose master) := by
  have hended : Moment.Agrees (.ended (c.compose master))
      (.ended ((c.withStore store).compose master)) := by
    apply compose_related
    · exact .working (.refl _)
    · intro k hk
      have hstore : ∀ n ∈ Event.lookups (c.moment master (k + 1)).events,
          (store.lookup n).outcome = (c.store.lookup n).outcome :=
        fun n hn => h n ((lookups_moment_extends (k + 1)).subset hn)
      rw [moment_succ] at hstore
      rw [moment_succ, moment_succ]
      generalize c.moment master k = m at hk hstore
      generalize (c.withStore store).moment master k = m' at hk
      cases hk with
      | ended hrun => exact .ended hrun
      | working hs =>
        obtain ⟨m', hmove, hagrees⟩ := (c.moves_next _ _ _ _).withStore hs hstore
        rw [hmove.next_eq]
        exact hagrees
  cases hended with
  | ended hrun => exact hrun

/-- A name that is looked up is that of a stored design, unless the composition has ended for want
of one. -/
def Answered (c : Composer α ε) : Moment α ε → Prop
  | .working _ _ s => ∀ n ∈ Event.lookups s.events, ∃ d, (c.store.lookup n).outcome = .ok d
  | .ended run => ∀ n ∈ run.lookedUp, (∃ d, (c.store.lookup n).outcome = .ok d) ∨
    ∃ p e, (c.store.lookup n).design n p = .error e ∧ run.outcome = .error e

theorem Answered.after {t : Step α ε Unit}
    (h : ∀ n ∈ Event.lookups t.progress.events, ∃ d, (c.store.lookup n).outcome = .ok d) :
    c.Answered (.after inner outer t) :=
  Moment.after_cases (fun _ => h) fun _ _ n hn => .inl (h n hn)

/-- A move looks up stored names, or fails for want of one. -/
theorem Moves.answered (h : c.Moves reserved inner s outer m)
    (hs : ∀ n ∈ Event.lookups s.events, ∃ d, (c.store.lookup n).outcome = .ok d) :
    c.Answered m := by
  have hfound {n : String} {d : Design} (found : (c.store.lookup n).outcome = .ok d) :
      ∀ k ∈ Event.lookups (s.record (.lookup n (c.store.lookup n))).events,
        ∃ d, (c.store.lookup k).outcome = .ok d := by
    rw [Progress.record, Event.lookups_lookup]
    exact List.forall_mem_append.mpr ⟨hs, List.forall_mem_singleton.mpr ⟨d, found⟩⟩
  cases h with
  | unnamed => exact .after hs
  | unbound => exact .after hs
  | bound => exact hs
  | conflict => exact .after hs
  | circular => exact .after hs
  | @missing _ p _ n e _ _ _ _ _ lost =>
    intro k hk
    have hk : k ∈ Event.lookups (s.events ++ [.lookup n (c.store.lookup n)]) := hk
    rw [Event.lookups_lookup] at hk
    rcases List.mem_append.mp hk with hk | hk
    · exact .inl (hs k hk)
    · obtain rfl := List.mem_singleton.mp hk
      exact .inr ⟨p, e, lost, rfl⟩
  | entered _ _ _ _ _ _ found => exact hfound found
  | plain _ _ _ _ _ found =>
    apply Answered.after
    rw [lookups_compileTemplate]
    exact hfound found
  | returned =>
    apply Answered.after
    rw [lookups_compileTemplate]
    exact hs
  | closed =>
    intro n hn
    have hn : n ∈ Event.lookups (c.close inner.design s).events := hn
    rw [lookups_close] at hn
    exact .inl (hs n hn)

variable (c master) in
/-- A composition answers for all that it looks up. -/
theorem compose_answered : c.Answered (.ended (c.compose master)) := by
  apply c.compose_induction (List.forall_mem_nil _)
  exact fun inner outer s m hmove hs => hmove.answered hs

end Composer

/-- Against a registry, a name that is looked up and not registered is reported as not found. -/
theorem Registry.design_eq_error {r : Registry} {n : String} {p : Placeholder} {e : ComposeError ε}
    (h : (r.toStore.lookup n).design n p = .error e) : e = .referenceNotFound n p.span := by
  rw [Answer.design] at h
  cases hn : r.lookup n with
  | ok d =>
    have hout : (r.toStore.lookup n).outcome = .ok d := hn
    rw [hout] at h
    cases h
  | error cause =>
    obtain rfl := lookup_eq_error hn
    have hout : (r.toStore.lookup n).outcome = .error (.notFound n) := hn
    rw [hout] at h
    exact (Except.error.inj h).symm

/-- A composition depends on its store through the names that it looks up only. So a composition
that finds all its templates in a registry stays as it is when others are registered. -/
theorem composition_depends_on_lookups (compile : Design → Except ε α) (nested : Bool)
    (master : Design) :
    (∀ store store' : Store,
      (∀ n ∈ ((⟨store, compile, nested⟩ : Composer α ε).compose master).lookedUp,
        (store'.lookup n).outcome = (store.lookup n).outcome) →
      ((⟨store, compile, nested⟩ : Composer α ε).compose master).Agrees
        ((⟨store', compile, nested⟩ : Composer α ε).compose master)) ∧
    ∀ (r : Registry) (calls : List Registration),
      (∀ n span, ((⟨r.toStore, compile, nested⟩ : Composer α ε).compose master).outcome ≠
        .error (.referenceNotFound n span)) →
      ((⟨r.toStore, compile, nested⟩ : Composer α ε).compose master).Agrees
        ((⟨(r.after calls).toStore, compile, nested⟩ : Composer α ε).compose master) := by
  have hagrees (store store' : Store)
      (h : ∀ n ∈ ((⟨store, compile, nested⟩ : Composer α ε).compose master).lookedUp,
        (store'.lookup n).outcome = (store.lookup n).outcome) :
      ((⟨store, compile, nested⟩ : Composer α ε).compose master).Agrees
        ((⟨store', compile, nested⟩ : Composer α ε).compose master) :=
    Composer.compose_agrees (c := ⟨store, compile, nested⟩) h
  refine ⟨hagrees, fun r calls hfound => hagrees _ _ fun n hn => ?_⟩
  rcases (⟨r.toStore, compile, nested⟩ : Composer α ε).compose_answered master n hn with
    ⟨d, hd⟩ | ⟨p, e, he, hout⟩
  · exact (Registry.lookup_after hd calls).trans hd.symm
  · rw [Registry.design_eq_error he] at hout
    exact absurd hout (hfound n p.span)

def lateRegistrations : List Registration :=
  [.design (.placing "Lines" []), .source "report", .design (.placing "Extra" [])]

def reversedTemplates : List Design :=
  (sharingTemplates.entries.map (·.2)).reverse

theorem composition_depends_on_lookups_late :
    (sharingTemplates.after lateRegistrations).names = ["Lines", "Notes", "Totals", "Extra"] ∧
      ((⟨sharingTemplates.toStore, fun d => .ok d.name, true⟩ :
        Composer String Empty).compose sharingMaster).lookedUp = ["Lines", "Totals", "Notes"] ∧
      ((⟨sharingTemplates.toStore, fun d => .ok d.name, true⟩ :
          Composer String Empty).compose sharingMaster).Agrees
        ((⟨(sharingTemplates.after lateRegistrations).toStore, fun d => .ok d.name, true⟩ :
          Composer String Empty).compose sharingMaster) ∧
      ((⟨sharingTemplates.toStore, fun d => .ok d.name, true⟩ :
          Composer String Empty).compose sharingMaster).Agrees
        ((⟨(Registry.ofDesigns reversedTemplates).toStore, fun d => .ok d.name, true⟩ :
          Composer String Empty).compose sharingMaster) := by
  have hlookedUp : ((⟨sharingTemplates.toStore, fun d => .ok d.name, true⟩ :
      Composer String Empty).compose sharingMaster).lookedUp = ["Lines", "Totals", "Notes"] := by
    cbv
  have hok : ((⟨sharingTemplates.toStore, fun d => .ok d.name, true⟩ :
      Composer String Empty).compose sharingMaster).outcome =
        .ok ⟨"Invoice", [("Totals", "Totals"), ("Lines", "Lines"), ("Notes", "Notes")]⟩ := by cbv
  refine ⟨by cbv, hlookedUp, ?_, ?_⟩
  · apply (composition_depends_on_lookups _ _ _).2
    intro n span he
    cases hok.symm.trans he
  · apply (composition_depends_on_lookups _ _ _).1
    rw [hlookedUp]
    intro n hn
    fin_cases hn <;> cbv

end ReportAssembly
