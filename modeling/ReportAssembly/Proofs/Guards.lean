import ReportAssembly.Proofs.OnceEach
import ReportAssembly.Proofs.PartlyBound
import ReportAssembly.Proofs.ReservedNames

namespace ReportAssembly

variable {α ε : Type}

/-- A placeholder that is not bound yet stands in the design as it was. -/
theorem Design.mem_placeholders_boundAt {d : Design} {done left : List Placeholder}
    (h : done ++ left = d.placeholders) {p : Placeholder} (hp : p ∈ left) :
    p ∈ (d.boundAt done).placeholders := by
  have hnodup : (d.placeholders.map (·.pos)).Nodup := d.nodup_positions
  rw [← h, List.map_append, List.nodup_append] at hnodup
  have hpos : p.pos ∉ done.map (·.pos) := fun hmem =>
    hnodup.2.2 _ hmem _ (List.mem_map_of_mem hp) rfl
  have hmem : p ∈ d.placeholders := h ▸ List.mem_append_right done hp
  obtain ⟨e, he, htext⟩ := (d.mem_placeholders_iff p).mp hmem
  rw [mem_placeholders_iff, d.element?_boundAt_of_notMem hpos]
  exact ⟨e, he, htext⟩

namespace InHand

def OnWay (x : InHand) (d : Design) : Prop :=
  ∃ done, done ++ x.left = d.placeholders ∧ Binder.Through d done x.binder x.design

variable {x : InHand} {d : Design} {p : Placeholder} {ps : List Placeholder} {n : String}

theorem onWay_ofDesign (n : String) (d : Design) : (ofDesign n d).OnWay d :=
  ⟨[], rfl, Binder.through_nil d⟩

theorem OnWay.isSubreportAt (h : x.OnWay d) (hp : p ∈ d.placeholders) :
    Binder.isSubreportAt x.design p.pos = true := by
  obtain ⟨done, -, hthrough⟩ := h
  exact hthrough.design_eq ▸ d.isSubreportAt_boundAt done hp

theorem OnWay.mem_placeholders (h : x.OnWay d) (hp : p ∈ x.left) : p ∈ x.design.placeholders := by
  obtain ⟨done, hdone, hthrough⟩ := h
  rw [hthrough.design_eq]
  exact Design.mem_placeholders_boundAt hdone hp

/-- What is left was listed for the design. -/
theorem OnWay.mem_snapshot (h : x.OnWay d) (hp : p ∈ x.left) : p ∈ d.placeholders := by
  obtain ⟨done, hdone, -⟩ := h
  exact hdone ▸ List.mem_append_right done hp

/-- A binding keeps a design on its way. -/
theorem OnWay.advance (h : x.OnWay d) (left : x.left = p :: ps) (name : p.name? = some n)
    {b : Binder} {d' : Design}
    (bind : (x.binder.bind x.design p n : Binder.Bound ε).result =
      .ok (b, d')) : OnWay ⟨x.name, ps, b, d'⟩ d := by
  have hp : p ∈ d.placeholders := h.mem_snapshot (left ▸ List.mem_cons_self)
  obtain ⟨done, hdone, hthrough⟩ := h
  refine ⟨done ++ [p], ?_, (hthrough.of_bind_eq_ok hp name bind).2⟩
  rw [List.append_assoc, List.singleton_append, ← left]
  exact hdone

/-- A placeholder is bound when its turn comes, if the design has not declared its name. -/
theorem OnWay.bind_eq_ok (h : x.OnWay d) (left : x.left = p :: ps) (name : p.name? = some n)
    (hfree : ¬d.Declares n) :
    ∃ b d', (x.binder.bind x.design p n : Binder.Bound ε).result =
      .ok (b, d') := by
  have hp : p ∈ d.placeholders := h.mem_snapshot (left ▸ List.mem_cons_self)
  obtain ⟨done, -, hthrough⟩ := h
  obtain ⟨b, d', hbind, -⟩ :=
    hthrough.bind_eq_ok (ε := ε) hp name (.inr ((d.parameter?_eq_none_iff n).mpr hfree))
  exact ⟨b, d', hbind⟩

end InHand

structure Design.Spared (master : Design) (events : List Event) : Prop where
  lookups : ∀ n ∈ Event.lookups events, ¬master.Declares n
  templates : ∀ n ∈ Event.templates events, ¬master.Declares n

namespace Design.Spared

variable {master : Design} {events : List Event} {n : String}

theorem nil (master : Design) : master.Spared [] :=
  ⟨fun _ hn => (nomatch hn), fun _ hn => (nomatch hn)⟩

theorem lookup (h : master.Spared events) (hn : ¬master.Declares n) (a : Answer) :
    master.Spared (events ++ [.lookup n a]) where
  lookups := by
    rw [Event.lookups_lookup]
    exact List.forall_mem_append.mpr ⟨h.lookups, List.forall_mem_singleton.mpr hn⟩
  templates := by
    rw [Event.templates_lookup]
    exact h.templates

theorem compile (h : master.Spared events) {t : Option String}
    (ht : ∀ n ∈ t, ¬master.Declares n) (d : Design) (accepted : Bool) :
    master.Spared (events ++ [.compile t d accepted]) where
  lookups := by
    rw [Event.lookups_compile]
    exact h.lookups
  templates := by
    rw [Event.templates_compile]
    exact List.forall_mem_append.mpr ⟨h.templates, fun n hn => ht n (Option.mem_toList.mp hn)⟩

end Design.Spared

namespace Composer

variable (c : Composer α ε) (master : Design)

inductive OnTheirWay : InHand → List InHand → Prop
  | master {x : InHand} (way : x.OnWay master) : OnTheirWay x []
  | template {x next : InHand} {outer : List InHand} {d : Design} (around : OnTheirWay next outer)
      (stored : (c.store.lookup x.name).outcome = .ok d) (way : x.OnWay d) :
      OnTheirWay x (next :: outer)

def Guarded : Moment α ε → Prop
  | .working inner outer s => c.OnTheirWay master inner outer ∧ master.Spared s.events
  | .ended run => (∀ pos, run.outcome ≠ .error (.unknownPlaceholder pos)) ∧
      master.Spared run.events

variable {c master} {inner : InHand} {outer : List InHand} {s : Progress α} {n : String}

theorem OnTheirWay.around {next : InHand} (h : c.OnTheirWay master inner (next :: outer)) :
    c.OnTheirWay master next outer := by
  cases h with
  | template around => exact around

theorem OnTheirWay.exists_standsAt (h : c.OnTheirWay master inner outer) :
    ∃ d, master.StandsAt c.store outer.length inner.name d ∧ inner.OnWay d := by
  cases h with
  | master way => exact ⟨master, .inl ⟨rfl, rfl⟩, way⟩
  | template around stored way => exact ⟨_, .inr ⟨Nat.succ_pos _, stored⟩, way⟩

/-- A binding of the innermost design keeps all on their way. -/
theorem OnTheirWay.advance (h : c.OnTheirWay master inner outer) {p : Placeholder}
    {ps : List Placeholder} {b : Binder} {d : Design} (left : inner.left = p :: ps)
    (name : p.name? = some n) (bind : (inner.binder.bind inner.design p n : Binder.Bound ε).result = .ok (b, d)) :
    c.OnTheirWay master ⟨inner.name, ps, b, d⟩ outer := by
  cases h with
  | master way => exact .master (way.advance left name bind)
  | template around stored way => exact .template around stored (way.advance left name bind)

/-- A step keeps the guard, unless it misses a placeholder. -/
theorem guarded_after {t : Step α ε Unit} (hway : c.OnTheirWay master inner outer)
    (hspared : master.Spared t.progress.events)
    (ht : ∀ pos, t.outcome ≠ .error (.unknownPlaceholder pos)) :
    c.Guarded master (.after inner outer t) := by
  apply Moment.after_cases
  · exact fun _ => ⟨hway, hspared⟩
  · intro e he
    refine ⟨?_, hspared⟩
    rintro pos ⟨⟩
    exact ht pos he

/-- What follows when a template is compiled whose name the master does not declare. -/
theorem guarded_compileTemplate (hway : c.OnTheirWay master inner outer)
    (hspared : master.Spared s.events) (hn : ¬master.Declares n) (d : Design) :
    c.Guarded master (.after inner outer (c.compileTemplate n d s)) := by
  have hname : ∀ m ∈ some n, ¬master.Declares m := by
    rintro m ⟨⟩
    exact hn
  apply guarded_after hway
  · rw [compileTemplate]
    cases c.compile d with
    | ok artifact => exact hspared.compile hname d true
    | error cause => exact hspared.compile hname d false
  · intro pos hpos
    obtain ⟨cause, he⟩ := compileTemplate_eq_error hpos
    cases he

theorem guarded_close (hspared : master.Spared s.events) (d : Design) :
    c.Guarded master (.ended (c.close d s)) := by
  have hname : ∀ n ∈ (none : Option String), ¬master.Declares n := fun _ hn => nomatch hn
  constructor
  · intro pos hpos
    obtain ⟨cause, he⟩ := close_eq_error hpos
    cases he
  · rw [close]
    cases c.compile d with
    | ok report => exact hspared.compile hname d true
    | error cause => exact hspared.compile hname d false

/-- Each move keeps the guard. -/
theorem Moves.guarded {m : Moment α ε} (h : c.Moves master.lastDeclared? inner s outer m)
    (hlinked : c.Linked master inner outer) (hway : c.OnTheirWay master inner outer)
    (hspared : master.Spared s.events) : c.Guarded master m := by
  have hfree {n : String} (free : master.lastDeclared? n = none) : ¬master.Declares n :=
    (master.lastDeclared?_eq_none_iff n).mp free
  cases h with
  | unnamed _ name =>
    obtain ⟨fault, rfl⟩ := Placeholder.templateName_eq_error name
    exact guarded_after hway hspared fun pos hpos => nomatch hpos
  | @unbound _ p _ n _ left _ _ bind =>
    -- The one move that could miss a placeholder: it was listed, so it stands where it was.
    obtain ⟨d, -, hd⟩ := hway.exists_standsAt
    have hsub : Binder.isSubreportAt inner.design p.pos = true :=
      hd.isSubreportAt (hd.mem_snapshot (left ▸ List.mem_cons_self))
    obtain ⟨existing, -, rfl⟩ | ⟨hlost, -⟩ := Binder.bind_eq_error bind
    · exact guarded_after hway hspared fun pos hpos => nomatch hpos
    · exact absurd (hsub.symm.trans hlost) Bool.noConfusion
  | bound left name _ bind => exact ⟨hway.advance left name bind, hspared⟩
  | conflict => exact guarded_after hway hspared fun pos hpos => nomatch hpos
  | circular => exact guarded_after hway hspared fun pos hpos => nomatch hpos
  | missing _ _ _ free _ lost =>
    refine guarded_after hway (hspared.lookup (hfree free) _) ?_
    obtain rfl | ⟨cause, rfl⟩ := Answer.design_eq_error lost <;> exact fun pos hpos => nomatch hpos
  | entered _ _ _ free _ _ found =>
    exact ⟨.template hway found (InHand.onWay_ofDesign _ _), hspared.lookup (hfree free) _⟩
  | plain _ _ _ free =>
    exact guarded_compileTemplate hway (hspared.lookup (hfree free) _) (hfree free) _
  | returned =>
    exact guarded_compileTemplate hway.around hspared (hfree hlinked.lastDeclared?_eq_none) _
  | closed => exact guarded_close hspared _

/-- The guard is kept in every moment. -/
theorem moment_guarded (k : Nat) :
    c.KeepsReserved master (c.moment master k) ∧ c.Guarded master (c.moment master k) := by
  apply c.moment_induction (P := fun m => c.KeepsReserved master m ∧ c.Guarded master m)
  · exact ⟨⟨.ofDesign master, fun n hn => (nomatch hn)⟩,
      .master (InHand.onWay_ofDesign _ _), .nil _⟩
  · intro inner outer s m hmove ⟨hreserved, hway, hspared⟩
    exact ⟨hmove.keepsReserved hreserved.1 hreserved.2, hmove.guarded hreserved.1 hway hspared⟩

/-- The guard is kept to the end. -/
theorem compose_guarded : c.Guarded master (.ended (c.compose master)) := by
  obtain ⟨k, hk⟩ := c.exists_moment_eq_ended master
  exact hk ▸ (moment_guarded k).2

variable (c master)

/-- A composition misses no placeholder. At every depth all that were listed for a design hold a
sub-report as long as the design is in hand, and those that are left are unchanged. A placeholder
that quotes a name which the master declares ends the composition before anything is asked about the
name, and so a placeholder of the master is bound once its template is compiled. -/
structure WellGuarded : Prop where
  known : ∀ pos, (c.compose master).outcome ≠ .error (.unknownPlaceholder pos)
  standing : ∀ k inner outer s, c.moment master k = .working inner outer s →
    ∃ d, master.StandsAt c.store outer.length inner.name d ∧
      (∃ done, done ++ inner.left = d.placeholders) ∧
      (∀ p ∈ d.placeholders, Binder.isSubreportAt inner.design p.pos = true) ∧
      ∀ p ∈ inner.left, p ∈ inner.design.placeholders
  refused : ∀ k inner outer s p ps n, c.moment master k = .working inner outer s →
    inner.left = p :: ps → Quotes p.expression n → master.Declares n →
    ∃ existing, master.LastDeclares n existing ∧ c.moment master (k + 1) =
      .ended ⟨InHand.outermost inner.design outer, s.events,
        .error (.bindingConflict n existing p.span)⟩
  spared : ∀ n, master.Declares n →
    n ∉ (c.compose master).lookedUp ∧ n ∉ Event.templates (c.compose master).events
  bound : ∀ k inner s p ps n, c.moment master k = .working inner [] s →
    inner.left = p :: ps → Quotes p.expression n → s.isCompiled n = true →
    ∃ b d, (inner.binder.bind inner.design p n : Binder.Bound ε).result =
        .ok (b, d) ∧
      c.moment master (k + 1) = .working ⟨inner.name, ps, b, d⟩ [] s

/-- Whatever the master, the store and the compiler are, the composition is well guarded. -/
theorem composition_well_guarded : c.WellGuarded master := by
  have hended : c.Guarded master (.ended (c.compose master)) := compose_guarded
  have hmoment {k : Nat} {inner : InHand} {outer : List InHand} {s : Progress α}
      (hk : c.moment master k = .working inner outer s) :
      (∀ n, s.isCompiled n = true → ¬master.Declares n) ∧ c.OnTheirWay master inner outer := by
    have hguarded : c.KeepsReserved master (c.moment master k) ∧
        c.Guarded master (c.moment master k) := moment_guarded k
    rw [hk] at hguarded
    exact ⟨fun n hn => (master.lastDeclared?_eq_none_iff n).mp (hguarded.1.2 n hn), hguarded.2.1⟩
  constructor
  case known => exact hended.1
  case standing =>
    intro k inner outer s hk
    obtain ⟨d, hstands, hway⟩ := (hmoment hk).2.exists_standsAt
    refine ⟨d, hstands, ?_, fun p hp => hway.isSubreportAt hp, fun p hp => hway.mem_placeholders hp⟩
    obtain ⟨done, hdone, -⟩ := hway
    exact ⟨done, hdone⟩
  case refused =>
    intro k inner outer s p ps n hk hleft hquotes hn
    have hname : p.name? = some n := (p.name?_eq_some_iff n).mpr hquotes
    have hunknown : s.isCompiled n = false :=
      Bool.eq_false_iff.mpr fun hknown => (hmoment hk).1 n hknown hn
    obtain ⟨existing, htaken⟩ := Option.ne_none_iff_exists'.mp fun hnone =>
      (master.lastDeclared?_eq_none_iff n).mp hnone hn
    refine ⟨existing, Design.lastDeclared?_eq_some_iff.mp htaken, ?_⟩
    rw [moment_succ, hk, (Moves.conflict hleft hname hunknown htaken).next_eq]
    rfl
  case spared =>
    intro n hn
    exact ⟨fun hmem => hended.2.lookups n hmem hn, fun hmem => hended.2.templates n hmem hn⟩
  case bound =>
    intro k inner s p ps n hk hleft hquotes hknown
    have hname : p.name? = some n := (p.name?_eq_some_iff n).mpr hquotes
    obtain ⟨hcompiled, hway⟩ := hmoment hk
    cases hway with
    | master way =>
      obtain ⟨b, d, hbind⟩ := way.bind_eq_ok (ε := ε) hleft hname (hcompiled n hknown)
      refine ⟨b, d, hbind, ?_⟩
      rw [moment_succ, hk, (Moves.bound hleft hname hknown hbind).next_eq]

end Composer

end ReportAssembly
