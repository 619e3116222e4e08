import Mathlib.Logic.Function.Iterate
import ReportAssembly.Proofs.Acceptance

/-!
A composition from moment to moment. The designs in hand stand innermost first, each with the
placeholders that are left of it; one move deals with one placeholder, or with a design that has
none left. Main statement: the moves come to an end, and what they end in is the composition.
-/

namespace ReportAssembly

structure InHand where
  name : String
  left : List Placeholder
  binder : Binder
  design : Design

namespace InHand

def ofDesign (name : String) (d : Design) : InHand :=
  ⟨name, d.placeholders, .empty, d⟩

def chain (inner : InHand) (outer : List InHand) : List String :=
  (outer.map (·.name)).reverse ++ [inner.name]

def outermost (d : Design) (outer : List InHand) : Design :=
  (outer.getLast?.map (·.design)).getD d

theorem chain_cons (inner next : InHand) (outer : List InHand) :
    chain inner (next :: outer) = chain next outer ++ [inner.name] := by
  rw [chain, chain, List.map_cons, List.reverse_cons]

theorem outermost_cons (d : Design) (next : InHand) (outer : List InHand) :
    outermost d (next :: outer) = outermost next.design outer := by
  rw [outermost, outermost, List.getLast?_cons]
  cases outer.getLast? <;> rfl

end InHand

inductive Moment (α ε : Type)
  | working (inner : InHand) (outer : List InHand) (s : Progress α)
  | ended (run : Composition α ε)

namespace Moment

variable {α ε : Type}

def after (inner : InHand) (outer : List InHand) (t : Step α ε Unit) : Moment α ε :=
  match t.outcome with
  | .ok () => working inner outer t.progress
  | .error e => ended ⟨InHand.outermost inner.design outer, t.progress.events, .error e⟩

def events : Moment α ε → List Event
  | working _ _ s => s.events
  | ended run => run.events

theorem after_of_ok {inner : InHand} {outer : List InHand} {t : Step α ε Unit}
    (h : t.outcome = .ok ()) : after inner outer t = working inner outer t.progress := by
  rw [after, h]

/-- A failed step ends the composition where it is. -/
theorem after_of_error {inner : InHand} {outer : List InHand} {t : Step α ε Unit}
    {e : ComposeError ε} (h : t.outcome = .error e) :
    after inner outer t =
      ended ⟨InHand.outermost inner.design outer, t.progress.events, .error e⟩ := by
  rw [after, h]

/-- What follows a step has a property if it has it in either case. -/
theorem after_cases {P : Moment α ε → Prop} {inner : InHand} {outer : List InHand}
    {t : Step α ε Unit} (ok : t.outcome = .ok () → P (working inner outer t.progress))
    (error : ∀ e, t.outcome = .error e →
      P (ended ⟨InHand.outermost inner.design outer, t.progress.events, .error e⟩)) :
    P (after inner outer t) := by
  unfold after
  cases h : t.outcome with
  | ok _ => exact ok h
  | error e => exact error e h

theorem events_after (inner : InHand) (outer : List InHand) (t : Step α ε Unit) :
    (after inner outer t).events = t.progress.events := by
  unfold after
  cases t.outcome <;> rfl

end Moment

namespace Composer

variable {α ε : Type} (c : Composer α ε) (reserved : String → Option ValueType)

def close (d : Design) (s : Progress α) : Composition α ε :=
  match c.compile d with
  | .error cause =>
    ⟨d, s.events ++ [.compile none d false], .error (.masterRejected d.name cause)⟩
  | .ok report => ⟨d, s.events ++ [.compile none d true], .ok ⟨report, s.compiled⟩⟩

def meet (inner : InHand) (outer : List InHand) (p : Placeholder) (name : String)
    (s : Progress α) : Moment α ε :=
  match reserved name with
  | some existing => .after inner outer ⟨s, .error (.bindingConflict name existing p.span)⟩
  | none =>
    if c.nested = true ∧ name ∈ InHand.chain inner outer then
      .after inner outer ⟨s, .error (.circularReference (InHand.chain inner outer ++ [name]))⟩
    else
      let s := s.record (.lookup name (c.store.lookup name))
      match (c.store.lookup name).design name p with
      | .error e => .after inner outer ⟨s, .error e⟩
      | .ok d =>
        if c.nested = true then .working (.ofDesign name d) (inner :: outer) s
        else .after inner outer (c.compileTemplate name d s)

def next : Moment α ε → Moment α ε
  | .ended run => .ended run
  | .working inner outer s =>
    match inner.left, outer with
    | [], [] => .ended (c.close inner.design s)
    | [], around :: outer =>
      .after around outer (c.compileTemplate inner.name inner.design s)
    | p :: ps, outer =>
      match p.templateName with
      | .error e => .after inner outer ⟨s, .error e⟩
      | .ok name =>
        if s.isCompiled name then
          match (inner.binder.bind inner.design p name).result with
          | .error e => .after inner outer ⟨s, .error e⟩
          | .ok (b, d) => .working ⟨inner.name, ps, b, d⟩ outer s
        else c.meet reserved inner outer p name s

inductive Moves (inner : InHand) (s : Progress α) : List InHand → Moment α ε → Prop
  | unnamed {outer : List InHand} {p : Placeholder} {ps : List Placeholder} {e : ComposeError ε}
      (left : inner.left = p :: ps) (name : p.templateName = .error e) :
      Moves inner s outer (.after inner outer ⟨s, .error e⟩)
  | unbound {outer : List InHand} {p : Placeholder} {ps : List Placeholder} {n : String}
      {e : ComposeError ε} (left : inner.left = p :: ps) (name : p.name? = some n)
      (known : s.isCompiled n = true)
      (bind : (inner.binder.bind inner.design p n).result = .error e) :
      Moves inner s outer (.after inner outer ⟨s, .error e⟩)
  | bound {outer : List InHand} {p : Placeholder} {ps : List Placeholder} {n : String} {b : Binder}
      {d : Design} (left : inner.left = p :: ps) (name : p.name? = some n)
      (known : s.isCompiled n = true)
      (bind : (inner.binder.bind inner.design p n : Binder.Bound ε).result = .ok (b, d)) :
      Moves inner s outer (.working ⟨inner.name, ps, b, d⟩ outer s)
  | conflict {outer : List InHand} {p : Placeholder} {ps : List Placeholder} {n : String}
      {existing : ValueType} (left : inner.left = p :: ps) (name : p.name? = some n)
      (unknown : s.isCompiled n = false) (taken : reserved n = some existing) :
      Moves inner s outer (.after inner outer ⟨s, .error (.bindingConflict n existing p.span)⟩)
  | circular {outer : List InHand} {p : Placeholder} {ps : List Placeholder} {n : String}
      (left : inner.left = p :: ps) (name : p.name? = some n) (unknown : s.isCompiled n = false)
      (free : reserved n = none) (nested : c.nested = true)
      (inHand : n ∈ InHand.chain inner outer) :
      Moves inner s outer
        (.after inner outer ⟨s, .error (.circularReference (InHand.chain inner outer ++ [n]))⟩)
  | missing {outer : List InHand} {p : Placeholder} {ps : List Placeholder} {n : String}
      {e : ComposeError ε} (left : inner.left = p :: ps) (name : p.name? = some n)
      (unknown : s.isCompiled n = false) (free : reserved n = none)
      (apart : ¬(c.nested = true ∧ n ∈ InHand.chain inner outer))
      (lost : (c.store.lookup n).design n p = .error e) :
      Moves inner s outer
        (.after inner outer ⟨s.record (.lookup n (c.store.lookup n)), .error e⟩)
  | entered {outer : List InHand} {p : Placeholder} {ps : List Placeholder} {n : String}
      {d : Design} (left : inner.left = p :: ps) (name : p.name? = some n)
      (unknown : s.isCompiled n = false) (free : reserved n = none) (nested : c.nested = true)
      (apart : n ∉ InHand.chain inner outer) (found : (c.store.lookup n).outcome = .ok d) :
      Moves inner s outer
        (.working (.ofDesign n d) (inner :: outer) (s.record (.lookup n (c.store.lookup n))))
  | plain {outer : List InHand} {p : Placeholder} {ps : List Placeholder} {n : String} {d : Design}
      (left : inner.left = p :: ps) (name : p.name? = some n) (unknown : s.isCompiled n = false)
      (free : reserved n = none) (flat : c.nested = false)
      (found : (c.store.lookup n).outcome = .ok d) :
      Moves inner s outer (.after inner outer
        (c.compileTemplate n d (s.record (.lookup n (c.store.lookup n)))))
  | returned {around : InHand} {outer : List InHand} (left : inner.left = []) :
      Moves inner s (around :: outer)
        (.after around outer (c.compileTemplate inner.name inner.design s))
  | closed (left : inner.left = []) : Moves inner s [] (.ended (c.close inner.design s))

variable {c reserved} {inner : InHand} {outer : List InHand} {s : Progress α} {m : Moment α ε}
  {p : Placeholder} {ps : List Placeholder} {n : String}

theorem next_of_name (left : inner.left = p :: ps) (name : p.name? = some n) :
    c.next reserved (.working inner outer s) =
      if s.isCompiled n then
        match (inner.binder.bind inner.design p n : Binder.Bound ε).result with
        | .error e => .after inner outer ⟨s, .error e⟩
        | .ok (b, d) => .working ⟨inner.name, ps, b, d⟩ outer s
      else c.meet reserved inner outer p n s := by
  have htemplate := (p.templateName_eq_ok_iff_name? (ε := ε) n).mpr name
  simp only [next, left, htemplate]

theorem next_of_unknown (left : inner.left = p :: ps) (name : p.name? = some n)
    (unknown : s.isCompiled n = false) :
    c.next reserved (.working inner outer s) = c.meet reserved inner outer p n s := by
  rw [next_of_name left name, unknown]
  rfl

/-- Beyond the checks, a name is looked up and its design is taken in hand or compiled. -/
theorem meet_of_apart (free : reserved n = none)
    (apart : ¬(c.nested = true ∧ n ∈ InHand.chain inner outer)) :
    c.meet reserved inner outer p n s =
      match (c.store.lookup n).design n p with
      | .error e => .after inner outer ⟨s.record (.lookup n (c.store.lookup n)), .error e⟩
      | .ok d =>
        if c.nested = true then
          .working (.ofDesign n d) (inner :: outer) (s.record (.lookup n (c.store.lookup n)))
        else .after inner outer
          (c.compileTemplate n d (s.record (.lookup n (c.store.lookup n)))) := by
  rw [meet, free]
  exact if_neg apart

/-- A move is made under its conditions. -/
theorem Moves.next_eq (h : c.Moves reserved inner s outer m) :
    c.next reserved (.working inner outer s) = m := by
  cases h with
  | unnamed left name => simp only [next, left, name]
  | unbound left name known bind =>
    rw [next_of_name left name, if_pos known, bind]
  | bound left name known bind =>
    rw [next_of_name left name, if_pos known, bind]
  | conflict left name unknown taken => rw [next_of_unknown left name unknown, meet, taken]
  | circular left name unknown free nested inHand =>
    rw [next_of_unknown left name unknown, meet, free]
    exact if_pos ⟨nested, inHand⟩
  | missing left name unknown free apart lost =>
    rw [next_of_unknown left name unknown, meet_of_apart free apart, lost]
  | @entered _ p _ n d left name unknown free nested apart found =>
    have hdesign := Answer.design_eq_ok_of_outcome (ε := ε) n p found
    rw [next_of_unknown left name unknown, meet_of_apart free fun h => apart h.2, hdesign]
    exact if_pos nested
  | @plain _ p _ n d left name unknown free flat found =>
    have hdesign := Answer.design_eq_ok_of_outcome (ε := ε) n p found
    have hflat : ¬c.nested = true := Bool.eq_false_iff.mp flat
    rw [next_of_unknown left name unknown, meet_of_apart free fun h => hflat h.1, hdesign]
    exact if_neg hflat
  | returned left => simp only [next, left]
  | closed left => simp only [next, left]

variable (c reserved)

/-- In every moment before the end one of the moves is made. -/
theorem moves_next (inner : InHand) (outer : List InHand) (s : Progress α) :
    c.Moves reserved inner s outer (c.next reserved (.working inner outer s)) := by
  have hmove {m : Moment α ε} (h : c.Moves reserved inner s outer m) :
      c.Moves reserved inner s outer (c.next reserved (.working inner outer s)) :=
    h.next_eq.symm ▸ h
  cases hleft : inner.left with
  | nil =>
    cases outer with
    | nil => exact hmove (.closed hleft)
    | cons around outer => exact hmove (.returned hleft)
  | cons p ps =>
    cases htemplate : (p.templateName : Except (ComposeError ε) String) with
    | error e => exact hmove (.unnamed hleft htemplate)
    | ok n =>
      have hname : p.name? = some n := (p.templateName_eq_ok_iff_name? n).mp htemplate
      cases hknown : s.isCompiled n with
      | true =>
        cases hbind : (inner.binder.bind inner.design p n : Binder.Bound ε).result with
        | error e => exact hmove (.unbound hleft hname hknown hbind)
        | ok bound => exact hmove (.bound hleft hname hknown hbind)
      | false =>
        cases hres : reserved n with
        | some existing => exact hmove (.conflict hleft hname hknown hres)
        | none =>
          by_cases hc : c.nested = true ∧ n ∈ InHand.chain inner outer
          · exact hmove (.circular hleft hname hknown hres hc.1 hc.2)
          · cases hdesign : ((c.store.lookup n).design n p : Except (ComposeError ε) Design) with
            | error e => exact hmove (.missing hleft hname hknown hres hc hdesign)
            | ok d =>
              have hfound := Answer.design_eq_ok hdesign
              cases hn : c.nested with
              | true =>
                exact hmove (.entered hleft hname hknown hres hn (fun h => hc ⟨hn, h⟩) hfound)
              | false => exact hmove (.plain hleft hname hknown hres hn hfound)

def Leads (m m' : Moment α ε) : Prop :=
  ∃ k, (c.next reserved)^[k] m = m'

variable {c reserved}

theorem Leads.refl (m : Moment α ε) : c.Leads reserved m m :=
  ⟨0, rfl⟩

theorem Leads.trans {m m' m'' : Moment α ε} (h : c.Leads reserved m m')
    (h' : c.Leads reserved m' m'') : c.Leads reserved m m'' := by
  obtain ⟨k, rfl⟩ := h
  obtain ⟨j, rfl⟩ := h'
  exact ⟨j + k, Function.iterate_add_apply _ j k m⟩

theorem Moves.leads (h : c.Moves reserved inner s outer m) :
    c.Leads reserved (.working inner outer s) m :=
  ⟨1, h.next_eq⟩

variable (c reserved)

def LeadsThrough (chain : List String) (ps : List Placeholder) (b : Binder) (d : Design)
    (s : Progress α) (d' : Design) (t : Step α ε Unit) : Prop :=
  ∀ name outer, InHand.chain ⟨name, ps, b, d⟩ outer = chain → ∃ b',
    c.Leads reserved (.working ⟨name, ps, b, d⟩ outer s) (.after ⟨name, [], b', d'⟩ outer t)

def LeadsTo (chain : List String) (p : Placeholder) (name : String) (s : Progress α)
    (t : Step α ε Unit) : Prop :=
  (t.outcome = .ok () → t.progress.isCompiled name = true) ∧
    ∀ inner outer ps, InHand.chain inner outer = chain → inner.left = p :: ps →
      p.name? = some name →
      c.Leads reserved (.working inner outer s) (.after inner outer t)

variable {c reserved}

theorem isCompiled_compileTemplate {name : String} {d : Design} {s : Progress α}
    (h : (c.compileTemplate name d s).outcome = .ok ()) :
    (c.compileTemplate name d s).progress.isCompiled name = true := by
  obtain ⟨artifact, -, hprogress⟩ := compileTemplate_eq_ok h
  rw [hprogress]
  simp [Progress.isCompiled, Progress.complete]

variable (c reserved)

/-- The moves go the way of the recursion, at every depth. -/
theorem run_leads :
    (∀ chain ps b d s, c.LeadsThrough reserved chain ps b d s
      (c.bindAll reserved chain ps b d s).1 (c.bindAll reserved chain ps b d s).2) ∧
    ∀ chain p name s, c.LeadsTo reserved chain p name s (c.ensure reserved chain p name s) := by
  refine c.run_induction reserved (c.LeadsThrough reserved) (c.LeadsTo reserved)
    ?nil ?unnamed ?unready ?unbound ?cons ?known ?conflict ?circular ?missing ?inner ?composed
    ?plain
  -- What is in hand around a design stays as it is until the design is done or has failed, so the
  -- moves are followed for all of it at once.
  case nil => exact fun chain b d s name outer _ => ⟨b, .refl _⟩
  case unnamed =>
    intro chain p ps b d s e he name outer _
    exact ⟨b, (Moves.unnamed rfl he).leads⟩
  case unready =>
    intro chain p ps b d s n t e hname hE he name outer hchain
    have hleads := hE.2 ⟨name, p :: ps, b, d⟩ outer ps hchain rfl hname
    rw [Moment.after_of_error he] at hleads
    exact ⟨b, (Moment.after_of_error he).symm ▸ hleads⟩
  case unbound =>
    intro chain p ps b d s n t e hname hE hok hbind name outer hchain
    have hleads := hE.2 ⟨name, p :: ps, b, d⟩ outer ps hchain rfl hname
    rw [Moment.after_of_ok hok] at hleads
    exact ⟨b, hleads.trans (Moves.unbound rfl hname (hE.1 hok) hbind).leads⟩
  case cons =>
    intro chain p ps b d s n t b' d' d'' r hname hE hok hbind ih name outer hchain
    have hleads := hE.2 ⟨name, p :: ps, b, d⟩ outer ps hchain rfl hname
    rw [Moment.after_of_ok hok] at hleads
    obtain ⟨b'', hrest⟩ := ih name outer hchain
    have hbound : c.Leads reserved (.working ⟨name, p :: ps, b, d⟩ outer t.progress)
        (.working ⟨name, ps, b', d'⟩ outer t.progress) :=
      (Moves.bound rfl hname (hE.1 hok) hbind).leads
    exact ⟨b'', (hleads.trans hbound).trans hrest⟩
  case known => exact fun chain p name s hs => ⟨fun _ => hs, fun _ _ _ _ _ _ => .refl _⟩
  case conflict =>
    intro chain p name s existing hs hres
    refine ⟨fun hok => (nomatch hok), fun inner outer ps _ hleft hname => ?_⟩
    exact (Moves.conflict hleft hname hs hres).leads
  case circular =>
    intro chain p name s hs hres hn hmem
    refine ⟨fun hok => (nomatch hok), fun inner outer ps hchain hleft hname => ?_⟩
    subst hchain
    exact (Moves.circular hleft hname hs hres hn hmem).leads
  case missing =>
    intro chain p name s e hs hres hc he
    refine ⟨fun hok => (nomatch hok), fun inner outer ps hchain hleft hname => ?_⟩
    subst hchain
    exact (Moves.missing hleft hname hs hres hc he).leads
  case inner =>
    intro chain p name s d d' t e hs hres hn hmem hd hB he
    refine ⟨fun hok => (nomatch he.symm.trans hok), fun inner outer ps hchain hleft hname => ?_⟩
    subst hchain
    have hentered := (Moves.entered hleft hname hs hres hn hmem hd).leads
    obtain ⟨b', hinner⟩ := hB name (inner :: outer) (InHand.chain_cons _ inner outer)
    rw [Moment.after_of_error he, InHand.outermost_cons] at hinner
    rw [Moment.after_of_error he]
    exact hentered.trans hinner
  case composed =>
    intro chain p name s d d' t hs hres hn hmem hd hB hok
    refine ⟨isCompiled_compileTemplate, fun inner outer ps hchain hleft hname => ?_⟩
    subst hchain
    have hentered := (Moves.entered hleft hname hs hres hn hmem hd).leads
    obtain ⟨b', hinner⟩ := hB name (inner :: outer) (InHand.chain_cons _ inner outer)
    rw [Moment.after_of_ok hok] at hinner
    exact (hentered.trans hinner).trans (Moves.returned rfl).leads
  case plain =>
    intro chain p name s d hs hres hn hd
    refine ⟨isCompiled_compileTemplate, fun inner outer ps _ hleft hname => ?_⟩
    exact (Moves.plain hleft hname hs hres hn hd).leads

def moment (master : Design) (k : Nat) : Moment α ε :=
  (c.next master.lastDeclared?)^[k] (.working (.ofDesign master.name master) [] .start)

theorem moment_succ (master : Design) (k : Nat) :
    c.moment master (k + 1) = c.next master.lastDeclared? (c.moment master k) :=
  Function.iterate_succ_apply' _ k _

/-- A composition comes to its end. -/
theorem exists_moment_eq_ended (master : Design) :
    ∃ k, c.moment master k = .ended (c.compose master) := by
  generalize hrun : c.bindAll master.lastDeclared? [master.name] master.placeholders .empty master
    .start = run
  obtain ⟨d, t⟩ := run
  have hthrough := (c.run_leads master.lastDeclared?).1 [master.name] master.placeholders .empty
    master .start
  rw [hrun] at hthrough
  obtain ⟨b, hleads⟩ := hthrough master.name [] rfl
  cases hout : t.outcome with
  | error e =>
    rw [Moment.after_of_error hout] at hleads
    rw [c.compose_eq_of_error hrun hout]
    exact hleads
  | ok u =>
    rw [Moment.after_of_ok hout] at hleads
    rw [c.compose_eq_of_ok hrun hout]
    exact hleads.trans (Moves.closed rfl).leads

/-- After its end a composition stays as it is. -/
theorem moment_eq_ended_of_le {master : Design} {k j : Nat} {run : Composition α ε}
    (h : c.moment master k = .ended run) (hkj : k ≤ j) : c.moment master j = .ended run := by
  induction j, hkj using Nat.le_induction with
  | base => exact h
  | succ j _ ih =>
    rw [moment_succ, ih]
    rfl

/-- A composition has one end. -/
theorem compose_eq_of_moment {master : Design} {k : Nat} {run : Composition α ε}
    (h : c.moment master k = .ended run) : c.compose master = run := by
  obtain ⟨j, hj⟩ := c.exists_moment_eq_ended master
  have hmax := c.moment_eq_ended_of_le h (le_max_left k j)
  rw [c.moment_eq_ended_of_le hj (le_max_right k j)] at hmax
  exact Moment.ended.inj hmax

/-- What holds in the beginning and is kept by every move holds in every moment. -/
theorem moment_induction {master : Design} {P : Moment α ε → Prop}
    (start : P (.working (.ofDesign master.name master) [] .start))
    (step : ∀ inner outer s m, c.Moves master.lastDeclared? inner s outer m →
      P (.working inner outer s) → P m) (k : Nat) : P (c.moment master k) := by
  induction k with
  | zero => exact start
  | succ k ih =>
    rw [moment_succ]
    cases hk : c.moment master k with
    | ended run =>
      rw [hk] at ih
      exact ih
    | working inner outer s =>
      rw [hk] at ih
      exact step inner outer s _ (c.moves_next _ inner outer s) ih

/-- What is kept by every move holds at the end of a composition. -/
theorem compose_induction {master : Design} {P : Moment α ε → Prop}
    (start : P (.working (.ofDesign master.name master) [] .start))
    (step : ∀ inner outer s m, c.Moves master.lastDeclared? inner s outer m →
      P (.working inner outer s) → P m) : P (.ended (c.compose master)) := by
  obtain ⟨k, hk⟩ := c.exists_moment_eq_ended master
  exact hk ▸ c.moment_induction start step k

variable {c} {c' : Composer α ε}

/-- Two compositions that keep pace are related at the end as they are on the way. -/
theorem compose_related {master master' : Design} (R : Moment α ε → Moment α ε → Prop)
    (start : R (c.moment master 0) (c'.moment master' 0))
    (step : ∀ k, R (c.moment master k) (c'.moment master' k) →
      R (c.moment master (k + 1)) (c'.moment master' (k + 1))) :
    R (.ended (c.compose master)) (.ended (c'.compose master')) := by
  obtain ⟨k, hk⟩ := c.exists_moment_eq_ended master
  obtain ⟨j, hj⟩ := c'.exists_moment_eq_ended master'
  have hrelated (i : Nat) : R (c.moment master i) (c'.moment master' i) := by
    induction i with
    | zero => exact start
    | succ i ih => exact step i ih
  have hmax := hrelated (max k j)
  rwa [moment_eq_ended_of_le c hk (le_max_left k j),
    moment_eq_ended_of_le c' hj (le_max_right k j)] at hmax

end Composer

end ReportAssembly
