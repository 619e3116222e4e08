import ReportAssembly.Proofs.Completion
import ReportAssembly.Proofs.Journals

namespace ReportAssembly

variable {α ε : Type}

structure Returned.Agrees {j : Journal α} (r : Returned α ε j) (t : Step α ε Unit) : Prop where
  outcome : r.outcome = t.outcome
  compiled : r.journal.now.compiled = t.progress.compiled

/-- The ledger has those templates compiled that the run has. -/
theorem Ledger.Consistent.isCompiled_eq {nested : Bool} {master : Design} {l : Ledger α}
    {s : Progress α} (h : l.Consistent nested master) (hs : l.compiled = s.compiled) (n : String) :
    l.isCompiled n = s.isCompiled n := by
  rw [Bool.eq_iff_iff, h.isCompiled_iff, Composer.isCompiled_iff, Ledger.names, hs]

namespace Composer

variable (c : Composer α ε)

structure Matches (master : Design) (chain : List String) (s : Progress α) (j : Journal α) :
    Prop where
  sound : j.Sound c.nested master
  chain : j.now.chain = chain
  compiled : j.now.compiled = s.compiled

def BindsAlike (master : Design) (chain : List String) (ps : List Placeholder) (b : Binder)
    (d : Design) (s : Progress α) (d' : Design) (t : Step α ε Unit) : Prop :=
  ∀ j : Journal α, c.Matches master chain s j →
    (c.bindEach ps b d j).1 = d' ∧ (c.bindEach ps b d j).2.Agrees t

def SecuresAlike (master : Design) (chain : List String) (p : Placeholder) (n : String)
    (s : Progress α) (t : Step α ε Unit) : Prop :=
  ∀ j : Journal α, c.Matches master chain s j → (c.secure p n j).Agrees t

variable {c} {master : Design} {chain : List String} {p : Placeholder} {d : Design} {n : String}
  {j : Journal α} {s : Progress α}

/-- A template is delivered as it is compiled. -/
theorem deliver_agrees {r : Returned α ε j} (hs : r.journal.now.compiled = s.compiled)
    (hr : r.outcome = .ok ()) : (c.deliver n d r).Agrees (c.compileTemplate n d s) := by
  rw [deliver, hr, compileTemplate]
  cases c.compile d with
  | error cause => exact ⟨rfl, hs⟩
  | ok artifact => exact ⟨rfl, congrArg (· ++ [(n, artifact)]) hs⟩

theorem deliver_of_error {r : Returned α ε j} {e : ComposeError ε} (hr : r.outcome = .error e) :
    c.deliver n d r = r.failing e := by
  rw [deliver, hr]

namespace Matches

theorem secure_eq (h : c.Matches master chain s j) (hs : s.isCompiled n = false) :
    c.secure p n j = c.supply p n j := by
  rw [secure, h.sound.now.isCompiled_eq h.compiled, hs]
  rfl

theorem reserved_eq (h : c.Matches master chain s j) (n : String) :
    j.now.reserved[n]? = master.lastDeclared? n :=
  h.sound.now.reserved n

theorem apart (h : c.Matches master chain s j) (hapart : ¬(c.nested = true ∧ n ∈ chain)) :
    ¬(c.nested = true ∧ n ∈ j.now.chain) :=
  h.chain.symm ▸ hapart

/-- A template taken in hand puts its name on the chain. -/
theorem push (h : c.Matches master chain s j) (hs : s.isCompiled n = false)
    (hfree : master.lastDeclared? n = none) (hapart : ¬(c.nested = true ∧ n ∈ chain)) (e : Event) :
    c.Matches master (chain ++ [n]) (s.record e) (j.turn (j.now.push n)) where
  sound := h.sound.turn (h.sound.now.push (h.sound.now.admits
    ((h.sound.now.isCompiled_eq h.compiled n).trans hs) ((h.reserved_eq n).trans hfree)
    (h.apart hapart)))
  chain := congrArg (· ++ [n]) h.chain
  compiled := h.compiled

/-- A call that returns leaves a journal for what comes next. -/
theorem next (h : c.Matches master chain s j) {j' : Journal α} (hkeeps : c.Keeps j j')
    {s' : Progress α} (hcompiled : j'.now.compiled = s'.compiled) : c.Matches master chain s' j' :=
  ⟨hkeeps.sound master h.sound, hkeeps.follows.chain.trans h.chain, hcompiled⟩

/-- A template in a nested composition, whose placeholders are bound first. -/
theorem secure_nested {d' : Design} {t : Step α ε Unit} (h : c.Matches master chain s j)
    (hs : s.isCompiled n = false) (hfree : master.lastDeclared? n = none)
    (hnested : c.nested = true) (hapart : n ∉ chain) (hd : (c.store.lookup n).outcome = .ok d)
    (hinner : c.BindsAlike master (chain ++ [n]) d.placeholders .empty d
      (s.record (.lookup n (c.store.lookup n))) d' t) :
    ∃ r : Returned α ε j, r.Agrees t ∧ c.secure p n j = c.deliver n d' r := by
  have hapart : ¬(c.nested = true ∧ n ∈ chain) := fun hmem => hapart hmem.2
  obtain ⟨hd', hagrees⟩ := hinner _ (h.push hs hfree hapart _)
  refine ⟨(c.bindEach d.placeholders .empty d (j.turn (j.now.push n))).2.popped,
    ⟨hagrees.outcome, hagrees.compiled⟩, ?_⟩
  have hdesign := Answer.design_eq_ok_of_outcome (ε := ε) n p hd
  rw [h.secure_eq hs, supply_of_design ((h.reserved_eq n).trans hfree) (h.apart hapart) hdesign,
    if_pos hnested, hd']

end Matches

variable (c master)

/-- With a ledger every task comes to what it comes to without one. -/
theorem run_alike :
    (∀ chain ps b d s, c.BindsAlike master chain ps b d s
      (c.bindAll master.lastDeclared? chain ps b d s).1
      (c.bindAll master.lastDeclared? chain ps b d s).2) ∧
    ∀ chain p n s, c.SecuresAlike master chain p n s
      (c.ensure master.lastDeclared? chain p n s) := by
  refine c.run_induction master.lastDeclared? (c.BindsAlike master) (c.SecuresAlike master)
    ?nil ?unnamed ?unready ?unbound ?cons ?known ?conflict ?circular ?missing ?inner ?composed
    ?plain
  case nil =>
    intro chain b d s j h
    rw [bindEach]
    exact ⟨rfl, rfl, h.compiled⟩
  case unnamed =>
    intro chain p ps b d s e he j h
    rw [bindEach_cons, he]
    exact ⟨rfl, rfl, h.compiled⟩
  case unready =>
    intro chain p ps b d s n t e hname hE he j h
    have hagrees := hE j h
    rw [bindEach_of_unready hname (hagrees.outcome.trans he)]
    exact ⟨rfl, he.symm, hagrees.compiled⟩
  case unbound =>
    intro chain p ps b d s n t e hname hE hok hbind j h
    have hagrees := hE j h
    rw [bindEach_of_unbound hname (hagrees.outcome.trans hok) hbind]
    exact ⟨rfl, rfl, hagrees.compiled⟩
  case cons =>
    intro chain p ps b d s n t b' d' d'' t' hname hE hok hbind ih j h
    have hagrees := hE j h
    have hkeeps : c.Keeps j (c.secure p n j).journal := secure_keeps ((c.calls_keep).2 p n j)
    obtain ⟨hdesign, hrest⟩ := ih _ (h.next hkeeps hagrees.compiled)
    rw [bindEach_of_bound hname (hagrees.outcome.trans hok) hbind]
    exact ⟨hdesign, hrest.outcome, hrest.compiled⟩
  case known =>
    intro chain p n s hs j h
    rw [secure, h.sound.now.isCompiled_eq h.compiled, hs]
    exact ⟨rfl, h.compiled⟩
  case conflict =>
    intro chain p n s existing hs hres j h
    rw [h.secure_eq hs, supply_of_reserved ((h.reserved_eq n).trans hres)]
    exact ⟨rfl, h.compiled⟩
  case circular =>
    intro chain p n s hs hres hnested hmem j h
    have hcircular : c.nested = true ∧ n ∈ j.now.chain := ⟨hnested, h.chain.symm ▸ hmem⟩
    rw [h.secure_eq hs, supply_of_circular ((h.reserved_eq n).trans hres) hcircular, h.chain]
    exact ⟨rfl, h.compiled⟩
  case missing =>
    intro chain p n s e hs hres hapart he j h
    rw [h.secure_eq hs, supply_of_missing ((h.reserved_eq n).trans hres) (h.apart hapart) he]
    exact ⟨rfl, h.compiled⟩
  case inner =>
    intro chain p n s d d' t e hs hres hnested hapart hd hB he j h
    obtain ⟨r, hagrees, hsecure⟩ := h.secure_nested hs hres hnested hapart hd hB
    rw [hsecure, deliver_of_error (hagrees.outcome.trans he)]
    exact ⟨he.symm, hagrees.compiled⟩
  case composed =>
    intro chain p n s d d' t hs hres hnested hapart hd hB hok j h
    obtain ⟨r, hagrees, hsecure⟩ := h.secure_nested hs hres hnested hapart hd hB
    rw [hsecure]
    exact deliver_agrees hagrees.compiled (hagrees.outcome.trans hok)
  case plain =>
    intro chain p n s d hs hres hflat hd j h
    have hflat : ¬c.nested = true := Bool.eq_false_iff.mp hflat
    have hapart : ¬(c.nested = true ∧ n ∈ chain) := fun hmem => hflat hmem.1
    have hdesign := Answer.design_eq_ok_of_outcome (ε := ε) n p hd
    rw [h.secure_eq hs, supply_of_design ((h.reserved_eq n).trans hres) (h.apart hapart) hdesign,
      if_neg hflat]
    exact deliver_agrees h.compiled rfl

/-- A composition begins with the ledger of its master. -/
theorem matches_start : c.Matches master [master.name] .start (.start master) :=
  ⟨.start c.nested master, rfl, rfl⟩

/-- Both ways of composing a master come to the same. -/
theorem composeInPlace_alike :
    (c.composeInPlace master).master = (c.compose master).master ∧
      (c.composeInPlace master).outcome = (c.compose master).outcome := by
  obtain ⟨hdesign, hagrees⟩ := (c.run_alike master).1 [master.name] master.placeholders .empty
    master .start _ (c.matches_start master)
  generalize hrun : c.bindAll master.lastDeclared? [master.name] master.placeholders .empty master
    .start = run at hdesign hagrees
  obtain ⟨d, t⟩ := run
  rw [composeInPlace]
  dsimp only
  rw [hdesign, hagrees.outcome]
  cases ht : t.outcome with
  | error e =>
    rw [c.compose_eq_of_error hrun ht]
    exact ⟨rfl, rfl⟩
  | ok u =>
    rw [c.compose_eq_of_ok hrun ht]
    dsimp only
    rw [hagrees.compiled]
    cases c.compile d with
    | error cause => exact ⟨rfl, rfl⟩
    | ok report => exact ⟨rfl, rfl⟩

/-- The journal of a composition is that of the placeholders of its master. -/
theorem composeInPlace_journal : (c.composeInPlace master).journal =
    (c.bindEach master.placeholders .empty master (.start master)).2.journal := by
  rw [composeInPlace]
  dsimp only
  split
  · rfl
  · split <;> rfl

structure KeepsLedger : Prop where
  /-- The composition with a ledger is the composition. -/
  master_eq : (c.composeInPlace master).master = (c.compose master).master
  outcome_eq : (c.composeInPlace master).outcome = (c.compose master).outcome
  /-- From its beginning to its end the ledger is consistent. -/
  begun : (c.composeInPlace master).journal.Follows (.start master)
  consistent : ∀ l ∈ (c.composeInPlace master).journal.visited, l.Consistent c.nested master
  /-- A call restores the chain and keeps what was compiled, whatever its outcome. -/
  bound : ∀ ps b d j, (c.bindEach ps b d j).2.journal.Follows j
  supplied : ∀ p n j, (c.supply p n j).journal.Follows j
  /-- A call that succeeds in compiling a template records it last. -/
  added : ∀ p n (j : Journal α), (c.supply p n j).outcome = .ok () → ∃ made artifact,
    (c.supply p n j).journal.now.compiled = j.now.compiled ++ made ++ [(n, artifact)]

/-- Whatever the master, the store and the compiler are, a composition keeps its ledger. -/
theorem composition_keeps_ledger : c.KeepsLedger master := by
  obtain ⟨hmaster, houtcome⟩ := c.composeInPlace_alike master
  have hkeeps : c.Keeps (.start master) (c.composeInPlace master).journal := by
    rw [composeInPlace_journal]
    exact c.calls_keep.1 _ _ _ _
  constructor
  case master_eq => exact hmaster
  case outcome_eq => exact houtcome
  case begun => exact hkeeps.follows
  case consistent => exact hkeeps.sound master (c.matches_start master).sound
  case bound => exact fun ps b d j => (c.calls_keep.1 ps b d j).follows
  case supplied => exact fun p n j => (c.calls_keep.2 p n j).follows
  case added => exact fun p n j => (c.calls_keep.2 p n j).added

end Composer

end ReportAssembly
