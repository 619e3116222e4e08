import ReportAssembly.Proofs.Ledgers

/-!
Composition with one ledger for all its levels, which the calls change as they go and put in order
again before they return. A journal has every state of the ledger. Main statement: a call restores
the chain and loses nothing, and where the ledger was consistent up to the call, it is consistent up
to its return.
-/

namespace ReportAssembly

structure Journal (α : Type) where
  now : Ledger α
  past : List (Ledger α)

namespace Journal

variable {α : Type}

def start (master : Design) : Journal α :=
  ⟨.ofMaster master, []⟩

def turn (j : Journal α) (l : Ledger α) : Journal α :=
  ⟨l, j.now :: j.past⟩

def visited (j : Journal α) : List (Ledger α) :=
  j.now :: j.past

/-- What every call keeps: the chain is as it was, and nothing that was compiled or that the ledger
has been in before is lost. -/
structure Follows (after before : Journal α) : Prop where
  chain : after.now.chain = before.now.chain
  compiled : before.now.compiled <+: after.now.compiled
  visited : before.visited <:+ after.visited

def Sound (nested : Bool) (master : Design) (j : Journal α) : Prop :=
  ∀ l ∈ j.visited, l.Consistent nested master

variable {j j' j'' : Journal α} {n : String}

theorem visited_suffix_turn (j : Journal α) (l : Ledger α) : j.visited <:+ (j.turn l).visited :=
  List.suffix_cons l j.visited

/-- A name put on the chain is taken off again. -/
theorem chain_pop (h : j'.now.chain = (j.turn (j.now.push n)).now.chain) :
    (j'.turn j'.now.pop).now.chain = j.now.chain := by
  have hchain : j'.now.chain = j.now.chain ++ [n] := h
  rw [turn, Ledger.pop, hchain, List.dropLast_concat]

namespace Follows

theorem refl (j : Journal α) : j.Follows j :=
  ⟨rfl, List.prefix_rfl, List.suffix_rfl⟩

/-- What two calls in a row keep is kept. -/
theorem trans (h : j'.Follows j) (h' : j''.Follows j') : j''.Follows j where
  chain := h'.chain.trans h.chain
  compiled := h.compiled.trans h'.compiled
  visited := h.visited.trans h'.visited

/-- A template that is recorded is compiled afterwards, and nothing else changes. -/
theorem record (j : Journal α) (n : String) (artifact : α) :
    (j.turn (j.now.record n artifact)).Follows j where
  chain := rfl
  compiled := List.prefix_append _ _
  visited := j.visited_suffix_turn _

/-- What follows a name put on the chain follows what was before, once the name is off again. -/
theorem pop (h : j'.Follows (j.turn (j.now.push n))) : (j'.turn j'.now.pop).Follows j where
  chain := chain_pop h.chain
  compiled := h.compiled
  visited := ((j.visited_suffix_turn _).trans h.visited).trans (j'.visited_suffix_turn _)

end Follows

namespace Sound

variable {nested : Bool} {master : Design}

theorem start (nested : Bool) (master : Design) :
    (Journal.start master : Journal α).Sound nested master :=
  List.forall_mem_singleton.mpr (Ledger.Consistent.ofMaster nested master)

theorem now (h : j.Sound nested master) : j.now.Consistent nested master :=
  h j.now List.mem_cons_self

/-- A change that keeps the ledger consistent keeps the journal sound. -/
theorem turn (h : j.Sound nested master) {l : Ledger α} (hl : l.Consistent nested master) :
    (j.turn l).Sound nested master :=
  List.forall_mem_cons.mpr ⟨hl, h⟩

end Sound

end Journal

/-- What a call returns that was made with the journal `j`. The chain is as it was at the call, and
that is why the calls come to an end. -/
structure Returned (α ε : Type) (j : Journal α) where
  journal : Journal α
  outcome : Except (ComposeError ε) Unit
  restored : journal.now.chain = j.now.chain

namespace Returned

variable {α ε : Type} {j : Journal α}

def atOnce (j : Journal α) (outcome : Except (ComposeError ε) Unit) : Returned α ε j :=
  ⟨j, outcome, rfl⟩

def failing (t : Returned α ε j) (e : ComposeError ε) : Returned α ε j :=
  ⟨t.journal, .error e, t.restored⟩

def followedBy (t : Returned α ε j) (t' : Returned α ε t.journal) : Returned α ε j :=
  ⟨t'.journal, t'.outcome, t'.restored.trans t.restored⟩

def popped {name : String} (t : Returned α ε (j.turn (j.now.push name))) : Returned α ε j where
  journal := t.journal.turn t.journal.now.pop
  outcome := t.outcome
  restored := Journal.chain_pop t.restored

def recorded (t : Returned α ε j) (name : String) (artifact : α) : Returned α ε j where
  journal := t.journal.turn (t.journal.now.record name artifact)
  outcome := .ok ()
  restored := t.restored

end Returned

structure Conducted (α ε : Type) where
  master : Design
  journal : Journal α
  outcome : Except (ComposeError ε) (Package α)

namespace Composer

variable {α ε : Type}

def deliver (c : Composer α ε) (name : String) (d : Design) {j : Journal α} (t : Returned α ε j) :
    Returned α ε j :=
  match t.outcome with
  | .error e => t.failing e
  | .ok () =>
    match c.compile d with
    | .error cause => t.failing (.templateRejected name cause)
    | .ok artifact => t.recorded name artifact

set_option linter.unusedVariables false in
mutual

def bindEach (c : Composer α ε) (ps : List Placeholder) (b : Binder) (d : Design)
    (j : Journal α) : Design × Returned α ε j :=
  match ps with
  | [] => (d, .atOnce j (.ok ()))
  | p :: ps =>
    match p.templateName with
    | .error e => (d, .atOnce j (.error e))
    | .ok name =>
      let t := if j.now.isCompiled name then .atOnce j (.ok ()) else c.supply p name j
      match t.outcome with
      | .error e => (d, t.failing e)
      | .ok () =>
        let bound := b.bind d p name
        match bound.outcome with
        | .error e => (bound.design, t.failing e)
        | .ok () =>
          let (d, t') := c.bindEach ps bound.binder bound.design t.journal
          (d, t.followedBy t')
termination_by ((c.free j.now.chain).length, ps.length)
decreasing_by
  · exact Prod.Lex.right _ (Nat.succ_pos _)
  · rw [t.restored]
    exact Prod.Lex.right _ (Nat.lt_succ_self _)

def supply (c : Composer α ε) (p : Placeholder) (name : String) (j : Journal α) :
    Returned α ε j :=
  match j.now.reserved[name]? with
  | some existing => .atOnce j (.error (.bindingConflict name existing p.span))
  | none =>
    if hc : c.nested = true ∧ name ∈ j.now.chain then
      .atOnce j (.error (.circularReference (j.now.chain ++ [name])))
    else
      match hd : (c.store.lookup name).design name p with
      | .error e => .atOnce j (.error e)
      | .ok d =>
        if hn : c.nested = true then
          let (d, t) := c.bindEach d.placeholders .empty d (j.turn (j.now.push name))
          c.deliver name d t.popped
        else c.deliver name d (.atOnce j (.ok ()))
termination_by ((c.free j.now.chain).length, 0)
decreasing_by
  exact Prod.Lex.left _ _ (c.length_free_append_lt (fun h => hc ⟨hn, h⟩)
    (c.store.mem_names (Answer.design_eq_ok hd)))

end

def secure (c : Composer α ε) (p : Placeholder) (name : String) (j : Journal α) :
    Returned α ε j :=
  if j.now.isCompiled name then .atOnce j (.ok ()) else c.supply p name j

def composeInPlace (c : Composer α ε) (master : Design) : Conducted α ε :=
  let (d, t) := c.bindEach master.placeholders .empty master (.start master)
  match t.outcome with
  | .error e => ⟨d, t.journal, .error e⟩
  | .ok () =>
    match c.compile d with
    | .error cause => ⟨d, t.journal, .error (.masterRejected d.name cause)⟩
    | .ok report => ⟨d, t.journal, .ok ⟨report, t.journal.now.compiled⟩⟩

variable (c : Composer α ε)

theorem bindEach_cons (p : Placeholder) (ps : List Placeholder) (b : Binder) (d : Design)
    (j : Journal α) :
    c.bindEach (p :: ps) b d j =
      match p.templateName with
      | .error e => (d, .atOnce j (.error e))
      | .ok n =>
        match (c.secure p n j).outcome with
        | .error e => (d, (c.secure p n j).failing e)
        | .ok () =>
          let bound : Binder.Bound ε := b.bind d p n
          match bound.outcome with
          | .error e => (bound.design, (c.secure p n j).failing e)
          | .ok () =>
            let t' := c.bindEach ps bound.binder bound.design (c.secure p n j).journal
            (t'.1, (c.secure p n j).followedBy t'.2) := by
  rw [bindEach]
  rfl

variable {c} {p : Placeholder} {ps : List Placeholder} {b : Binder} {d : Design} {n : String}
  {j j' : Journal α} {e : ComposeError ε}

theorem bindEach_of_unready (hname : p.name? = some n)
    (hout : (c.secure p n j).outcome = .error e) :
    c.bindEach (p :: ps) b d j = (d, (c.secure p n j).failing e) := by
  rw [bindEach_cons, (p.templateName_eq_ok_iff_name? n).mpr hname]
  dsimp only
  rw [hout]

theorem bindEach_of_unbound (hname : p.name? = some n)
    (hout : (c.secure p n j).outcome = .ok ()) (hbind : (b.bind d p n).result = .error e) :
    c.bindEach (p :: ps) b d j = (d, (c.secure p n j).failing e) := by
  have hrefused := Binder.bind_of_error (Binder.Bound.result_eq_error_iff.mp hbind)
  rw [bindEach_cons, (p.templateName_eq_ok_iff_name? n).mpr hname]
  dsimp only
  rw [hout, hrefused]

theorem bindEach_of_bound (hname : p.name? = some n)
    (hout : (c.secure p n j).outcome = .ok ()) {b' : Binder} {d' : Design}
    (hbind : (b.bind d p n : Binder.Bound ε).result = .ok (b', d')) :
    c.bindEach (p :: ps) b d j =
      ((c.bindEach ps b' d' (c.secure p n j).journal).1,
        (c.secure p n j).followedBy (c.bindEach ps b' d' (c.secure p n j).journal).2) := by
  obtain ⟨hok, hleft⟩ := Binder.Bound.result_eq_ok_iff.mp hbind
  obtain ⟨rfl, rfl⟩ := Prod.mk.inj hleft
  rw [bindEach_cons, (p.templateName_eq_ok_iff_name? n).mpr hname]
  dsimp only
  rw [hout, hok]

/-- A reserved name is refused before anything is looked up. -/
theorem supply_of_reserved {existing : ValueType} (htaken : j.now.reserved[n]? = some existing) :
    c.supply p n j = .atOnce j (.error (.bindingConflict n existing p.span)) := by
  rw [supply, htaken]

/-- A name on the chain is refused before anything is looked up. -/
theorem supply_of_circular (hfree : j.now.reserved[n]? = none)
    (hcircular : c.nested = true ∧ n ∈ j.now.chain) :
    c.supply p n j = .atOnce j (.error (.circularReference (j.now.chain ++ [n]))) := by
  rw [supply, hfree]
  exact dif_pos hcircular

/-- A name without a design changes nothing. -/
theorem supply_of_missing (hfree : j.now.reserved[n]? = none)
    (hapart : ¬(c.nested = true ∧ n ∈ j.now.chain))
    (he : (c.store.lookup n).design n p = .error e) :
    c.supply p n j = .atOnce j (.error e) := by
  rw [supply, hfree]
  simp only [hapart, dif_neg, not_false_eq_true]
  split
  · next e' he' =>
    obtain rfl := Except.error.inj (he.symm.trans he')
    rfl
  · next d hd => cases he.symm.trans hd

/-- A design that is found is bound with its name on the chain, if nested, and compiled. -/
theorem supply_of_design (hfree : j.now.reserved[n]? = none)
    (hapart : ¬(c.nested = true ∧ n ∈ j.now.chain))
    (hd : (c.store.lookup n).design n p = (.ok d : Except (ComposeError ε) Design)) :
    c.supply p n j =
      if c.nested = true then
        c.deliver n (c.bindEach d.placeholders .empty d (j.turn (j.now.push n))).1
          (c.bindEach d.placeholders .empty d (j.turn (j.now.push n))).2.popped
      else c.deliver n d (.atOnce j (.ok ())) := by
  rw [supply, hfree]
  simp only [hapart, dif_neg, not_false_eq_true]
  split
  · next e he => cases hd.symm.trans he
  · next d' hd' =>
    obtain rfl := Except.ok.inj (hd.symm.trans hd')
    split <;> rfl

variable (c)

/-- A template is recorded, or nothing has happened to the journal. -/
theorem deliver_cases (n : String) (d : Design) {j : Journal α} (t : Returned α ε j) :
    (∃ e, c.deliver n d t = t.failing e) ∨ ∃ artifact, c.deliver n d t = t.recorded n artifact := by
  unfold deliver
  cases t.outcome with
  | error e => exact .inl ⟨e, rfl⟩
  | ok u =>
    cases c.compile d with
    | error cause => exact .inl ⟨_, rfl⟩
    | ok artifact => exact .inr ⟨artifact, rfl⟩

structure Keeps (j j' : Journal α) : Prop where
  follows : j'.Follows j
  sound : ∀ master, j.Sound c.nested master → j'.Sound c.nested master

structure Supplies (n : String) (j : Journal α) (t : Returned α ε j) : Prop where
  follows : t.journal.Follows j
  added : t.outcome = .ok () →
    ∃ made artifact, t.journal.now.compiled = j.now.compiled ++ made ++ [(n, artifact)]
  sound : ∀ master, j.now.isCompiled n = false → j.Sound c.nested master →
    t.journal.Sound c.nested master

variable {c}

theorem Keeps.refl (j : Journal α) : c.Keeps j j :=
  ⟨.refl j, fun _ h => h⟩

/-- What is kept from journal to journal is kept. -/
theorem Keeps.trans {j'' : Journal α} (h : c.Keeps j j') (h' : c.Keeps j' j'') : c.Keeps j j'' :=
  ⟨h.follows.trans h'.follows, fun master hj => h'.sound master (h.sound master hj)⟩

/-- A call that fails at once. -/
theorem Supplies.failed (e : ComposeError ε) : c.Supplies n j (.atOnce j (.error e)) where
  follows := .refl j
  added h := nomatch h
  sound _ _ h := h

/-- A template whose binding keeps the journal is supplied by its delivery. -/
theorem Supplies.deliver {t : Returned α ε j} (follows : t.journal.Follows j)
    (sound : ∀ master, j.now.isCompiled n = false → j.Sound c.nested master →
      t.journal.Sound c.nested master ∧ t.journal.now.Admits c.nested n) :
    c.Supplies n j (c.deliver n d t) := by
  obtain ⟨e, hfailed⟩ | ⟨artifact, hdone⟩ := c.deliver_cases n d t
  · rw [hfailed]
    exact ⟨follows, fun h => (nomatch h), fun master hn hj => (sound master hn hj).1⟩
  · rw [hdone]
    constructor
    case follows => exact follows.trans (.record t.journal n artifact)
    case added =>
      obtain ⟨made, hmade⟩ := follows.compiled
      exact fun _ => ⟨made, artifact, hmade ▸ rfl⟩
    case sound =>
      intro master hn hj
      obtain ⟨hsound, hadmits⟩ := sound master hn hj
      exact hsound.turn (hsound.now.record hadmits artifact)

/-- A template whose placeholders are bound first. -/
theorem Supplies.nested (hnested : c.nested = true) (hfree : j.now.reserved[n]? = none)
    (hapart : n ∉ j.now.chain) {t : Returned α ε (j.turn (j.now.push n))}
    (h : c.Keeps (j.turn (j.now.push n)) t.journal) :
    c.Supplies n j (c.deliver n d t.popped) := by
  refine .deliver h.follows.pop fun master hunknown hj => ?_
  have hadmits : j.now.Admits c.nested n :=
    hj.now.admits hunknown hfree fun hmem => hapart hmem.2
  have hsound : t.journal.Sound c.nested master := h.sound master (hj.turn (hj.now.push hadmits))
  -- While the placeholders are bound, the name is on the chain, so that nothing can record it.
  have hchain : t.journal.now.chain = j.now.chain ++ [n] := t.restored
  have hreserved : n ∉ t.journal.now.reserved := by
    rw [hsound.now.notMem_reserved_iff, ← hj.now.reserved, hfree]
  exact ⟨hsound.turn (hsound.now.pop hchain hj.now.head),
    hsound.now.admits_pop hnested hchain hreserved⟩

/-- Securing a template keeps the journal if supplying it does. -/
theorem secure_keeps (h : c.Supplies n j (c.supply p n j)) :
    c.Keeps j (c.secure p n j).journal := by
  unfold secure
  split_ifs with hknown
  · exact .refl j
  · exact ⟨h.follows, fun master => h.sound master (Bool.eq_false_iff.mpr hknown)⟩

variable (c)

/-- Every call keeps the journal. -/
theorem calls_keep :
    (∀ ps b d j, c.Keeps j (c.bindEach ps b d j).2.journal) ∧
      ∀ p n j, c.Supplies n j (c.supply p n j) := by
  refine bindEach.mutual_induct c (fun ps b d j => c.Keeps j (c.bindEach ps b d j).2.journal)
    (fun p n j => c.Supplies n j (c.supply p n j))
    ?nil ?unnamed ?unready ?unbound ?cons ?conflict ?circular ?missing ?nested ?flat
  case nil =>
    intro b d j
    rw [bindEach]
    exact .refl j
  case unnamed =>
    intro b d j p ps e hname
    rw [bindEach_cons, hname]
    exact .refl j
  case unready =>
    intro b d j p ps n hname t e hout ih
    have hout : (c.secure p n j).outcome = .error e := hout
    have hquoted := (p.templateName_eq_ok_iff_name? n).mp hname
    rw [bindEach_of_unready hquoted hout]
    exact secure_keeps ih
  case unbound =>
    intro b d j p ps n hname t hout bound e hbind ih
    have hout : (c.secure p n j).outcome = .ok () := hout
    have hquoted := (p.templateName_eq_ok_iff_name? n).mp hname
    rw [bindEach_of_unbound hquoted hout (Binder.Bound.result_eq_error_iff.mpr hbind)]
    exact secure_keeps ih
  case cons =>
    intro b d j p ps n hname t hout bound hbind d'' t' _ ih ihrest
    have hout : (c.secure p n j).outcome = .ok () := hout
    have hquoted := (p.templateName_eq_ok_iff_name? n).mp hname
    rw [bindEach_of_bound hquoted hout (Binder.Bound.result_eq_ok_iff.mpr ⟨hbind, rfl⟩)]
    exact (secure_keeps ih).trans ihrest
  case conflict =>
    intro p n j existing htaken
    rw [supply_of_reserved htaken]
    exact .failed _
  case circular =>
    intro p n j hfree hc
    rw [supply_of_circular hfree hc]
    exact .failed _
  case missing =>
    intro p n j hfree hapart e he
    rw [supply_of_missing hfree hapart he]
    exact .failed e
  case nested =>
    intro p n j hfree hapart d hd hnested d' t hrun ih
    rw [supply_of_design hfree hapart hd, if_pos hnested]
    exact .nested hnested hfree (fun hmem => hapart ⟨hnested, hmem⟩) ih
  case flat =>
    intro p n j hfree hapart d hd hflat
    rw [supply_of_design hfree hapart hd, if_neg hflat]
    exact .deliver (.refl j) fun master hn hj => ⟨hj, hj.now.admits hn hfree hapart⟩

end Composer

end ReportAssembly
