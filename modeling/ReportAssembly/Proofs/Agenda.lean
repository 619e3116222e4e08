import ReportAssembly.Proofs.Acceptance

/-!
The agenda of a composition: all its steps in depth-first document order, none left out because one
before it fails. Main statement: a run is its agenda carried out up to the first step that fails.
-/

namespace ReportAssembly

/-- A step of a composition, short of the compilation of the master. -/
inductive Task
  /-- The template name is read off a placeholder. -/
  | read (p : Placeholder)
  /-- The name is checked against the parameters that the master has declared. -/
  | reserve (p : Placeholder) (name : String)
  /-- The name is checked against those in hand. -/
  | descend (chain : List String) (name : String)
  /-- The template of the name is looked up. -/
  | lookUp (p : Placeholder) (name : String)
  /-- The template of the name is compiled, in the form `d`. -/
  | compile (name : String) (d : Design)
  /-- A placeholder of the design `d` is bound to the name. -/
  | bind (d : Design) (p : Placeholder) (name : String)

def Task.compiled? : Task → Option String
  | compile name _ => some name
  | _ => none

namespace Composer

variable {α ε : Type} (c : Composer α ε) (reserved : String → Option ValueType)

def fault? : Task → Option (ComposeError ε)
  | .read p =>
    match templateName p.expression with
    | .ok _ => none
    | .error fault => some (.malformedReference p.expression fault p.span)
  | .reserve p name => (reserved name).map (.bindingConflict name · p.span)
  | .descend chain name =>
    if c.nested = true ∧ name ∈ chain then some (.circularReference (chain ++ [name])) else none
  | .lookUp p name =>
    match (c.store.lookup name).outcome with
    | .ok _ => none
    | .error (.notFound _) => some (.referenceNotFound name p.span)
    | .error cause => some (.storeFailure name cause)
  | .compile name d =>
    match c.compile d with
    | .ok _ => none
    | .error cause => some (.templateRejected name cause)
  | .bind d p name => (d.parameter? name).map fun q => .bindingConflict name q.type p.span

def event? : Task → Option Event
  | .lookUp _ name => some (.lookup name (c.store.lookup name))
  | .compile name d => some (.compile (some name) d (c.compile d).isOk)
  | _ => none

def advance (s : Progress α) : Task → Progress α
  | .lookUp _ name => s.record (.lookup name (c.store.lookup name))
  | .compile name d =>
    match c.compile d with
    | .ok artifact => (s.record (.compile (some name) d true)).complete name artifact
    | .error _ => s.record (.compile (some name) d false)
  | _ => s

def execute : List Task → Progress α → Step α ε Unit
  | [], s => ⟨s, .ok ()⟩
  | t :: ts, s =>
    match c.fault? reserved t with
    | some e => ⟨c.advance s t, .error e⟩
    | none => execute ts (c.advance s t)

set_option linter.unusedVariables false in
mutual

/-- The tasks for the placeholders `ps` of a design, a list for each. The templates `known` are
compiled before. -/
def agenda (c : Composer α ε) (chain : List String) (d : Design) (known : List String)
    (ps : List Placeholder) : List (List Task) :=
  match ps with
  | [] => []
  | p :: ps =>
    let tasks := .read p ::
      match p.name? with
      | none => []
      | some name => c.errands chain known p name ++ [.bind d p name]
    tasks :: c.agenda chain d (known ++ tasks.filterMap Task.compiled?) ps
termination_by ((c.free chain).length, ps.length)

/-- The tasks for the template of a name that a placeholder quotes. There are none if it is known,
and no more than the checks if it is in hand or not to be found. -/
def errands (c : Composer α ε) (chain known : List String) (p : Placeholder) (name : String) :
    List Task :=
  if name ∈ known then []
  else
    .reserve p name :: .descend chain name ::
      if hc : c.nested = true ∧ name ∈ chain then []
      else
        .lookUp p name ::
          match hd : (c.store.lookup name).outcome with
          | .error _ => []
          | .ok d =>
            if hn : c.nested = true then
              (c.agenda (chain ++ [name]) d known d.placeholders).flatten ++ [.compile name d.bound]
            else [.compile name d]
termination_by ((c.free chain).length, 0)
decreasing_by
  exact Prod.Lex.left _ _ (c.length_free_append_lt (fun h => hc ⟨hn, h⟩) (c.store.mem_names hd))

end

def failing (ts : List Task) : Bool :=
  ts.any fun t => (c.fault? reserved t).isSome

def doneBefore (agenda : List (List Task)) : Nat :=
  agenda.findIdx (c.failing reserved)

variable {c reserved}

theorem failing_eq_false_iff {ts : List Task} :
    c.failing reserved ts = false ↔ ∀ t ∈ ts, c.fault? reserved t = none := by
  simp [failing]

theorem notMem_compiled {name : String} {s : Progress α} (h : s.isCompiled name = false) :
    name ∉ s.compiled.map (·.1) := by
  rw [← isCompiled_iff, h]
  exact Bool.false_ne_true

/-- A task without a fault is done before the rest. -/
theorem execute_cons_of_none {t : Task} (h : c.fault? reserved t = none) (ts : List Task)
    (s : Progress α) :
    c.execute reserved (t :: ts) s = c.execute reserved ts (c.advance s t) := by
  rw [execute, h]

/-- A task with a fault ends the execution. -/
theorem execute_cons_of_some {t : Task} {e : ComposeError ε} (h : c.fault? reserved t = some e)
    (ts : List Task) (s : Progress α) :
    c.execute reserved (t :: ts) s = ⟨c.advance s t, .error e⟩ := by
  rw [execute, h]

/-- Tasks that succeed leave the rest to be done from where they stop. -/
theorem execute_append_of_ok {ts : List Task} {s : Progress α}
    (h : (c.execute reserved ts s).outcome = .ok ()) (us : List Task) :
    c.execute reserved (ts ++ us) s =
      c.execute reserved us (c.execute reserved ts s).progress := by
  induction ts generalizing s with
  | nil => rfl
  | cons t ts ih =>
    cases ht : c.fault? reserved t with
    | some e =>
      rw [execute_cons_of_some ht] at h
      exact nomatch h
    | none =>
      rw [execute_cons_of_none ht] at h ⊢
      rw [List.cons_append, execute_cons_of_none ht, ih h]

theorem execute_append_of_error {ts : List Task} {s : Progress α} {e : ComposeError ε}
    (h : (c.execute reserved ts s).outcome = .error e) (us : List Task) :
    c.execute reserved (ts ++ us) s = c.execute reserved ts s := by
  induction ts generalizing s with
  | nil => exact nomatch h
  | cons t ts ih =>
    cases ht : c.fault? reserved t with
    | some e' => rw [List.cons_append, execute_cons_of_some ht, execute_cons_of_some ht]
    | none =>
      rw [execute_cons_of_none ht] at h ⊢
      rw [List.cons_append, execute_cons_of_none ht, ih h]

/-- Tasks succeed exactly if none of them has a fault. -/
theorem execute_outcome_eq_ok_iff (ts : List Task) (s : Progress α) :
    (c.execute reserved ts s).outcome = .ok () ↔ c.failing reserved ts = false := by
  rw [failing_eq_false_iff]
  induction ts generalizing s with
  | nil => simp [execute]
  | cons t ts ih =>
    cases ht : c.fault? reserved t with
    | some e => simp [execute_cons_of_some ht, ht]
    | none => simp [execute_cons_of_none ht, ht, ih]

theorem advance_events (s : Progress α) (t : Task) :
    (c.advance s t).events = s.events ++ (c.event? t).toList := by
  cases t with
  | compile name d =>
    rw [advance, event?]
    cases c.compile d <;> rfl
  | lookUp p name => rfl
  | _ => exact (List.append_nil _).symm

/-- A task adds the template that it compiles, and no other. -/
theorem advance_compiled {t : Task} (h : c.fault? reserved t = none) (s : Progress α) :
    (c.advance s t).compiled.map (·.1) = s.compiled.map (·.1) ++ t.compiled?.toList := by
  cases t with
  | compile name d =>
    rw [fault?] at h
    rw [advance]
    cases hd : c.compile d with
    | error cause =>
      rw [hd] at h
      exact nomatch h
    | ok artifact => simp [Progress.complete, Progress.record, Task.compiled?]
  | _ => exact (List.append_nil _).symm

theorem execute_events_of_ok {ts : List Task} (h : c.failing reserved ts = false)
    (s : Progress α) :
    (c.execute reserved ts s).progress.events = s.events ++ ts.filterMap c.event? := by
  rw [failing_eq_false_iff] at h
  induction ts generalizing s with
  | nil => simp [execute]
  | cons t ts ih =>
    obtain ⟨ht, hts⟩ := List.forall_mem_cons.mp h
    rw [execute_cons_of_none ht, ih hts, advance_events, List.append_assoc]
    cases hevent : c.event? t <;> simp [hevent]

theorem execute_compiled_of_ok {ts : List Task} (h : c.failing reserved ts = false)
    (s : Progress α) :
    (c.execute reserved ts s).progress.compiled.map (·.1) =
      s.compiled.map (·.1) ++ ts.filterMap Task.compiled? := by
  rw [failing_eq_false_iff] at h
  induction ts generalizing s with
  | nil => simp [execute]
  | cons t ts ih =>
    obtain ⟨ht, hts⟩ := List.forall_mem_cons.mp h
    rw [execute_cons_of_none ht, ih hts, advance_compiled ht, List.append_assoc]
    cases hname : t.compiled? <;> simp [hname]

/-- Of a list with a task that fails, no more is carried out than the tasks up to the first. -/
theorem execute_of_first_fault {front : List Task} {t : Task} {e : ComposeError ε}
    (hfront : c.failing reserved front = false) (ht : c.fault? reserved t = some e)
    (back : List Task) (s : Progress α) :
    (c.execute reserved (front ++ t :: back) s).outcome = .error e ∧
    (c.execute reserved (front ++ t :: back) s).progress.events =
      s.events ++ (front ++ [t]).filterMap c.event? := by
  have hok : (c.execute reserved front s).outcome = .ok () :=
    (execute_outcome_eq_ok_iff front s).mpr hfront
  rw [execute_append_of_ok hok, execute_cons_of_some ht]
  refine ⟨rfl, ?_⟩
  rw [advance_events, execute_events_of_ok hfront, List.filterMap_append, List.append_assoc]
  cases hevent : c.event? t <;> simp [hevent]

/-- If a task fails there is a first one that does. -/
theorem exists_first_fault {ts : List Task} (h : c.failing reserved ts = true) :
    ∃ front t back e, ts = front ++ t :: back ∧ c.failing reserved front = false ∧
      c.fault? reserved t = some e := by
  induction ts with
  | nil => exact nomatch h
  | cons t ts ih =>
    cases ht : c.fault? reserved t with
    | some e => exact ⟨[], t, ts, e, rfl, rfl, ht⟩
    | none =>
      have hts : c.failing reserved ts = true := by simpa [failing, ht] using h
      obtain ⟨front, u, back, e, rfl, hfront, hu⟩ := ih hts
      refine ⟨t :: front, u, back, e, rfl, ?_, hu⟩
      rw [failing_eq_false_iff] at hfront ⊢
      exact List.forall_mem_cons.mpr ⟨ht, hfront⟩

variable {chain known : List String} {p : Placeholder} {name : String}

theorem errands_known (h : name ∈ known) : c.errands chain known p name = [] := by
  rw [errands, if_pos h]

theorem errands_unknown (c : Composer α ε) (chain : List String) (p : Placeholder)
    (h : name ∉ known) :
    ∃ ts, c.errands chain known p name = .reserve p name :: .descend chain name :: ts := by
  rw [errands, if_neg h]
  exact ⟨_, rfl⟩

/-- A name in hand ends the errands at the check of the chain. -/
theorem errands_in_hand (h : name ∉ known) (hc : c.nested = true ∧ name ∈ chain) :
    c.errands chain known p name = [.reserve p name, .descend chain name] := by
  rw [errands, if_neg h, dif_pos hc]

/-- A name that is not stored ends the errands at the look-up. -/
theorem errands_missing (h : name ∉ known) (hc : ¬(c.nested = true ∧ name ∈ chain))
    {e : TemplateError} (hd : (c.store.lookup name).outcome = .error e) :
    c.errands chain known p name =
      [.reserve p name, .descend chain name, .lookUp p name] := by
  rw [errands, if_neg h, dif_neg hc]
  split
  · rfl
  · next d hd' => exact nomatch hd.symm.trans hd'

/-- For a stored name the placeholders of its template come before its compilation. -/
theorem errands_found (h : name ∉ known) (hc : ¬(c.nested = true ∧ name ∈ chain)) {d : Design}
    (hd : (c.store.lookup name).outcome = .ok d) :
    c.errands chain known p name =
      .reserve p name :: .descend chain name :: .lookUp p name ::
        if c.nested = true then
          (c.agenda (chain ++ [name]) d known d.placeholders).flatten ++ [.compile name d.bound]
        else [.compile name d] := by
  rw [errands, if_neg h, dif_neg hc]
  split
  · next e he => exact nomatch hd.symm.trans he
  · next d' hd' =>
    obtain rfl := Except.ok.inj (hd.symm.trans hd')
    rfl

def tasks (c : Composer α ε) (chain : List String) (d : Design) (known : List String)
    (p : Placeholder) : List Task :=
  .read p ::
    match p.name? with
    | none => []
    | some name => c.errands chain known p name ++ [.bind d p name]

theorem agenda_nil (d : Design) : c.agenda chain d known [] = [] := by
  rw [agenda]

theorem agenda_cons (d : Design) (ps : List Placeholder) :
    c.agenda chain d known (p :: ps) = c.tasks chain d known p ::
      c.agenda chain d (known ++ (c.tasks chain d known p).filterMap Task.compiled?) ps := by
  rw [agenda]
  rfl

theorem length_agenda (d : Design) (ps : List Placeholder) :
    (c.agenda chain d known ps).length = ps.length := by
  induction ps generalizing known with
  | nil => rw [agenda_nil]; rfl
  | cons p ps ih => rw [agenda_cons, List.length_cons, ih, List.length_cons]

theorem exists_name_of_read (h : c.fault? reserved (.read p) = none) :
    ∃ name, p.name? = some name := by
  rw [fault?] at h
  rw [Placeholder.name?]
  cases hname : templateName p.expression with
  | ok name => exact ⟨name, rfl⟩
  | error fault =>
    rw [hname] at h
    cases h

/-- What is done before a task fails begins with a name that is read. -/
theorem exists_name_of_done (d : Design) {ps : List Placeholder} :
    ∀ p ∈ ps.take (c.doneBefore reserved (c.agenda chain d known ps)), ∃ name,
      p.name? = some name := by
  induction ps generalizing known with
  | nil => simp
  | cons q ps ih =>
    rw [agenda_cons, doneBefore, List.findIdx_cons]
    cases hfailing : c.failing reserved (c.tasks chain d known q) with
    | true => simp
    | false =>
      have hread : c.fault? reserved (.read q) = none :=
        failing_eq_false_iff.mp hfailing _ List.mem_cons_self
      exact List.forall_mem_cons.mpr ⟨exists_name_of_read hread, ih⟩

/-- An agenda without a fault is done to its end. -/
theorem doneBefore_of_ok {agenda : List (List Task)}
    (h : c.failing reserved agenda.flatten = false) :
    c.doneBefore reserved agenda = agenda.length := by
  rw [doneBefore, List.findIdx_eq_length]
  intro ts hts
  rw [failing_eq_false_iff] at h ⊢
  exact fun t ht => h t (List.mem_flatten_of_mem hts ht)

theorem tasks_of_name (d : Design) (h : p.name? = some name) :
    c.tasks chain d known p = .read p :: (c.errands chain known p name ++ [.bind d p name]) := by
  rw [tasks, h]

theorem fault?_read_eq_none (h : p.name? = some name) : c.fault? reserved (.read p) = none := by
  have hok := (templateName_eq_ok_iff _ _).mpr ((p.name?_eq_some_iff name).mp h)
  rw [fault?, hok]

theorem fault?_read_eq_some {e : ComposeError ε} (h : p.templateName = .error e) :
    c.fault? reserved (.read p) = some e := by
  rw [Placeholder.templateName] at h
  rw [fault?]
  cases hname : templateName p.expression with
  | ok name =>
    rw [hname] at h
    cases h
  | error fault =>
    rw [hname] at h
    rw [← Except.error.inj h]

theorem fault?_lookUp_eq_some {e : ComposeError ε}
    (h : (c.store.lookup name).design name p = .error e) :
    c.fault? reserved (.lookUp p name) = some e := by
  rw [Answer.design] at h
  rw [fault?]
  cases hd : (c.store.lookup name).outcome with
  | ok d =>
    rw [hd] at h
    cases h
  | error cause =>
    rw [hd] at h
    rw [← Except.error.inj h]
    cases cause <;> rfl

theorem execute_read (h : p.name? = some name) (ts : List Task) (s : Progress α) :
    c.execute reserved (.read p :: ts) s = c.execute reserved ts s :=
  execute_cons_of_none (fault?_read_eq_none h) ts s

/-- Checks that are passed leave nothing behind. -/
theorem execute_checks (hres : reserved name = none) (hc : ¬(c.nested = true ∧ name ∈ chain))
    (ts : List Task) (s : Progress α) :
    c.execute reserved (.reserve p name :: .descend chain name :: ts) s =
      c.execute reserved ts s := by
  have hreserve : c.fault? reserved (.reserve p name) = none := by rw [fault?, hres]; rfl
  have hdescend : c.fault? reserved (.descend chain name) = none := if_neg hc
  rw [execute_cons_of_none hreserve, execute_cons_of_none hdescend]
  rfl

/-- A look-up that finds a design is recorded, and the rest follows. -/
theorem execute_lookUp {d : Design} (h : (c.store.lookup name).outcome = .ok d) (ts : List Task)
    (s : Progress α) :
    c.execute reserved (.lookUp p name :: ts) s =
      c.execute reserved ts (s.record (.lookup name (c.store.lookup name))) := by
  have hfault : c.fault? reserved (.lookUp p name) = none := by rw [fault?, h]
  exact execute_cons_of_none hfault ts s

theorem execute_compile (d : Design) (s : Progress α) :
    c.execute reserved [.compile name d] s = c.compileTemplate name d s := by
  rw [execute, fault?, advance, compileTemplate]
  cases c.compile d <;> rfl

variable (c reserved)

def CarriesOut (chain : List String) (ps : List Placeholder) (b : Binder) (d : Design)
    (s : Progress α) (d' : Design) (t : Step α ε Unit) : Prop :=
  ∀ d₀ qs, qs ++ ps = d₀.placeholders → Binder.Through d₀ qs b d →
    (∀ n ∈ qs.filterMap Placeholder.name?, d₀.parameter? n = none) →
    t = c.execute reserved (c.agenda chain d₀ (s.compiled.map (·.1)) ps).flatten s ∧
    d' = d₀.boundAt (qs ++
      ps.take (c.doneBefore reserved (c.agenda chain d₀ (s.compiled.map (·.1)) ps)))

variable {c reserved}

/-- The agenda of all placeholders of a design, from an event on that compiles nothing. -/
theorem CarriesOut.whole {d d' : Design} {s : Progress α} {event : Event} {t : Step α ε Unit}
    (h : c.CarriesOut reserved chain d.placeholders .empty d (s.record event) d' t) :
    t = c.execute reserved (c.agenda chain d (s.compiled.map (·.1)) d.placeholders).flatten
      (s.record event) ∧
    d' = d.boundAt (d.placeholders.take
      (c.doneBefore reserved (c.agenda chain d (s.compiled.map (·.1)) d.placeholders))) :=
  h d [] rfl (Binder.through_nil d) (by simp)

/-- The tasks for the first placeholder fail, and nothing comes after. -/
theorem carries_out_of_error {d₀ d : Design} {qs : List Placeholder} {b : Binder}
    {s : Progress α} {t : Step α ε Unit} {e : ComposeError ε} (hthrough : Binder.Through d₀ qs b d)
    (ht : c.execute reserved (c.tasks chain d₀ (s.compiled.map (·.1)) p) s = t)
    (he : t.outcome = .error e) (ps : List Placeholder) :
    t = c.execute reserved (c.agenda chain d₀ (s.compiled.map (·.1)) (p :: ps)).flatten s ∧
    d = d₀.boundAt (qs ++ (p :: ps).take
      (c.doneBefore reserved (c.agenda chain d₀ (s.compiled.map (·.1)) (p :: ps)))) := by
  subst ht
  have hfailing : c.failing reserved (c.tasks chain d₀ (s.compiled.map (·.1)) p) = true := by
    by_contra hcon
    have hok := (execute_outcome_eq_ok_iff _ s).mpr (Bool.eq_false_iff.mpr hcon)
    exact nomatch hok.symm.trans he
  constructor
  · rw [agenda_cons, List.flatten_cons, execute_append_of_error he]
  · rw [doneBefore, agenda_cons, List.findIdx_cons, hfailing, hthrough.design_eq]
    simp

/-- The tasks for the first placeholder are done, and the rest is carried out from there. -/
theorem carries_out_of_ok {d₀ d' : Design} {qs ps : List Placeholder} {s : Progress α}
    {t r : Step α ε Unit}
    (ht : c.execute reserved (c.tasks chain d₀ (s.compiled.map (·.1)) p) s = t)
    (hok : t.outcome = .ok ())
    (hrest : r = c.execute reserved
        (c.agenda chain d₀ (t.progress.compiled.map (·.1)) ps).flatten t.progress ∧
      d' = d₀.boundAt (qs ++ [p] ++ ps.take
        (c.doneBefore reserved (c.agenda chain d₀ (t.progress.compiled.map (·.1)) ps)))) :
    r = c.execute reserved (c.agenda chain d₀ (s.compiled.map (·.1)) (p :: ps)).flatten s ∧
    d' = d₀.boundAt (qs ++ (p :: ps).take
      (c.doneBefore reserved (c.agenda chain d₀ (s.compiled.map (·.1)) (p :: ps)))) := by
  subst ht
  have hfailing := (execute_outcome_eq_ok_iff _ s).mp hok
  rw [execute_compiled_of_ok hfailing] at hrest
  constructor
  · rw [agenda_cons, List.flatten_cons, execute_append_of_ok hok]
    exact hrest.1
  · rw [doneBefore, agenda_cons, List.findIdx_cons, hfailing, hrest.2]
    simp [doneBefore]

variable (c reserved)

/-- A run is its agenda carried out up to the first task that fails. -/
theorem run_carries_out :
    (∀ chain ps b d s, c.CarriesOut reserved chain ps b d s
      (c.bindAll reserved chain ps b d s).1 (c.bindAll reserved chain ps b d s).2) ∧
    ∀ chain p name s, c.ensure reserved chain p name s =
      c.execute reserved (c.errands chain (s.compiled.map (·.1)) p name) s := by
  refine c.run_induction reserved (c.CarriesOut reserved)
    (fun chain p name s t =>
      t = c.execute reserved (c.errands chain (s.compiled.map (·.1)) p name) s)
    ?nil ?unnamed ?unready ?unbound ?cons ?known ?conflict ?circular ?missing ?inner ?composed
    ?plain
  case nil =>
    intro chain b d s d₀ qs hqs hthrough _
    rw [agenda_nil]
    exact ⟨rfl, by rw [hthrough.design_eq]; simp⟩
  -- The ways in which the first placeholder fails: in its name, below its name, in its binding.
  case unnamed =>
    intro chain p ps b d s e he d₀ qs hqs hthrough _
    refine carries_out_of_error hthrough ?_ rfl ps
    rw [tasks, execute_cons_of_some (fault?_read_eq_some he)]
    rfl
  case unready =>
    intro chain p ps b d s name t e hname hE he d₀ qs hqs hthrough _
    refine carries_out_of_error hthrough ?_ he ps
    rw [hE] at he ⊢
    rw [tasks_of_name d₀ hname, execute_read hname, execute_append_of_error he]
  case unbound =>
    intro chain p ps b d s name t e hname hE hok hbind d₀ qs hqs hthrough hfree
    have hp : p ∈ d₀.placeholders := by rw [← hqs]; simp
    obtain ⟨existing, hdeclared, rfl⟩ : ∃ existing, d₀.parameter? name = some existing ∧
        e = .bindingConflict name existing.type p.span := by
      cases hd : d₀.parameter? name with
      | none =>
        obtain ⟨b', d', hok', -⟩ := hthrough.bind_eq_ok (ε := ε) hp hname (Or.inr hd)
        exact nomatch hok'.symm.trans hbind
      | some existing =>
        have hnew : name ∉ qs.filterMap Placeholder.name? := fun hmem =>
          nomatch (hfree name hmem).symm.trans hd
        have herror := hthrough.bind_eq_error (p := p) (ε := ε) hnew hd
        exact ⟨existing, rfl, Except.error.inj (hbind.symm.trans herror)⟩
    have hfault : c.fault? reserved (.bind d₀ p name) =
        some (.bindingConflict name existing.type p.span) := by
      rw [fault?, hdeclared]
      rfl
    refine carries_out_of_error hthrough ?_ rfl ps
    rw [hE] at hok ⊢
    rw [tasks_of_name d₀ hname, execute_read hname, execute_append_of_ok hok,
      execute_cons_of_some hfault]
    rfl
  case cons =>
    intro chain p ps b d s name t b' d' d'' r hname hE hok hbind ih d₀ qs hqs hthrough hfree
    have hp : p ∈ d₀.placeholders := by rw [← hqs]; simp
    obtain ⟨hor, hnext⟩ := hthrough.of_bind_eq_ok hp hname hbind
    have hdeclared : d₀.parameter? name = none := hor.elim (hfree name) id
    have hfree' : ∀ n ∈ (qs ++ [p]).filterMap Placeholder.name?, d₀.parameter? n = none := by
      rw [List.filterMap_append, List.filterMap_cons_some hname]
      exact List.forall_mem_append.mpr ⟨hfree, List.forall_mem_singleton.mpr hdeclared⟩
    have hfault : c.fault? reserved (.bind d₀ p name) = none := by
      rw [fault?, hdeclared]
      rfl
    refine carries_out_of_ok ?_ hok (ih d₀ (qs ++ [p]) (by rw [← hqs]; simp) hnext hfree')
    rw [hE] at hok ⊢
    rw [tasks_of_name d₀ hname, execute_read hname, execute_append_of_ok hok,
      execute_cons_of_none hfault]
    exact Step.mk_outcome_eq hok
  case known =>
    intro chain p name s hs
    rw [errands_known (isCompiled_iff.mp hs)]
    rfl
  case conflict =>
    intro chain p name s existing hs hres
    have hfault : c.fault? reserved (.reserve p name) =
        some (.bindingConflict name existing p.span) := by
      rw [fault?, hres]
      rfl
    obtain ⟨ts, hts⟩ := c.errands_unknown chain p (notMem_compiled hs)
    rw [hts, execute_cons_of_some hfault]
    rfl
  case circular =>
    intro chain p name s hs hres hn hmem
    have hreserve : c.fault? reserved (.reserve p name) = none := by rw [fault?, hres]; rfl
    have hfault : c.fault? reserved (.descend chain name) =
        some (.circularReference (chain ++ [name])) := if_pos ⟨hn, hmem⟩
    obtain ⟨ts, hts⟩ := c.errands_unknown chain p (notMem_compiled hs)
    rw [hts, execute_cons_of_none hreserve, execute_cons_of_some hfault]
    rfl
  case missing =>
    intro chain p name s e hs hres hc he
    cases hd : (c.store.lookup name).outcome with
    | ok d => exact nomatch he.symm.trans (Answer.design_eq_ok_of_outcome name p hd)
    | error cause =>
      rw [errands_missing (notMem_compiled hs) hc hd, execute_checks hres hc,
        execute_cons_of_some (fault?_lookUp_eq_some he)]
      rfl
  case inner =>
    intro chain p name s d d' t e hs hres hn hmem hd hB he
    have hc : ¬(c.nested = true ∧ name ∈ chain) := fun h => hmem h.2
    obtain ⟨ht, -⟩ := hB.whole
    rw [ht] at he ⊢
    rw [errands_found (notMem_compiled hs) hc hd, execute_checks hres hc, execute_lookUp hd,
      if_pos hn, execute_append_of_error he]
  case composed =>
    intro chain p name s d d' t hs hres hn hmem hd hB hok
    have hc : ¬(c.nested = true ∧ name ∈ chain) := fun h => hmem h.2
    obtain ⟨ht, hbound⟩ := hB.whole
    rw [ht] at hok ⊢
    have hd' : d' = d.bound := by
      rw [hbound, doneBefore_of_ok ((execute_outcome_eq_ok_iff _ _).mp hok), length_agenda,
        List.take_length, d.boundAt_placeholders]
    rw [hd', errands_found (notMem_compiled hs) hc hd, execute_checks hres hc, execute_lookUp hd,
      if_pos hn, execute_append_of_ok hok, execute_compile]
  case plain =>
    intro chain p name s d hs hres hn hd
    have hc : ¬(c.nested = true ∧ name ∈ chain) := fun h => by simp [hn] at h
    rw [errands_found (notMem_compiled hs) hc hd, execute_checks hres hc, execute_lookUp hd,
      if_neg (by simp [hn]), execute_compile]

end Composer

end ReportAssembly
