import ReportAssembly.Proofs.Agenda
import ReportAssembly.Proofs.PartlyBound

namespace ReportAssembly

namespace Composer

variable {α ε : Type} (c : Composer α ε)

def masterAgenda (master : Design) : List (List Task) :=
  c.agenda [master.name] master [] master.placeholders

/-- How a composition goes through the agenda of its master, `k` being the number of placeholders
done. The tasks before the first that fails have been carried out, and what they and that one ask of
the store and of the compiler is all that is asked. Only if none fails the master is compiled. -/
inductive Ends (master : Design) : Nat → Composition α ε → Prop
  | failed {before after : List (List Task)} {done rest : List Task} {t : Task}
      {e : ComposeError ε} {d : Design}
      (agenda : c.masterAgenda master = before ++ (done ++ t :: rest) :: after)
      (earlier : ∀ ts ∈ before, ∀ u ∈ ts, c.fault? master.lastDeclared? u = none)
      (first : ∀ u ∈ done, c.fault? master.lastDeclared? u = none)
      (fault : c.fault? master.lastDeclared? t = some e) :
      Ends master before.length
        ⟨d, (before.flatten ++ done ++ [t]).filterMap c.event?, .error e⟩
  | rejected {d : Design} {cause : ε}
      (done : ∀ ts ∈ c.masterAgenda master, ∀ u ∈ ts, c.fault? master.lastDeclared? u = none)
      (fault : c.compile d = .error cause) :
      Ends master master.placeholders.length
        ⟨d, (c.masterAgenda master).flatten.filterMap c.event? ++ [.compile none d false],
          .error (.masterRejected master.name cause)⟩
  | packaged {d : Design} {package : Package α}
      (done : ∀ ts ∈ c.masterAgenda master, ∀ u ∈ ts, c.fault? master.lastDeclared? u = none)
      (report : c.compile d = .ok package.report)
      (names : package.names = (c.masterAgenda master).flatten.filterMap Task.compiled?) :
      Ends master master.placeholders.length
        ⟨d, (c.masterAgenda master).flatten.filterMap c.event? ++ [.compile none d true],
          .ok package⟩

variable {c}

theorem failing_flatten_eq_false_iff {reserved : String → Option ValueType}
    {agenda : List (List Task)} :
    c.failing reserved agenda.flatten = false ↔
      ∀ ts ∈ agenda, ∀ u ∈ ts, c.fault? reserved u = none := by
  rw [failing_eq_false_iff]
  simp only [List.mem_flatten]
  constructor
  · exact fun h ts hts u hu => h u ⟨ts, hts, hu⟩
  · rintro h u ⟨ts, hts, hu⟩
    exact h ts hts u hu

/-- An agenda that fails does so at the first placeholder whose tasks fail, in the first of these
that does. -/
theorem exists_first_failing {reserved : String → Option ValueType} {agenda : List (List Task)}
    (h : c.failing reserved agenda.flatten = true) :
    ∃ before done t rest after e, agenda = before ++ (done ++ t :: rest) :: after ∧
      (∀ ts ∈ before, c.failing reserved ts = false) ∧ c.failing reserved done = false ∧
      c.fault? reserved t = some e ∧ c.doneBefore reserved agenda = before.length := by
  have hexists : ∃ ts ∈ agenda, c.failing reserved ts = true := by
    obtain ⟨u, hu, hfault⟩ := List.any_eq_true.mp h
    obtain ⟨ts, hts, hmem⟩ := List.mem_flatten.mp hu
    exact ⟨ts, hts, List.any_eq_true.mpr ⟨u, hmem, hfault⟩⟩
  have hsome : (agenda.find? (c.failing reserved)).isSome := by
    rw [List.find?_isSome]
    exact hexists
  obtain ⟨ts, hts⟩ := Option.isSome_iff_exists.mp hsome
  obtain ⟨hfailing, before, after, rfl, hbefore⟩ := List.find?_eq_some_iff_append.mp hts
  obtain ⟨done, t, rest, e, rfl, hdone, ht⟩ := exists_first_fault hfailing
  have hbefore' : ∀ us ∈ before, c.failing reserved us = false := by
    intro us hus
    simpa using hbefore us hus
  refine ⟨before, done, t, rest, after, e, rfl, hbefore', hdone, ht, ?_⟩
  have hnone : before.findIdx (c.failing reserved) = before.length :=
    List.findIdx_eq_length.mpr hbefore'
  rw [doneBefore, List.findIdx_append, hnone, if_neg (lt_irrefl _), List.findIdx_cons, hfailing]
  simp

section Run

variable (c) {master d : Design} {t : Step α ε Unit}
  (hrun : c.bindAll master.lastDeclared? [master.name] master.placeholders .empty master .start =
    (d, t))
  (hexecute : t = c.execute master.lastDeclared? (c.masterAgenda master).flatten .start)

include hrun

/-- A composition leaves the master as its placeholders were bound. -/
theorem compose_master : (c.compose master).master = d := by
  cases hout : t.outcome with
  | error e => rw [c.compose_eq_of_error hrun hout]
  | ok u =>
    rw [c.compose_eq_of_ok hrun hout]
    cases c.compile d <;> rfl

include hexecute

/-- Where a task fails, the composition ends with it. -/
theorem ends_of_failing
    (h : c.failing master.lastDeclared? (c.masterAgenda master).flatten = true) :
    c.Ends master (c.doneBefore master.lastDeclared? (c.masterAgenda master))
      (c.compose master) := by
  obtain ⟨before, done, u, rest, after, e, hagenda, hbefore, hdone, hu, hk⟩ :=
    exists_first_failing h
  have hsplit : (c.masterAgenda master).flatten =
      (before.flatten ++ done) ++ u :: (rest ++ after.flatten) := by
    rw [hagenda]
    simp
  have hearlier : ∀ ts ∈ before, ∀ v ∈ ts, c.fault? master.lastDeclared? v = none :=
    fun ts hts => failing_eq_false_iff.mp (hbefore ts hts)
  have hfirst : ∀ v ∈ done, c.fault? master.lastDeclared? v = none := failing_eq_false_iff.mp hdone
  have hfront : c.failing master.lastDeclared? (before.flatten ++ done) = false := by
    rw [failing_eq_false_iff, List.forall_mem_append]
    exact ⟨failing_eq_false_iff.mp (failing_flatten_eq_false_iff.mpr hearlier), hfirst⟩
  obtain ⟨hout, hevents⟩ :=
    execute_of_first_fault hfront hu (rest ++ after.flatten) .start
  rw [← hsplit, ← hexecute] at hout hevents
  rw [c.compose_eq_of_error hrun hout, hk, hevents]
  exact .failed hagenda hearlier hfirst hu

/-- Where no task fails, the master is compiled at the end. -/
theorem ends_of_done (hname : d.name = master.name)
    (h : c.failing master.lastDeclared? (c.masterAgenda master).flatten = false) :
    c.Ends master (c.doneBefore master.lastDeclared? (c.masterAgenda master))
      (c.compose master) := by
  have hk : c.doneBefore master.lastDeclared? (c.masterAgenda master) =
      master.placeholders.length := by
    rw [doneBefore_of_ok h, masterAgenda, length_agenda]
  have hout : t.outcome = .ok () := by
    rw [hexecute]
    exact (execute_outcome_eq_ok_iff _ _).mpr h
  have hevents : t.progress.events = (c.masterAgenda master).flatten.filterMap c.event? := by
    rw [hexecute, execute_events_of_ok h]
    rfl
  have hnames : t.progress.compiled.map (·.1) =
      (c.masterAgenda master).flatten.filterMap Task.compiled? := by
    rw [hexecute, execute_compiled_of_ok h]
    rfl
  have hdone := failing_flatten_eq_false_iff.mp h
  rw [c.compose_eq_of_ok hrun hout, hk, hevents, hname]
  cases hd : c.compile d with
  | error cause => exact .rejected hdone hd
  | ok report => exact .packaged hdone hd hnames

end Run

variable (c)

/-- The placeholders bound are those done before the first step that fails, and their names have
been read. -/
theorem exists_boundAt_and_ends (master : Design) :
    ∃ k, (∀ p ∈ master.placeholders.take k, ∃ n, p.name? = some n) ∧
      (c.compose master).master = master.boundAt (master.placeholders.take k) ∧
      c.Ends master k (c.compose master) := by
  generalize hrun : c.bindAll master.lastDeclared? [master.name] master.placeholders .empty master
    .start = run
  obtain ⟨d, t⟩ := run
  have hcarries := (c.run_carries_out master.lastDeclared?).1 [master.name] master.placeholders
    .empty master .start master [] rfl (Binder.through_nil master) (by simp)
  rw [hrun] at hcarries
  obtain ⟨hexecute, hd⟩ :
      t = c.execute master.lastDeclared? (c.masterAgenda master).flatten .start ∧
      d = master.boundAt (master.placeholders.take
        (c.doneBefore master.lastDeclared? (c.masterAgenda master))) := hcarries
  have hmaster := c.compose_master hrun
  refine ⟨_, exists_name_of_done master, hmaster.trans hd, ?_⟩
  have hname : d.name = master.name := by
    rw [hd]
    rfl
  cases hfailing : c.failing master.lastDeclared? (c.masterAgenda master).flatten with
  | true => exact c.ends_of_failing hrun hexecute hfailing
  | false => exact c.ends_of_done hrun hexecute hname hfailing

/-- A composition stops at the first step that fails, and the master is then bound up to the
placeholder that this step is for. -/
theorem composition_stops_at_first_fault (master : Design) :
    ∃ k, (c.compose master).master.BoundUpTo master k ∧ c.Ends master k (c.compose master) := by
  obtain ⟨k, hnames, hmaster, hends⟩ := c.exists_boundAt_and_ends master
  exact ⟨k, hmaster ▸ master.boundUpTo_boundAt hnames, hends⟩

end Composer

end ReportAssembly
