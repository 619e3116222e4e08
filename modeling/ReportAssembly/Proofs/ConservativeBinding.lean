import Mathlib
import ReportAssembly.Proofs.ConservedReports
import ReportAssembly.Proofs.FirstFault
import ReportAssembly.Proofs.Registrations

namespace ReportAssembly

def ComposeError.cause? {ε : Type} : ComposeError ε → Option ε
  | templateRejected _ cause => some cause
  | masterRejected _ cause => some cause
  | _ => none

namespace Composer

variable {α ε : Type} (c : Composer α ε) (reserved : String → Option ValueType)

structure Prepares (name : String) (stored d : Design) : Prop where
  found : (c.store.lookup name).outcome = .ok stored
  form_eq : d = c.form stored
  bindable : c.nested = true → stored.Bindable

def Prepared : List Task → Prop
  | [] => True
  | t :: ts =>
    (∀ name d, t = .compile name d → ∃ stored, c.Prepares name stored d) ∧
      (c.fault? reserved t = none → Prepared ts)

variable {c reserved} {chain known : List String}

theorem Prepared.cons {t : Task} {ts : List Task} (ht : t.compiled? = none)
    (hts : c.Prepared reserved ts) : c.Prepared reserved (t :: ts) := by
  refine ⟨?_, fun _ => hts⟩
  rintro name d rfl
  exact nomatch ht

/-- Tasks in a row are prepared if the later ones are where the earlier succeed. -/
theorem Prepared.append {ts us : List Task} (hts : c.Prepared reserved ts)
    (hus : c.failing reserved ts = false → c.Prepared reserved us) :
    c.Prepared reserved (ts ++ us) := by
  induction ts with
  | nil => exact hus rfl
  | cons t ts ih =>
    refine ⟨hts.1, fun ht => ih (hts.2 ht) fun hrest => hus ?_⟩
    rw [failing_eq_false_iff] at hrest ⊢
    exact List.forall_mem_cons.mpr ⟨ht, hrest⟩

/-- The tasks that are carried out are those up to the first that fails. -/
theorem Prepared.of_carried_out {front back : List Task} {t : Task}
    (h : c.Prepared reserved (front ++ t :: back)) (hfront : c.failing reserved front = false)
    {name : String} {d : Design} (hmem : .compile name d ∈ front ++ [t]) :
    ∃ stored, c.Prepares name stored d := by
  rw [failing_eq_false_iff] at hfront
  induction front with
  | nil =>
    obtain rfl : .compile name d = t := List.mem_singleton.mp hmem
    exact h.1 name d rfl
  | cons u front ih =>
    obtain ⟨hu, hrest⟩ := List.forall_mem_cons.mp hfront
    rcases List.mem_cons.mp hmem with rfl | hmem
    · exact h.1 name d rfl
    · exact ih (h.2 hu) hrest hmem

/-- What is compiled by tasks that succeed has been prepared. -/
theorem Prepared.of_done {ts : List Task} (h : c.Prepared reserved ts)
    (hts : c.failing reserved ts = false) {name : String} {d : Design}
    (hmem : .compile name d ∈ ts) : ∃ stored, c.Prepares name stored d := by
  obtain ⟨front, back, rfl⟩ := List.append_of_mem hmem
  rw [failing_eq_false_iff] at hts
  have hfront := failing_eq_false_iff.mpr fun t ht => hts t (List.mem_append_left _ ht)
  exact h.of_carried_out hfront (by simp)

/-- Nothing is in the way of binding placeholders whose tasks do not fail. -/
theorem free_of_agenda {d : Design} {ps : List Placeholder}
    (h : c.failing reserved (c.agenda chain d known ps).flatten = false) :
    ∀ p ∈ ps, ∃ name, p.name? = some name ∧ d.parameter? name = none := by
  induction ps generalizing known with
  | nil => simp
  | cons p ps ih =>
    rw [agenda_cons, List.flatten_cons, failing_eq_false_iff, List.forall_mem_append] at h
    refine List.forall_mem_cons.mpr ⟨?_, ih (failing_eq_false_iff.mpr h.2)⟩
    obtain ⟨name, hname⟩ := exists_name_of_read (h.1 (.read p) List.mem_cons_self)
    rw [tasks_of_name d hname] at h
    have hbind := h.1 (.bind d p name) (by simp)
    rw [fault?, Option.map_eq_none_iff] at hbind
    exact ⟨name, hname, hbind⟩

/-- A design whose agenda has no fault can be bound. -/
theorem bindable_of_agenda {d : Design}
    (h : c.failing reserved (c.agenda chain d known d.placeholders).flatten = false) :
    d.Bindable :=
  Design.bindable_of_free (free_of_agenda h)

variable (c reserved)

/-- Whatever an agenda gives to the compiler has been prepared. -/
theorem agenda_prepared :
    (∀ chain d known ps, c.Prepared reserved (c.agenda chain d known ps).flatten) ∧
    ∀ chain known p name, c.Prepared reserved (c.errands chain known p name) := by
  refine agenda.mutual_induct c
    (fun chain d known ps => c.Prepared reserved (c.agenda chain d known ps).flatten)
    (fun chain known p name => c.Prepared reserved (c.errands chain known p name))
    ?nil ?cons ?known ?unknown
  case nil =>
    intro chain d known
    rw [agenda_nil]
    trivial
  case cons =>
    intro chain d known p ps ts herrands hrest
    rw [agenda_cons, List.flatten_cons]
    refine Prepared.append ?_ fun _ => hrest
    rw [tasks]
    apply Prepared.cons rfl
    cases p.name? with
    | none => trivial
    | some name => exact (herrands name).append fun _ => .cons rfl trivial
  case known =>
    intro chain known p name h
    rw [errands_known h]
    trivial
  case unknown =>
    intro chain known p name h ih
    by_cases hc : c.nested = true ∧ name ∈ chain
    · rw [errands_in_hand h hc]
      exact .cons rfl (.cons rfl trivial)
    · cases hd : (c.store.lookup name).outcome with
      | error e =>
        rw [errands_missing h hc hd]
        exact .cons rfl (.cons rfl (.cons rfl trivial))
      | ok d =>
        rw [errands_found h hc hd]
        refine .cons rfl (.cons rfl (.cons rfl ?_))
        split_ifs with hn
        · refine (ih hc d hd hn).append fun hdone => ⟨?_, fun _ => trivial⟩
          intro n d' he
          obtain ⟨rfl, rfl⟩ := Task.compile.inj he
          exact ⟨d, hd, (if_pos hn).symm, fun _ => bindable_of_agenda hdone⟩
        · refine ⟨?_, fun _ => trivial⟩
          intro n d' he
          obtain ⟨rfl, rfl⟩ := Task.compile.inj he
          exact ⟨d, hd, (if_neg hn).symm, fun hn' => absurd hn' hn⟩

variable {c reserved}

/-- The compilations that have been recorded are those of tasks, but for that of the master. -/
theorem exists_compile_of_event {ts : List Task} {template? : Option String} {d : Design}
    {accepted : Bool} (h : .compile template? d accepted ∈ ts.filterMap c.event?) :
    ∃ name, template? = some name ∧ .compile name d ∈ ts := by
  obtain ⟨t, ht, hevent⟩ := List.mem_filterMap.mp h
  cases t with
  | compile name d' =>
    obtain ⟨rfl, rfl, -⟩ := Event.compile.inj (Option.some.inj hevent)
    exact ⟨name, rfl, ht⟩
  | lookUp p name => cases hevent
  | _ => cases hevent

/-- Of the tasks only a compilation brings up an error of the compiler. -/
theorem fault?_of_cause {t : Task} {e : ComposeError ε} {cause : ε}
    (h : c.fault? reserved t = some e) (hcause : e.cause? = some cause) :
    ∃ name d, t = .compile name d ∧ c.compile d = .error cause ∧
      e = .templateRejected name cause := by
  cases t with
  | read p =>
    rw [fault?] at h
    split at h
    · cases h
    · obtain rfl := Option.some.inj h
      cases hcause
  | reserve p name =>
    obtain ⟨_, -, rfl⟩ := Option.map_eq_some_iff.mp h
    cases hcause
  | descend chain name =>
    rw [fault?] at h
    split_ifs at h
    obtain rfl := Option.some.inj h
    cases hcause
  | lookUp p name =>
    rw [fault?] at h
    split at h
    · cases h
    all_goals
      obtain rfl := Option.some.inj h
      cases hcause
  | compile name d =>
    rw [fault?] at h
    cases hd : c.compile d with
    | ok artifact =>
      rw [hd] at h
      cases h
    | error found =>
      rw [hd] at h
      obtain rfl := Option.some.inj h
      obtain rfl := Option.some.inj hcause
      exact ⟨name, d, rfl, hd, rfl⟩
  | bind d p name =>
    obtain ⟨_, -, rfl⟩ := Option.map_eq_some_iff.mp h
    cases hcause

structure Hands (c : Composer α ε) (master : Design) (run : Composition α ε) : Prop where
  templates : ∀ name d accepted, .compile (some name) d accepted ∈ run.events →
    ∃ stored, c.Prepares name stored d
  whole : ∀ d accepted, .compile none d accepted ∈ run.events →
    d = run.master ∧ d = master.bound ∧ master.Bindable
  template_rejected : ∀ name cause, run.outcome = .error (.templateRejected name cause) →
    ∃ stored d, c.Prepares name stored d ∧ c.compile d = .error cause
  master_rejected : ∀ name cause, run.outcome = .error (.masterRejected name cause) →
    master.Bindable ∧ c.compile master.bound = .error cause

variable {master : Design} {run : Composition α ε}

/-- All tasks have been done, and the master has been given to the compiler. -/
theorem hands_of_done {accepted : Bool}
    (hmaster : run.master = master.bound) (hdone : ∀ ts ∈ c.masterAgenda master, ∀ u ∈ ts,
      c.fault? master.lastDeclared? u = none)
    (hevents : run.events = (c.masterAgenda master).flatten.filterMap c.event? ++
      [.compile none run.master accepted])
    (hout : ∀ e, run.outcome = .error e → ∃ cause, c.compile run.master = .error cause ∧
      e = .masterRejected master.name cause) : c.Hands master run := by
  have hdone := failing_flatten_eq_false_iff.mpr hdone
  have hbindable : master.Bindable := bindable_of_agenda hdone
  have hprepared : c.Prepared master.lastDeclared? (c.masterAgenda master).flatten :=
    (c.agenda_prepared master.lastDeclared?).1 [master.name] master [] master.placeholders
  constructor
  case templates =>
    intro name d accepted hmem
    rw [hevents, List.mem_append] at hmem
    rcases hmem with hmem | hmem
    · obtain ⟨_, hname, hu⟩ := exists_compile_of_event hmem
      obtain rfl := Option.some.inj hname
      exact hprepared.of_done hdone hu
    · exact nomatch List.mem_singleton.mp hmem
  case whole =>
    intro d accepted hmem
    rw [hevents, List.mem_append] at hmem
    rcases hmem with hmem | hmem
    · obtain ⟨_, hname, -⟩ := exists_compile_of_event hmem
      exact nomatch hname
    · obtain ⟨-, rfl, -⟩ := Event.compile.inj (List.mem_singleton.mp hmem)
      exact ⟨rfl, hmaster, hbindable⟩
  case template_rejected =>
    intro name cause he
    obtain ⟨_, -, he⟩ := hout _ he
    exact nomatch he
  case master_rejected =>
    intro name cause he
    obtain ⟨_, hcause, he⟩ := hout _ he
    obtain ⟨-, rfl⟩ := ComposeError.masterRejected.inj he
    exact ⟨hbindable, hmaster ▸ hcause⟩

/-- The tasks `front` have been done and `t` has failed. -/
theorem hands_of_fault {front back : List Task} {t : Task} {e : ComposeError ε}
    (hagenda : (c.masterAgenda master).flatten = front ++ t :: back)
    (hfront : c.failing master.lastDeclared? front = false)
    (hfault : c.fault? master.lastDeclared? t = some e)
    (hevents : run.events = (front ++ [t]).filterMap c.event?)
    (hout : run.outcome = .error e) : c.Hands master run := by
  have hprepared : c.Prepared master.lastDeclared? (c.masterAgenda master).flatten :=
    (c.agenda_prepared master.lastDeclared?).1 [master.name] master [] master.placeholders
  rw [hagenda] at hprepared
  constructor
  case templates =>
    intro name d accepted hmem
    rw [hevents] at hmem
    obtain ⟨_, hname, hu⟩ := exists_compile_of_event hmem
    obtain rfl := Option.some.inj hname
    exact hprepared.of_carried_out hfront hu
  case whole =>
    intro d accepted hmem
    rw [hevents] at hmem
    obtain ⟨_, hname, -⟩ := exists_compile_of_event hmem
    exact nomatch hname
  case template_rejected =>
    intro name cause he
    obtain rfl := Except.error.inj (hout.symm.trans he)
    obtain ⟨_, d, rfl, hcause, he⟩ := fault?_of_cause hfault rfl
    obtain ⟨rfl, -⟩ := ComposeError.templateRejected.inj he
    obtain ⟨stored, hstored⟩ := hprepared.of_carried_out hfront List.mem_concat_self
    exact ⟨stored, d, hstored, hcause⟩
  case master_rejected =>
    intro name cause he
    obtain rfl := Except.error.inj (hout.symm.trans he)
    obtain ⟨_, _, -, -, he⟩ := fault?_of_cause hfault rfl
    exact nomatch he

/-- What a composition gives to the compiler has been prepared, or is the bound master. -/
theorem compose_hands (c : Composer α ε) (master : Design) :
    c.Hands master (c.compose master) := by
  obtain ⟨k, -, hmaster, hends⟩ := c.exists_boundAt_and_ends master
  generalize c.compose master = run at hmaster hends ⊢
  cases hends with
  | @failed before after done rest t e d agenda earlier first fault =>
    have hagenda : (c.masterAgenda master).flatten =
        (before.flatten ++ done) ++ t :: (rest ++ after.flatten) := by
      rw [agenda]
      simp
    have hearlier := failing_flatten_eq_false_iff.mpr earlier
    have hfront : c.failing master.lastDeclared? (before.flatten ++ done) = false := by
      rw [failing_eq_false_iff, List.forall_mem_append]
      exact ⟨failing_eq_false_iff.mp hearlier, first⟩
    exact hands_of_fault hagenda hfront fault rfl rfl
  | @rejected d cause done fault =>
    rw [List.take_length, master.boundAt_placeholders] at hmaster
    refine hands_of_done hmaster done rfl ?_
    intro e he
    exact ⟨cause, fault, (Except.error.inj he).symm⟩
  | packaged done report names =>
    rw [List.take_length, master.boundAt_placeholders] at hmaster
    exact hands_of_done hmaster done rfl fun e he => nomatch he

end Composer

def Composition.direct {α ε : Type} (compile : Design → Except ε α) (master : Design) :
    Composition α ε :=
  match compile master with
  | .ok report => ⟨master, [.compile none master true], .ok ⟨report, []⟩⟩
  | .error cause =>
    ⟨master, [.compile none master false], .error (.masterRejected master.name cause)⟩

theorem Composer.compose_of_no_placeholders {α ε : Type} (c : Composer α ε) {master : Design}
    (h : master.placeholders = []) : c.compose master = .direct c.compile master := by
  have hrun : c.bindAll master.lastDeclared? [master.name] master.placeholders .empty master
      .start = (master, ⟨.start, .ok ()⟩) := by
    rw [h, bindAll]
  rw [c.compose_eq_of_ok hrun rfl, Composition.direct]
  cases c.compile master <;> rfl

open Report (CompileError)

/-- What the built-in compiler finds wrong in a composition is wrong with the designs as they were,
and what it makes of a bound design is what it makes of the design as it was, rewired. -/
structure Composition.Conservative (store : Store) (nested : Bool) (master : Design)
    (run : Composition Report CompileError) : Prop where
  whole : ∀ d accepted, .compile none d accepted ∈ run.events →
    d = run.master ∧ Report.Conserved master d
  templates : ∀ name d accepted, .compile (some name) d accepted ∈ run.events →
    ∃ stored, (store.lookup name).outcome = .ok stored ∧
      if nested = true then Report.Conserved stored d else d = stored
  master_rejected : ∀ name cause, run.outcome = .error (.masterRejected name cause) →
    cause.diagnostics.Sublist (Report.diagnostics master)
  template_rejected : ∀ name cause, run.outcome = .error (.templateRejected name cause) →
    ∃ stored, (store.lookup name).outcome = .ok stored ∧
      cause.diagnostics.Sublist (Report.diagnostics stored)
  plain : master.placeholders = [] → run = .direct Report.compile master

section Conservative

variable {store : Store} {nested : Bool}

/-- What is prepared is the stored design, or nested a design that conserves its verdict. -/
theorem Composer.Prepares.form_cases {name : String} {stored d : Design}
    (h : (⟨store, Report.compile, nested⟩ : Composer Report CompileError).Prepares name stored d) :
    if nested = true then Report.Conserved stored d else d = stored := by
  have hform : d = if nested = true then stored.bound else stored := h.form_eq
  split_ifs at hform ⊢ with hn
  · exact hform ▸ Report.bound_conserved (h.bindable hn)
  · exact hform

/-- What is prepared has no problem that the stored design has not. -/
theorem Composer.Prepares.diagnostics_sublist {name : String} {stored d : Design}
    (h : (⟨store, Report.compile, nested⟩ : Composer Report CompileError).Prepares name stored d) :
    (Report.diagnostics d).Sublist (Report.diagnostics stored) := by
  have hform := h.form_cases
  split_ifs at hform
  · exact hform.diagnostics
  · exact hform ▸ List.Sublist.refl _

/-- Whatever the built-in compiler is given, the composition is conservative. -/
theorem Composer.Hands.conservative {master : Design} {run : Composition Report CompileError}
    (h : (⟨store, Report.compile, nested⟩ : Composer Report CompileError).Hands master run)
    (hplain : master.placeholders = [] → run = .direct Report.compile master) :
    run.Conservative store nested master := by
  constructor
  case whole =>
    intro d accepted hmem
    obtain ⟨hmaster, hd, hbindable⟩ := h.whole d accepted hmem
    exact ⟨hmaster, hd ▸ Report.bound_conserved hbindable⟩
  case templates =>
    intro name d accepted hmem
    obtain ⟨stored, hstored⟩ := h.templates name d accepted hmem
    exact ⟨stored, hstored.found, hstored.form_cases⟩
  case master_rejected =>
    intro name cause he
    obtain ⟨hbindable, hcause⟩ := h.master_rejected name cause he
    rw [Report.diagnostics_of_error hcause]
    exact Report.diagnostics_bound_sublist hbindable
  case template_rejected =>
    intro name cause he
    obtain ⟨stored, d, hstored, hcause⟩ := h.template_rejected name cause he
    refine ⟨stored, hstored.found, ?_⟩
    rw [Report.diagnostics_of_error hcause]
    exact hstored.diagnostics_sublist
  case plain => exact hplain

end Conservative

/-- Binding all placeholders of a design is conservative, and a composition gives nothing else to
the compiler. -/
theorem binding_is_conservative (store : Store) (nested : Bool) :
    (∀ reserved chain d s,
      ((⟨store, Report.compile, nested⟩ : Composer Report CompileError).bindAll reserved chain
        d.placeholders .empty d s).2.outcome = .ok () →
      Report.Conserved d ((⟨store, Report.compile, nested⟩ : Composer Report CompileError).bindAll
        reserved chain d.placeholders .empty d s).1) ∧
    ∀ master, ((⟨store, Report.compile, nested⟩ : Composer Report CompileError).compose
      master).Conservative store nested master := by
  constructor
  · intro reserved chain d s hok
    have hruns := (Composer.run_finishes (⟨store, Report.compile, nested⟩ :
      Composer Report CompileError) reserved).1 chain d.placeholders .empty d s
    obtain ⟨hd, hbindable, -⟩ := hruns.whole hok
    rw [hd]
    exact Report.bound_conserved hbindable
  · intro master
    exact (Composer.compose_hands _ master).conservative fun hnone =>
      Composer.compose_of_no_placeholders _ hnone

def borrowingMaster : Design :=
  ⟨"M", [], [⟨.detail, [⟨.field ⟨"$P{A}", .string⟩, ⟨9, 13⟩⟩,
    ⟨.subreport ⟨"\"A\"", .string⟩, ⟨14, 17⟩⟩]⟩]⟩

def lentTemplates : Registry :=
  .ofDesigns [⟨"A", [], [⟨.detail, []⟩]⟩]

theorem binding_is_conservative_borrowing :
    Report.diagnostics borrowingMaster = [⟨.undeclaredParameter "A", some ⟨9, 13⟩⟩] ∧
    (∃ package, ((⟨lentTemplates.toStore, Report.compile, true⟩ :
      Composer Report CompileError).compose borrowingMaster).outcome = .ok package) ∧
    Report.Conserved borrowingMaster ((⟨lentTemplates.toStore, Report.compile, true⟩ :
      Composer Report CompileError).compose borrowingMaster).master := by
  have hout : ((⟨lentTemplates.toStore, Report.compile, true⟩ :
      Composer Report CompileError).compose borrowingMaster).outcome =
        .ok ⟨⟨"M", [⟨"A", .report⟩], [⟨.detail, [.field [.reference .parameter "A"] .string,
          .subreportParameter "A"]⟩]⟩, [("A", ⟨"A", [], [⟨.detail, []⟩]⟩)]⟩ := by cbv
  have hmem : .compile none ((⟨lentTemplates.toStore, Report.compile, true⟩ :
      Composer Report CompileError).compose borrowingMaster).master true ∈
        ((⟨lentTemplates.toStore, Report.compile, true⟩ :
          Composer Report CompileError).compose borrowingMaster).events := by
    cbv
    exact .tail _ (.tail _ (.head _))
  have hwhole := ((binding_is_conservative lentTemplates.toStore true).2 borrowingMaster).whole
    _ _ hmem
  exact ⟨by cbv, ⟨_, hout⟩, hwhole.2⟩

end ReportAssembly
