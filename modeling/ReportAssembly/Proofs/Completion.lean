import Mathlib.Data.List.Nodup
import ReportAssembly.Proofs.BoundForms
import ReportAssembly.Proofs.DepthFirst
import ReportAssembly.Proofs.RunInduction

/-!
What a composition that succeeds has done. Main statement: it has compiled the templates in the
depth-first order of the reference graph, each from its stored design, then the bound master.
-/

namespace ReportAssembly

structure Design.Bindable (d : Design) : Prop where
  quoted : d.Quoted
  undeclared : ∀ name ∈ d.references, ¬d.Declares name

theorem Design.bindable_of_free {d : Design}
    (h : ∀ p ∈ d.placeholders, ∃ name, p.name? = some name ∧ d.parameter? name = none) :
    d.Bindable := by
  constructor
  · intro p hp
    obtain ⟨name, hname, -⟩ := h p hp
    exact ⟨name, (p.name?_eq_some_iff name).mp hname⟩
  · intro n hn
    obtain ⟨p, hp, hpn⟩ := List.mem_filterMap.mp hn
    obtain ⟨name, hname, hfree⟩ := h p hp
    obtain rfl := Option.some.inj (hpn.symm.trans hname)
    exact (d.parameter?_eq_none_iff n).mp hfree

/-- A name is declared last exactly if it is declared. -/
theorem Design.lastDeclared?_eq_none_iff (d : Design) (name : String) :
    d.lastDeclared? name = none ↔ ¬d.Declares name := by
  simp [lastDeclared?, Declares]

def Store.references (s : Store) (name : String) : List String :=
  match (s.lookup name).outcome with
  | .ok d => d.references
  | .error _ => []

theorem Store.references_eq {s : Store} {name : String} {d : Design}
    (h : (s.lookup name).outcome = .ok d) : s.references name = d.references := by
  rw [Store.references, h]

structure Made (α : Type) where
  name : String
  design : Design
  artifact : α

def Made.binding {α : Type} (m : Made α) : String × α :=
  (m.name, m.artifact)

@[simp] theorem Made.map_fst_binding {α : Type} (made : List (Made α)) :
    (made.map binding).map (·.1) = made.map (·.name) := by
  simp [binding, Function.comp_def]

namespace Composer

variable {α ε : Type} (c : Composer α ε) (reserved : String → Option ValueType)

def form (d : Design) : Design :=
  if c.nested = true then d.bound else d

def needs (name : String) : List String :=
  if c.nested = true then c.store.references name else []

theorem needs_eq {name : String} {d : Design} (hn : c.nested = true)
    (hd : (c.store.lookup name).outcome = .ok d) : c.needs name = d.references := by
  rw [needs, if_pos hn, Store.references_eq hd]

theorem needs_nested (store : Store) (compile : Design → Except ε α) :
    (⟨store, compile, true⟩ : Composer α ε).needs = store.references := by
  funext n
  exact if_pos rfl

theorem needs_flat (store : Store) (compile : Design → Except ε α) (name : String) :
    (⟨store, compile, false⟩ : Composer α ε).needs name = [] :=
  if_neg Bool.false_ne_true

theorem form_flat (store : Store) (compile : Design → Except ε α) (d : Design) :
    (⟨store, compile, false⟩ : Composer α ε).form d = d :=
  if_neg Bool.false_ne_true

/-- The names that a run does not go into again: those compiled and, if it is nested, in hand. -/
def met (chain : List String) (s : Progress α) : Set String :=
  {n | n ∈ s.compiled.map (·.1) ∨ (c.nested = true ∧ n ∈ chain)}

structure Makes (m : Made α) : Prop where
  stored : (c.store.lookup m.name).outcome = .ok m.design
  unreserved : reserved m.name = none
  bindable : c.nested = true → m.design.Bindable
  accepted : c.compile (c.form m.design) = .ok m.artifact

/-- Between two points of a run the templates in `made` have been compiled, and with them all that
the names `ns` ask for. -/
structure Finishes (chain ns : List String) (s : Progress α) (made : List (Made α))
    (s' : Progress α) : Prop where
  compiled : s'.compiled = s.compiled ++ made.map Made.binding
  handed : s'.events.filterMap Event.handed? =
    s.events.filterMap Event.handed? ++ made.map fun m => c.form m.design
  makes : ∀ m ∈ made, c.Makes reserved m
  apart : c.nested = true → ∀ m ∈ made, m.name ∉ chain
  order : DepthFirst c.needs (c.met chain s) ns (made.map (·.name))
  done : ∀ n ∈ ns, n ∈ s'.compiled.map (·.1)
  layered : Layered c.needs {n | n ∈ s.compiled.map (·.1)} (made.map (·.name))

variable {c reserved} {chain ns ms : List String} {s s₁ s₂ : Progress α} {made made' : List (Made α)}

theorem isCompiled_iff {name : String} :
    s.isCompiled name = true ↔ name ∈ s.compiled.map (·.1) := by
  simp [Progress.isCompiled]

theorem Finishes.nil : c.Finishes reserved chain [] s [] s :=
  ⟨by simp, by simp, by simp, by simp, .nil _, by simp, trivial⟩

theorem Finishes.known {name : String} (h : s.isCompiled name = true) :
    c.Finishes reserved chain [name] s [] s := by
  have hmem : name ∈ s.compiled.map (·.1) := isCompiled_iff.mp h
  exact ⟨by simp, by simp, by simp, by simp, .again (Or.inl hmem) (.nil _),
    List.forall_mem_singleton.mpr hmem, trivial⟩

/-- What is compiled afterwards is what was compiled before and what has been made. -/
theorem Finishes.mem_compiled (h : c.Finishes reserved chain ns s made s₁) (n : String) :
    n ∈ s₁.compiled.map (·.1) ↔ n ∈ s.compiled.map (·.1) ∨ n ∈ made.map (·.name) := by
  rw [h.compiled, List.map_append, List.mem_append, Made.map_fst_binding]

/-- The names met grow by those that have been made. -/
theorem Finishes.met_eq (h : c.Finishes reserved chain ns s made s₁) :
    c.met chain s₁ = c.met chain s ∪ {n | n ∈ made.map (·.name)} := by
  ext n
  simp only [met, Set.mem_ofPred_eq, Set.mem_union, h.mem_compiled]
  tauto

/-- Two stretches of a run make one. -/
theorem Finishes.append (h : c.Finishes reserved chain ns s made s₁)
    (h' : c.Finishes reserved chain ms s₁ made' s₂) :
    c.Finishes reserved chain (ns ++ ms) s (made ++ made') s₂ where
  compiled := by rw [h'.compiled, h.compiled, List.map_append, List.append_assoc]
  handed := by rw [h'.handed, h.handed, List.map_append, List.append_assoc]
  makes := List.forall_mem_append.mpr ⟨h.makes, h'.makes⟩
  apart hn := List.forall_mem_append.mpr ⟨h.apart hn, h'.apart hn⟩
  order := by
    rw [List.map_append]
    exact h.order.append (h.met_eq ▸ h'.order)
  done := by
    refine List.forall_mem_append.mpr ⟨fun n hn => ?_, h'.done⟩
    exact (h'.mem_compiled n).mpr (Or.inl (h.done n hn))
  layered := by
    have hset : {n | n ∈ s.compiled.map (·.1)} ∪ {n | n ∈ made.map (·.name)} =
        {n | n ∈ s₁.compiled.map (·.1)} := by
      ext n
      exact (h.mem_compiled n).symm
    rw [List.map_append, layered_append, hset]
    exact ⟨h.layered, h'.layered⟩

/-- A template is compiled once all that it needs is. -/
theorem Finishes.complete {m : Made α} {answer : Answer} (hs : s.isCompiled m.name = false)
    (hc : ¬(c.nested = true ∧ m.name ∈ chain)) (hm : c.Makes reserved m)
    (h : c.Finishes reserved (chain ++ [m.name]) (c.needs m.name)
      (s.record (.lookup m.name answer)) made s₁) :
    c.Finishes reserved chain [m.name] s (made ++ [m])
      ((s₁.record (.compile (some m.name) (c.form m.design) true)).complete m.name m.artifact) := by
  have hnew : m.name ∉ s.compiled.map (·.1) := by
    rw [← isCompiled_iff, hs]
    exact Bool.false_ne_true
  have hcompiled : s₁.compiled = s.compiled ++ made.map Made.binding := h.compiled
  constructor
  case compiled => simp [Progress.complete, Progress.record, hcompiled, Made.binding]
  case handed =>
    have hh := h.handed
    simp only [Progress.record, List.filterMap_append, List.filterMap_cons, Event.handed?,
      List.filterMap_nil, List.append_nil] at hh
    simp [Progress.complete, Progress.record, hh, Event.handed?]
  case makes => exact List.forall_mem_append.mpr ⟨h.makes, List.forall_mem_singleton.mpr hm⟩
  case apart =>
    intro hn
    refine List.forall_mem_append.mpr ⟨fun k hk hmem => ?_, List.forall_mem_singleton.mpr ?_⟩
    · exact h.apart hn k hk (List.mem_append_left _ hmem)
    · exact fun hmem => hc ⟨hn, hmem⟩
  case order =>
    have hfresh : m.name ∉ c.met chain s := fun hmet => hmet.elim hnew hc
    rw [List.map_append]
    refine .first hfresh ?_ (.nil _)
    by_cases hn : c.nested = true
    · have hmet : c.met (chain ++ [m.name]) (s.record (.lookup m.name answer)) =
          insert m.name (c.met chain s) := by
        ext n
        simp only [met, Progress.record, Set.mem_ofPred_eq, Set.mem_insert_iff, hn, true_and,
          List.mem_append, List.mem_singleton]
        tauto
      exact hmet ▸ h.order
    · have horder := h.order
      rw [needs, if_neg hn] at horder ⊢
      rw [horder.eq_nil]
      exact .nil _
  case done => simp [Progress.complete, Progress.record]
  case layered =>
    rw [List.map_append, layered_append]
    refine ⟨h.layered, fun n hn => ?_, trivial⟩
    rw [Set.mem_union]
    exact (h.mem_compiled n).mp (h.done n hn)

/-- A compilation that succeeds records its artifact last. -/
theorem compileTemplate_eq_ok {name : String} {d : Design}
    (h : (c.compileTemplate name d s).outcome = .ok ()) :
    ∃ artifact, c.compile d = .ok artifact ∧ (c.compileTemplate name d s).progress =
      (s.record (.compile (some name) d true)).complete name artifact := by
  unfold compileTemplate at h ⊢
  cases hd : c.compile d with
  | error cause => rw [hd] at h; exact nomatch h
  | ok artifact => exact ⟨artifact, rfl, rfl⟩

variable (c reserved)

def FinishesAll (chain : List String) (ps : List Placeholder) (b : Binder) (d : Design)
    (s : Progress α) (d' : Design) (t : Step α ε Unit) : Prop :=
  ∀ d₀ qs, qs ++ ps = d₀.placeholders → Binder.Through d₀ qs b d → t.outcome = .ok () →
    d' = d₀.bound ∧
    (∀ p ∈ ps, ∃ name, p.name? = some name ∧
      (name ∈ qs.filterMap Placeholder.name? ∨ d₀.parameter? name = none)) ∧
    ∃ made, c.Finishes reserved chain (ps.filterMap Placeholder.name?) s made t.progress

variable {c reserved}

/-- What a run from the first placeholder of a design to the last has done. -/
theorem FinishesAll.whole {d d' : Design} {t : Step α ε Unit}
    (h : c.FinishesAll reserved chain d.placeholders .empty d s d' t) (ht : t.outcome = .ok ()) :
    d' = d.bound ∧ d.Bindable ∧
      ∃ made, c.Finishes reserved chain d.references s made t.progress := by
  obtain ⟨hd, hps, hmade⟩ := h d [] rfl (Binder.through_nil d) ht
  refine ⟨hd, Design.bindable_of_free fun p hp => ?_, hmade⟩
  obtain ⟨name, hname, hfree⟩ := hps p hp
  exact ⟨name, hname, hfree.resolve_left (by simp)⟩

variable (c reserved)

/-- What a run has done when it has not failed. -/
theorem run_finishes :
    (∀ chain ps b d s, c.FinishesAll reserved chain ps b d s
      (c.bindAll reserved chain ps b d s).1 (c.bindAll reserved chain ps b d s).2) ∧
    ∀ chain p name s, (c.ensure reserved chain p name s).outcome = .ok () →
      ∃ made, c.Finishes reserved chain [name] s made
        (c.ensure reserved chain p name s).progress := by
  refine c.run_induction reserved (c.FinishesAll reserved)
    (fun chain p name s t => t.outcome = .ok () →
      ∃ made, c.Finishes reserved chain [name] s made t.progress)
    ?nil ?unnamed ?unready ?unbound ?cons ?known ?conflict ?circular ?missing ?inner ?composed
    ?plain
  case nil =>
    intro chain b d s d₀ qs hqs hthrough _
    rw [List.append_nil] at hqs
    refine ⟨?_, by simp, [], .nil⟩
    rw [hthrough.design_eq, hqs, d₀.boundAt_placeholders]
  case unnamed => exact fun _ _ _ _ _ _ _ _ _ _ _ _ hok => nomatch hok
  case unready =>
    intro _ _ _ _ _ _ _ t e _ _ herr _ _ _ _ hok
    exact nomatch herr.symm.trans hok
  case unbound => exact fun _ _ _ _ _ _ _ _ _ _ _ _ _ _ _ _ _ hok => nomatch hok
  case cons =>
    intro chain p ps b d s name t b' d' d'' r hname hE ht hbind ih d₀ qs hqs hthrough hok
    have hp : p ∈ d₀.placeholders := by rw [← hqs]; simp
    obtain ⟨hfree, hnext⟩ := hthrough.of_bind_eq_ok hp hname hbind
    obtain ⟨hd, hps, made', hfin'⟩ := ih d₀ (qs ++ [p]) (by rw [← hqs]; simp) hnext hok
    obtain ⟨made, hfin⟩ := hE ht
    refine ⟨hd, List.forall_mem_cons.mpr ⟨⟨name, hname, hfree⟩, fun q hq => ?_⟩,
      made ++ made', ?_⟩
    · obtain ⟨m, hm, hfree'⟩ := hps q hq
      refine ⟨m, hm, ?_⟩
      rw [List.filterMap_append, List.mem_append] at hfree'
      rcases hfree' with (hold | hself) | hnone
      · exact Or.inl hold
      · obtain rfl : m = name := by simpa [hname] using hself
        exact hfree
      · exact Or.inr hnone
    · rw [List.filterMap_cons_some hname]
      exact hfin.append hfin'
  case known => exact fun chain p name s hs _ => ⟨[], .known hs⟩
  case conflict => exact fun _ _ _ _ _ _ _ hok => nomatch hok
  case circular => exact fun _ _ _ _ _ _ _ _ hok => nomatch hok
  case missing => exact fun _ _ _ _ _ _ _ _ _ hok => nomatch hok
  case inner =>
    intro _ _ _ _ _ _ t e _ _ _ _ _ _ herr hok
    exact nomatch herr.symm.trans hok
  case composed =>
    intro chain p name s d d' t hs hres hn hc hd hB ht hok
    obtain ⟨rfl, hbindable, made, hfin⟩ := hB.whole ht
    obtain ⟨artifact, hcompile, hprogress⟩ := compileTemplate_eq_ok hok
    have hform : c.form d = d.bound := if_pos hn
    rw [← c.needs_eq hn hd] at hfin
    refine ⟨made ++ [⟨name, d, artifact⟩], ?_⟩
    rw [hprogress, ← hform]
    exact Finishes.complete (m := ⟨name, d, artifact⟩) hs (fun h => hc h.2)
      ⟨hd, hres, fun _ => hbindable, hform ▸ hcompile⟩ hfin
  case plain =>
    intro chain p name s d hs hres hn hd hok
    obtain ⟨artifact, hcompile, hprogress⟩ := compileTemplate_eq_ok hok
    have hform : c.form d = d := if_neg (by simp [hn])
    have hneeds : c.needs name = [] := if_neg (by simp [hn])
    have hinner : c.Finishes reserved (chain ++ [name]) (c.needs name)
        (s.record (.lookup name (c.store.lookup name))) []
        (s.record (.lookup name (c.store.lookup name))) := by
      rw [hneeds]
      exact .nil
    refine ⟨[] ++ [⟨name, d, artifact⟩], ?_⟩
    rw [hprogress]
    have hdone := Finishes.complete (m := ⟨name, d, artifact⟩) hs (by simp [hn])
      ⟨hd, hres, by simp [hn], hform.symm ▸ hcompile⟩ hinner
    dsimp only at hdone
    rwa [hform] at hdone

structure Completed (master : Design) (package : Package α) (made : List (Made α)) : Prop where
  bindable : master.Bindable
  bindings : package.bindings = made.map Made.binding
  makes : ∀ m ∈ made, c.Makes master.lastDeclared? m
  rewritten : (c.compose master).master = master.bound
  accepted : c.compile master.bound = .ok package.report
  handed : (c.compose master).handed = (made.map fun m => c.form m.design) ++ [master.bound]
  order : DepthFirst c.needs ∅ master.references (made.map (·.name))
  layered : Layered c.needs ∅ (made.map (·.name))
  apart : c.nested = true → master.name ∉ made.map (·.name)

/-- A composition whose placeholders cannot be bound ends with the error. -/
theorem compose_eq_of_error {master d : Design} {t : Step α ε Unit} {e : ComposeError ε}
    (hrun : c.bindAll master.lastDeclared? [master.name] master.placeholders .empty master .start =
      (d, t)) (ht : t.outcome = .error e) :
    c.compose master = ⟨d, t.progress.events, .error e⟩ := by
  unfold compose
  rw [hrun]
  dsimp only
  rw [ht]

/-- A composition that has bound all placeholders compiles its master. -/
theorem compose_eq_of_ok {master d : Design} {t : Step α ε Unit}
    (hrun : c.bindAll master.lastDeclared? [master.name] master.placeholders .empty master .start =
      (d, t)) (ht : t.outcome = .ok ()) :
    c.compose master =
      match c.compile d with
      | .error cause =>
        ⟨d, t.progress.events ++ [.compile none d false], .error (.masterRejected d.name cause)⟩
      | .ok report =>
        ⟨d, t.progress.events ++ [.compile none d true], .ok ⟨report, t.progress.compiled⟩⟩ := by
  unfold compose
  rw [hrun]
  dsimp only
  cases c.compile d with
  | error cause => rw [ht]
  | ok report => rw [ht]

/-- A package comes from a master whose placeholders were bound and which was then accepted. -/
theorem compose_outcome_eq_ok {master : Design} {package : Package α}
    (h : (c.compose master).outcome = .ok package) :
    ∃ d t, c.bindAll master.lastDeclared? [master.name] master.placeholders .empty master .start =
        (d, t) ∧ t.outcome = .ok () ∧ c.compile d = .ok package.report ∧
      package.bindings = t.progress.compiled ∧
      c.compose master = ⟨d, t.progress.events ++ [.compile none d true], .ok package⟩ := by
  generalize hrun : c.bindAll master.lastDeclared? [master.name] master.placeholders .empty master
    .start = run
  obtain ⟨d, t⟩ := run
  cases ht : t.outcome with
  | error e =>
    rw [c.compose_eq_of_error hrun ht] at h
    exact nomatch h
  | ok u =>
    have hcompose := c.compose_eq_of_ok hrun ht
    cases hd : c.compile d with
    | error cause =>
      rw [hcompose, hd] at h
      exact nomatch h
    | ok report =>
      rw [hcompose, hd] at h
      rw [hd] at hcompose
      obtain rfl := Except.ok.inj h
      exact ⟨d, t, rfl, ht, hd, rfl, hcompose⟩

/-- A composition that succeeds has completed a list of templates. -/
theorem Completed.of_compose_eq_ok {master : Design} {package : Package α}
    (h : (c.compose master).outcome = .ok package) : ∃ made, c.Completed master package made := by
  obtain ⟨d, t, hrun, hout, haccepted, hbindings, hcompose⟩ := c.compose_outcome_eq_ok h
  have hrunall := (c.run_finishes master.lastDeclared?).1 [master.name] master.placeholders .empty
    master .start
  rw [hrun] at hrunall
  obtain ⟨hd, hbindable, made, hfin⟩ := hrunall.whole hout
  obtain rfl : d = master.bound := hd
  have hcompiled : t.progress.compiled = made.map Made.binding := by
    simpa [Progress.start] using hfin.compiled
  have hlayered : Layered c.needs ∅ (made.map (·.name)) := by
    simpa [Progress.start, Set.eq_empty_iff_forall_notMem] using hfin.layered
  have hroots : ∀ n ∈ master.references, n ∈ made.map (·.name) := by
    intro n hn
    have hdone := hfin.done n hn
    rwa [hcompiled, Made.map_fst_binding] at hdone
  have hapart : c.nested = true → master.name ∉ made.map (·.name) := by
    intro hn hmem
    obtain ⟨m, hm, hname⟩ := List.mem_map.mp hmem
    exact hfin.apart hn m hm (by simp [hname])
  refine ⟨made, ⟨hbindable, hbindings.trans hcompiled, hfin.makes, by rw [hcompose], haccepted, ?_,
    ?_, hlayered, hapart⟩⟩
  · have hh := hfin.handed
    simp only [Progress.start, List.filterMap_nil, List.nil_append] at hh
    simp [Composition.handed, hcompose, hh, Event.handed?]
  · by_cases hn : c.nested = true
    · have hmet : c.met [master.name] .start = insert master.name ∅ := by
        ext n
        simp [met, Progress.start, hn]
      -- The name of the master counts as met in the run, but nothing leads there.
      refine DepthFirst.erase_met (hmet ▸ hfin.order) fun hreach => hapart hn ?_
      exact hlayered.mem_of_reached hroots hreach
    · have hmet : c.met [master.name] .start = ∅ := by
        ext n
        simp [met, Progress.start, hn]
      exact hmet ▸ hfin.order

namespace Completed

variable {c} {master : Design} {package : Package α} {made : List (Made α)}

theorem names_eq (h : c.Completed master package made) : package.names = made.map (·.name) := by
  rw [Package.names, h.bindings, Made.map_fst_binding]

theorem subreports_eq (h : c.Completed master package made) :
    package.subreports = made.map (·.artifact) := by
  rw [Package.subreports, h.bindings, List.map_map]
  rfl

/-- No template is made twice. -/
theorem nodup_names (h : c.Completed master package made) : (made.map (·.name)).Nodup :=
  h.order.nodup_and_fresh.1

/-- Each template that has been made is found under its name. -/
theorem binding?_eq (h : c.Completed master package made) {m : Made α} (hm : m ∈ made) :
    package.binding? m.name = some m.artifact := by
  obtain ⟨front, back, rfl⟩ := List.append_of_mem hm
  have hnodup := h.nodup_names
  rw [List.map_append, List.map_cons, List.nodup_append] at hnodup
  rw [Package.binding?, h.bindings, List.lookup_eq_some_iff]
  refine ⟨front.map Made.binding, back.map Made.binding, by simp [Made.binding], ?_⟩
  intro entry hentry
  obtain ⟨k, hk, rfl⟩ := List.mem_map.mp hentry
  have hne := hnodup.2.2 k.name (List.mem_map_of_mem hk) m.name List.mem_cons_self
  simpa [Made.binding] using hne.symm

theorem mem_names_iff (h : c.Completed master package made) (n : String) :
    n ∈ package.names ↔ ∃ m ∈ made, m.name = n := by
  rw [h.names_eq, List.mem_map]

/-- What the master refers to has been made. -/
theorem exists_made (h : c.Completed master package made) {n : String}
    (hn : n ∈ master.references) : ∃ m ∈ made, m.name = n :=
  List.mem_map.mp ((h.order.covers.1 n hn).resolve_left (Set.notMem_empty n))

/-- The sub-report at the place of a name is the one bound to it. -/
theorem getElem?_subreports (h : c.Completed master package made) {i : Nat} {n : String}
    (hn : package.names[i]? = some n) :
    ∃ m ∈ made, m.name = n ∧ package.subreports[i]? = some m.artifact ∧
      package.binding? n = some m.artifact := by
  rw [h.names_eq, List.getElem?_map] at hn
  obtain ⟨m, hi, rfl⟩ := Option.map_eq_some_iff.mp hn
  have hm : m ∈ made := List.mem_of_getElem? hi
  refine ⟨m, hm, rfl, ?_, h.binding?_eq hm⟩
  rw [h.subreports_eq, List.getElem?_map, hi, Option.map_some]

/-- No name stands at two places. -/
theorem idxOf_names (h : c.Completed master package made) {i : Nat} {n : String}
    (hn : package.names[i]? = some n) : package.names.idxOf n = i := by
  have hnodup : package.names.Nodup := h.names_eq ▸ h.nodup_names
  obtain ⟨hlength, hget⟩ := List.getElem?_eq_some_iff.mp hn
  rw [← hget]
  exact hnodup.idxOf_getElem i hlength

section Nested

variable {store : Store} {compile : Design → Except ε α}
  (h : (⟨store, compile, true⟩ : Composer α ε).Completed master package made)

include h

/-- Each name of a package comes after all that it refers to. -/
theorem layered_names : Layered store.references ∅ package.names := by
  rw [h.names_eq, ← needs_nested store compile]
  exact h.layered

/-- A package has the names that can be reached from the master. -/
theorem mem_names_iff_reached (n : String) :
    n ∈ package.names ↔ Reached store.references master.references n := by
  rw [h.names_eq, ← needs_nested store compile]
  exact h.order.mem_iff_reached n

end Nested

end Completed

end Composer

end ReportAssembly
