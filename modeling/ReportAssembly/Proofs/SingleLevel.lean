import ReportAssembly.Proofs.Acceptance

namespace ReportAssembly

variable {α ε : Type}

def Store.design? (s : Store) (name : String) : Option Design :=
  (s.lookup name).outcome.toOption

/-- The master quotes names of stored templates that are not declared, and the compiler accepts the
templates as they are stored and the bound master. -/
structure Design.FlatlyReferenced (master : Design) (store : Store)
    (compile : Design → Except ε α) : Prop where
  quoted : master.Quoted
  undeclared : ∀ n ∈ master.references, ¬master.Declares n
  found : ∀ n ∈ master.references, ∃ d, (store.lookup n).outcome = .ok d
  accepted_stored : ∀ n ∈ master.references, ∀ d, (store.lookup n).outcome = .ok d →
    ∃ artifact, compile d = .ok artifact
  accepted : ∃ report, compile master.bound = .ok report

/-- The package of one level: its names are those that the master refers to, its sub-reports are
made of the stored templates, and the compiler has seen these and then the bound master. -/
structure Composition.FlatlyPackaged (r : Composition α ε) (master : Design) (store : Store)
    (compile : Design → Except ε α) (package : Package α) : Prop where
  names : package.names = master.references.eraseDups
  length_subreports : package.subreports.length = package.names.length
  subreports : ∀ (i : Nat) (n : String), package.names[i]? = some n → ∃ d artifact,
    store.design? n = some d ∧ compile d = .ok artifact ∧
    package.subreports[i]? = some artifact ∧ package.binding? n = some artifact
  rewritten : r.master = master.bound
  handed : r.handed.map some = package.names.map store.design? ++ [some master.bound]
  report : compile master.bound = .ok package.report

theorem reached_iff_mem {refs : String → List String} (hrefs : ∀ n, refs n = [])
    (roots : List String) (n : String) : Reached refs roots n ↔ n ∈ roots := by
  constructor
  · rintro ⟨r, hr, hreach⟩
    rcases Relation.ReflTransGen.cases_head hreach with rfl | ⟨m, hm, -⟩
    · exact hr
    · rw [Refers, hrefs r] at hm
      exact absurd hm List.not_mem_nil
  · exact fun hn => ⟨n, hn, .refl⟩

/-- What a flat composition asks of its master are references to stored templates. -/
theorem composable_iff_flatlyReferenced (store : Store) (compile : Design → Except ε α)
    (master : Design) :
    (⟨store, compile, false⟩ : Composer α ε).Composable master ↔
      master.FlatlyReferenced store compile := by
  have hform := Composer.form_flat store compile
  have hflat {p : Prop} : (⟨store, compile, false⟩ : Composer α ε).nested = true → p :=
    fun hnested => nomatch hnested
  constructor
  · rintro ⟨hbindable, ⟨hmakes, -⟩, -, haccepted⟩
    have hmade {n : String} (hn : n ∈ master.references) := hmakes n ⟨n, hn, .refl⟩
    refine ⟨hbindable.quoted, hbindable.undeclared, fun n hn => ?_, fun n hn d hd => ?_, haccepted⟩
    · obtain ⟨m, rfl, hm⟩ := hmade hn
      exact ⟨m.design, hm.stored⟩
    · obtain ⟨m, rfl, hm⟩ := hmade hn
      obtain rfl := Except.ok.inj (hm.stored.symm.trans hd)
      exact ⟨m.artifact, hform m.design ▸ hm.accepted⟩
  · intro h
    refine ⟨⟨h.quoted, h.undeclared⟩, ⟨fun n hn => ?_, hflat⟩, hflat, h.accepted⟩
    have hmem : n ∈ master.references :=
      (reached_iff_mem (Composer.needs_flat store compile) _ n).mp hn
    obtain ⟨d, hd⟩ := h.found n hmem
    obtain ⟨artifact, hartifact⟩ := h.accepted_stored n hmem d hd
    exact ⟨⟨n, d, artifact⟩, rfl, hd,
      (master.lastDeclared?_eq_none_iff n).mpr (h.undeclared n hmem),
      hflat, (hform d).symm ▸ hartifact⟩

/-- A flat composition packages the templates as they are stored. -/
theorem Composer.Completed.flatlyPackaged {store : Store} {compile : Design → Except ε α}
    {master : Design} {package : Package α} {made : List (Made α)}
    (h : (⟨store, compile, false⟩ : Composer α ε).Completed master package made) :
    ((⟨store, compile, false⟩ : Composer α ε).compose master).FlatlyPackaged master store compile
      package := by
  have hform := Composer.form_flat store compile
  have hstored {m : Made α} (hm : m ∈ made) : store.design? m.name = some m.design := by
    rw [Store.design?, (h.makes m hm).stored]
    rfl
  constructor
  case names => rw [h.names_eq, h.order.eq_eraseDups (Composer.needs_flat store compile)]
  case length_subreports => rw [h.names_eq, h.subreports_eq, List.length_map, List.length_map]
  case subreports =>
    intro i n hn
    obtain ⟨m, hm, rfl, hsub, hbinding⟩ := h.getElem?_subreports hn
    exact ⟨m.design, m.artifact, hstored hm, hform m.design ▸ (h.makes m hm).accepted, hsub,
      hbinding⟩
  case rewritten => exact h.rewritten
  case handed =>
    rw [h.handed, h.names_eq, List.map_append, List.map_map, List.map_map]
    congr 1
    apply List.map_congr_left
    intro m hm
    exact (congrArg some (hform m.design)).trans (hstored hm).symm
  case report => exact h.accepted

/-- Without nesting a composition succeeds exactly on masters that are flatly referenced, and
packages the templates in the order of their first references. -/
theorem single_level_compose (store : Store) (compile : Design → Except ε α) (master : Design) :
    ((∃ package, ((⟨store, compile, false⟩ : Composer α ε).compose master).outcome = .ok package) ↔
      master.FlatlyReferenced store compile) ∧
    ∀ package, ((⟨store, compile, false⟩ : Composer α ε).compose master).outcome = .ok package →
      ((⟨store, compile, false⟩ : Composer α ε).compose master).FlatlyPackaged master store compile
        package := by
  constructor
  · rw [Composer.compose_succeeds_iff]
    exact composable_iff_flatlyReferenced store compile master
  · intro package hok
    obtain ⟨made, h⟩ := Composer.Completed.of_compose_eq_ok _ hok
    exact h.flatlyPackaged

end ReportAssembly
