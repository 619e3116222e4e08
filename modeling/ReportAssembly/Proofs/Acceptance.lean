import ReportAssembly.Proofs.Completion

namespace ReportAssembly

theorem Answer.design_eq_ok_of_outcome {ε : Type} {a : Answer} {d : Design} (name : String)
    (p : Placeholder) (h : a.outcome = .ok d) :
    a.design name p = (.ok d : Except (ComposeError ε) Design) := by
  rw [Answer.design, h]
  rfl

namespace Composer

variable {α ε : Type} (c : Composer α ε) (reserved : String → Option ValueType)

structure Clear (roots : List String) : Prop where
  makes : ∀ n, Reached c.needs roots n → ∃ m : Made α, m.name = n ∧ c.Makes reserved m
  acyclic : c.nested = true → ∀ n, Reached c.needs roots n →
    ¬Relation.TransGen (Refers c.needs) n n

variable {c reserved}

theorem compileTemplate_outcome {name : String} {d : Design} {artifact : α} {s : Progress α}
    (h : c.compile d = .ok artifact) : (c.compileTemplate name d s).outcome = .ok () := by
  rw [compileTemplate, h]

/-- What a name needs can be reached with it. -/
theorem reached_of_needs {roots : List String} {n m : String} (hn : Reached c.needs roots n)
    (hm : m ∈ c.needs n) : Reached c.needs roots m := by
  obtain ⟨r, hr, hreach⟩ := hn
  exact ⟨r, hr, hreach.tail hm⟩

/-- Names in hand cannot be reached from a name that does not lead to them, nor the name itself. -/
theorem Clear.not_reached_needs {roots chain : List String} {name : String}
    (hclear : c.Clear reserved roots) (hn : c.nested = true) (hroot : Reached c.needs roots name)
    (hchain : ∀ m ∈ chain, ¬Reached c.needs [name] m) :
    ∀ m ∈ chain ++ [name], ¬Reached c.needs (c.needs name) m := by
  rintro m hm ⟨k, hk, hreach⟩
  rcases List.mem_append.mp hm with hm | hm
  · exact hchain m hm ⟨name, List.mem_singleton_self name, Relation.ReflTransGen.head hk hreach⟩
  · obtain rfl := List.mem_singleton.mp hm
    exact hclear.acyclic hn m hroot (Relation.TransGen.head' hk hreach)

variable (c reserved)

def SucceedsAll (roots chain : List String) (ps : List Placeholder) (b : Binder)
    (d d' : Design) (t : Step α ε Unit) : Prop :=
  ∀ d₀ qs, qs ++ ps = d₀.placeholders → Binder.Through d₀ qs b d → d₀.Bindable →
    (∀ n ∈ ps.filterMap Placeholder.name?, Reached c.needs roots n) →
    (c.nested = true → ∀ m ∈ chain, ¬Reached c.needs (ps.filterMap Placeholder.name?) m) →
    t.outcome = .ok () ∧ d' = d₀.bound

variable {c reserved}

/-- A template below the roots is bound as a whole, and the compiler accepts what comes of it. -/
theorem SucceedsAll.template {roots chain : List String} {name : String} {d d' : Design}
    {t : Step α ε Unit} (hclear : c.Clear reserved roots) (hn : c.nested = true)
    (hd : (c.store.lookup name).outcome = .ok d)
    (h : c.SucceedsAll roots (chain ++ [name]) d.placeholders .empty d d' t)
    (hroot : Reached c.needs roots name) (hchain : ∀ m ∈ chain, ¬Reached c.needs [name] m) :
    t.outcome = .ok () ∧ d' = d.bound ∧ ∃ artifact, c.compile d.bound = .ok artifact := by
  obtain ⟨m, rfl, hm⟩ := hclear.makes name hroot
  obtain rfl := Except.ok.inj (hm.stored.symm.trans hd)
  have hrefs : m.design.placeholders.filterMap Placeholder.name? = c.needs m.name :=
    (c.needs_eq hn hd).symm
  have haccepted := hm.accepted
  rw [form, if_pos hn] at haccepted
  obtain ⟨hout, hbound⟩ := h m.design [] rfl (Binder.through_nil _) (hm.bindable hn)
    (fun k hk => reached_of_needs hroot (hrefs ▸ hk))
    fun hn => hrefs ▸ hclear.not_reached_needs hn hroot hchain
  exact ⟨hout, hbound, m.artifact, haccepted⟩

variable (c reserved)

/-- A run does not fail where the way is clear and does not lead back to a name in hand. -/
theorem run_succeeds {roots : List String} (hclear : c.Clear reserved roots) :
    (∀ chain ps b d s, c.SucceedsAll roots chain ps b d
      (c.bindAll reserved chain ps b d s).1 (c.bindAll reserved chain ps b d s).2) ∧
    ∀ chain p name s, Reached c.needs roots name →
      (c.nested = true → ∀ m ∈ chain, ¬Reached c.needs [name] m) →
      (c.ensure reserved chain p name s).outcome = .ok () := by
  refine c.run_induction reserved
    (fun chain ps b d _ d' t => c.SucceedsAll roots chain ps b d d' t)
    (fun chain p name s t => Reached c.needs roots name →
      (c.nested = true → ∀ m ∈ chain, ¬Reached c.needs [name] m) → t.outcome = .ok ())
    ?nil ?unnamed ?unready ?unbound ?cons ?known ?conflict ?circular ?missing ?inner ?composed
    ?plain
  case nil =>
    intro chain b d s d₀ qs hqs hthrough _ _ _
    rw [List.append_nil] at hqs
    exact ⟨rfl, by rw [hthrough.design_eq, hqs, d₀.boundAt_placeholders]⟩
  case unnamed =>
    intro chain p ps b d s e he d₀ qs hqs _ hbindable _ _
    obtain ⟨name, hquotes⟩ := hbindable.quoted p (by rw [← hqs]; simp)
    have hname : p.name? = some name := (p.name?_eq_some_iff name).mpr hquotes
    have hok := (p.templateName_eq_ok_iff_name? (ε := ε) name).mpr hname
    exact nomatch he.symm.trans hok
  case unready =>
    intro chain p ps b d s name t e hname hE herr d₀ qs _ _ _ hroots hchain
    have ht := hE (hroots name (by simp [hname])) fun hn m hm ⟨k, hk, hreach⟩ =>
      hchain hn m hm ⟨k, by simp [hname, List.mem_singleton.mp hk], hreach⟩
    exact nomatch herr.symm.trans ht
  case unbound =>
    intro chain p ps b d s name t e hname _ _ herr d₀ qs hqs hthrough hbindable _ _
    have hp : p ∈ d₀.placeholders := by rw [← hqs]; simp
    have hfree : d₀.parameter? name = none :=
      (d₀.parameter?_eq_none_iff name).mpr
        (hbindable.undeclared name (List.mem_filterMap.mpr ⟨p, hp, hname⟩))
    obtain ⟨b', d', hok, -⟩ := hthrough.bind_eq_ok (ε := ε) hp hname (Or.inr hfree)
    exact nomatch herr.symm.trans hok
  case cons =>
    intro chain p ps b d s name t b' d' d'' r hname _ _ hbind ih d₀ qs hqs hthrough hbindable
      hroots hchain
    have hp : p ∈ d₀.placeholders := by rw [← hqs]; simp
    obtain ⟨-, hnext⟩ := hthrough.of_bind_eq_ok hp hname hbind
    rw [List.filterMap_cons_some hname] at hroots hchain
    exact ih d₀ (qs ++ [p]) (by rw [← hqs]; simp) hnext hbindable
      (fun n hn => hroots n (List.mem_cons_of_mem _ hn))
      fun hn m hm ⟨k, hk, hreach⟩ => hchain hn m hm ⟨k, List.mem_cons_of_mem _ hk, hreach⟩
  case known => exact fun _ _ _ _ _ _ _ => rfl
  case conflict =>
    intro chain p name s existing _ hres hroot _
    obtain ⟨m, rfl, hm⟩ := hclear.makes name hroot
    exact nomatch hm.unreserved.symm.trans hres
  case circular =>
    intro chain p name s _ _ hn hmem hroot hchain
    exact absurd ⟨name, List.mem_singleton_self name, .refl⟩ (hchain hn name hmem)
  case missing =>
    intro chain p name s e _ _ _ herr hroot _
    obtain ⟨m, rfl, hm⟩ := hclear.makes name hroot
    exact nomatch herr.symm.trans (Answer.design_eq_ok_of_outcome m.name p hm.stored)
  case inner =>
    intro chain p name s d d' t e _ _ hn _ hd hB herr hroot hchain
    obtain ⟨hout, -⟩ := hB.template hclear hn hd hroot (hchain hn)
    exact nomatch herr.symm.trans hout
  case composed =>
    intro chain p name s d d' t _ _ hn _ hd hB _ hroot hchain
    obtain ⟨-, rfl, artifact, haccepted⟩ := hB.template hclear hn hd hroot (hchain hn)
    exact compileTemplate_outcome haccepted
  case plain =>
    intro chain p name s d _ _ hn hd hroot _
    obtain ⟨m, rfl, hm⟩ := hclear.makes name hroot
    obtain rfl := Except.ok.inj (hm.stored.symm.trans hd)
    have haccepted := hm.accepted
    rw [form, if_neg (by simp [hn])] at haccepted
    exact compileTemplate_outcome haccepted

structure Composable (master : Design) : Prop where
  bindable : master.Bindable
  clear : c.Clear master.lastDeclared? master.references
  apart : c.nested = true → ¬Reached c.needs master.references master.name
  accepted : ∃ report, c.compile master.bound = .ok report

/-- A composition succeeds exactly if nothing stands in its way. -/
theorem compose_succeeds_iff (master : Design) :
    (∃ package, (c.compose master).outcome = .ok package) ↔ c.Composable master := by
  constructor
  · rintro ⟨package, h⟩
    obtain ⟨made, hdone⟩ := Completed.of_compose_eq_ok c h
    refine ⟨hdone.bindable, ⟨fun n hn => ?_, fun _ n hn => ?_⟩, fun hnested hn => ?_,
      package.report, hdone.accepted⟩
    · obtain ⟨m, hm, hname⟩ := List.mem_map.mp ((hdone.order.mem_iff_reached n).mpr hn)
      exact ⟨m, hname, hdone.makes m hm⟩
    · exact hdone.layered.not_transGen_self ((hdone.order.mem_iff_reached n).mpr hn)
    · exact hdone.apart hnested ((hdone.order.mem_iff_reached _).mpr hn)
  · intro h
    obtain ⟨report, haccepted⟩ := h.accepted
    obtain ⟨hout, hd⟩ := (c.run_succeeds master.lastDeclared? h.clear).1 [master.name]
      master.placeholders .empty master .start master [] rfl (Binder.through_nil master) h.bindable
      (fun n hn => ⟨n, hn, .refl⟩)
      fun hn m hm => List.mem_singleton.mp hm ▸ h.apart hn
    generalize hrun : c.bindAll master.lastDeclared? [master.name] master.placeholders .empty master
      .start = run at hout hd
    obtain ⟨d, t⟩ := run
    obtain rfl : d = master.bound := hd
    exact ⟨⟨report, t.progress.compiled⟩, by rw [c.compose_eq_of_ok hrun hout, haccepted]⟩

end Composer

/-- What can be reached from the placeholders of a master is well formed, and so is the master. A
name that can be reached is referred to, directly or not, by quoted names of stored templates. -/
structure Design.WellReferenced {α ε : Type} (master : Design) (store : Store)
    (compile : Design → Except ε α) : Prop where
  quoted : master.Quoted
  quoted_below : ∀ n d, Reached store.references master.references n →
    (store.lookup n).outcome = .ok d → d.Quoted
  found : ∀ n, Reached store.references master.references n →
    ∃ d, (store.lookup n).outcome = .ok d
  acyclic : ∀ n, Reached store.references master.references n →
    ¬Relation.TransGen (Refers store.references) n n
  apart : ¬Reached store.references master.references master.name
  undeclared : ∀ n, Reached store.references master.references n → ¬master.Declares n
  undeclared_below : ∀ n d, Reached store.references master.references n →
    (store.lookup n).outcome = .ok d → ∀ m ∈ d.references, ¬d.Declares m
  accepted : ∃ report, compile master.bound = .ok report
  accepted_below : ∀ n d, Reached store.references master.references n →
    (store.lookup n).outcome = .ok d → ∃ artifact, compile d.bound = .ok artifact

/-- Nested composition succeeds exactly on well-formed reference graphs. -/
theorem nested_compose_succeeds_iff {α ε : Type} (store : Store) (compile : Design → Except ε α)
    (master : Design) :
    (∃ package, ((⟨store, compile, true⟩ : Composer α ε).compose master).outcome = .ok package) ↔
      master.WellReferenced store compile := by
  have hneeds := Composer.needs_nested store compile
  rw [Composer.compose_succeeds_iff]
  constructor
  · rintro ⟨hbindable, ⟨hmakes, hacyclic⟩, hapart, haccepted⟩
    rw [hneeds] at hmakes hacyclic hapart
    have hmade {n : String} {d : Design} (hn : Reached store.references master.references n)
        (hd : (store.lookup n).outcome = .ok d) :
        d.Bindable ∧ ∃ artifact, compile d.bound = .ok artifact := by
      obtain ⟨m, rfl, hm⟩ := hmakes n hn
      obtain rfl := Except.ok.inj (hm.stored.symm.trans hd)
      exact ⟨hm.bindable rfl, m.artifact, hm.accepted⟩
    refine ⟨hbindable.quoted, fun n d hn hd => (hmade hn hd).1.quoted, fun n hn => ?_,
      hacyclic rfl, hapart rfl, fun n hn => ?_, fun n d hn hd => (hmade hn hd).1.undeclared,
      haccepted, fun n d hn hd => (hmade hn hd).2⟩
    · obtain ⟨m, rfl, hm⟩ := hmakes n hn
      exact ⟨m.design, hm.stored⟩
    · obtain ⟨m, rfl, hm⟩ := hmakes n hn
      exact (master.lastDeclared?_eq_none_iff m.name).mp hm.unreserved
  · intro h
    refine ⟨⟨h.quoted, fun n hn => h.undeclared n ⟨n, hn, .refl⟩⟩, ⟨?_, fun _ => ?_⟩, fun _ => ?_,
      h.accepted⟩
    · rw [hneeds]
      intro n hn
      obtain ⟨d, hd⟩ := h.found n hn
      obtain ⟨artifact, hartifact⟩ := h.accepted_below n d hn hd
      exact ⟨⟨n, d, artifact⟩, rfl, hd,
        (master.lastDeclared?_eq_none_iff n).mpr (h.undeclared n hn),
        fun _ => ⟨h.quoted_below n d hn hd, h.undeclared_below n d hn hd⟩, hartifact⟩
    · rw [hneeds]
      exact h.acyclic
    · rw [hneeds]
      exact h.apart

end ReportAssembly
