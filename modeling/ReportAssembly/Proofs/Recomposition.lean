import ReportAssembly.Proofs.PackageOrder
import ReportAssembly.Proofs.Acceptance
import ReportAssembly.Proofs.PartlyBound

/-!
Composition without a memory. A template is composed anew, with all below it, wherever a placeholder
names it. Main statement: a package holds what this comes to, so that its sub-reports depend on the
store and the compiler only.
-/

namespace ReportAssembly

variable {α ε : Type}

theorem Reached.of_singleton {refs : String → List String} {roots : List String} {n m : String}
    (h : Reached refs [n] m) (hn : n ∈ roots) : Reached refs roots m := by
  obtain ⟨r, hr, hreach⟩ := h
  obtain rfl := List.mem_singleton.mp hr
  exact ⟨r, hn, hreach⟩

/-- Who refers to a name is stored. -/
theorem Store.exists_design_of_mem_references {s : Store} {n m : String}
    (h : m ∈ s.references n) : ∃ d, (s.lookup n).outcome = .ok d ∧ m ∈ d.references := by
  rw [Store.references] at h
  cases hd : (s.lookup n).outcome with
  | ok d =>
    rw [hd] at h
    exact ⟨d, rfl, h⟩
  | error e =>
    rw [hd] at h
    exact absurd h List.not_mem_nil

namespace Composer

set_option linter.unusedVariables false in
mutual

def rebind (c : Composer α ε) (reserved : String → Option ValueType) (chain : List String)
    (ps : List Placeholder) (b : Binder) (d : Design) : Except (ComposeError ε) Design :=
  match ps with
  | [] => .ok d
  | p :: ps => do
    let name ← p.templateName
    let _ ← c.recompose reserved chain p name
    let (b, d) ← (b.bind d p name).result
    c.rebind reserved chain ps b d
termination_by ((c.free chain).length, ps.length)

def recompose (c : Composer α ε) (reserved : String → Option ValueType) (chain : List String)
    (p : Placeholder) (name : String) : Except (ComposeError ε) α :=
  match reserved name with
  | some existing => .error (.bindingConflict name existing p.span)
  | none =>
    if hc : name ∈ chain then .error (.circularReference (chain ++ [name]))
    else
      match hd : (c.store.lookup name).design name p with
      | .error e => .error e
      | .ok d => do
        let d ← c.rebind reserved (chain ++ [name]) d.placeholders .empty d
        (c.compile d).mapError (.templateRejected name)
termination_by ((c.free chain).length, 0)
decreasing_by
  exact Prod.Lex.left _ _ (c.length_free_append_lt hc (c.store.mem_names (Answer.design_eq_ok hd)))

end

variable (c : Composer α ε) (reserved : String → Option ValueType)

inductive Occurs (master : Design) : List String → Placeholder → String → Prop
  | root {p : Placeholder} {n : String} (hp : p ∈ master.placeholders)
      (hn : Quotes p.expression n) : Occurs master [master.name] p n
  | inner {chain : List String} {p q : Placeholder} {n m : String} {d : Design}
      (outer : Occurs master chain p n) (hd : (c.store.lookup n).outcome = .ok d)
      (hq : q ∈ d.placeholders) (hm : Quotes q.expression m) : Occurs master (chain ++ [n]) q m

variable {c reserved}

/-- Once a placeholder is composed and bound, the others follow. -/
theorem rebind_cons_of_ok {chain : List String} {p : Placeholder} {ps : List Placeholder}
    {b b' : Binder} {d d' : Design} {name : String} {artifact : α} (hname : p.name? = some name)
    (hartifact : c.recompose reserved chain p name = .ok artifact)
    (hbind : (b.bind d p name : Binder.Bound ε).result = .ok (b', d')) :
    c.rebind reserved chain (p :: ps) b d = c.rebind reserved chain ps b' d' := by
  have htemplate := (p.templateName_eq_ok_iff_name? (ε := ε) name).mpr hname
  rw [rebind, htemplate]
  simp only [Bind.bind, Except.bind, hartifact, hbind]

/-- A stored template is compiled from what its bound placeholders leave. -/
theorem recompose_of_design {chain : List String} {p : Placeholder} {name : String} {d d' : Design}
    {artifact : α} (hres : reserved name = none) (hc : name ∉ chain)
    (hd : (c.store.lookup name).outcome = .ok d)
    (hbound : c.rebind reserved (chain ++ [name]) d.placeholders .empty d = .ok d')
    (hcompile : c.compile d' = .ok artifact) :
    c.recompose reserved chain p name = .ok artifact := by
  have hdesign : (c.store.lookup name).design name p = (.ok d : Except (ComposeError ε) Design) :=
    Answer.design_eq_ok_of_outcome name p hd
  rw [recompose, hres]
  simp only [hc, dif_neg, not_false_eq_true]
  split
  · next e he => exact nomatch hdesign.symm.trans he
  · next d₁ hd₁ =>
    obtain rfl := Except.ok.inj (hdesign.symm.trans hd₁)
    rw [hbound]
    change (c.compile d').mapError _ = _
    rw [hcompile]
    rfl

/-- Placeholders whose templates can be composed are bound. -/
theorem rebind_eq_ok {chain : List String} {d₀ : Design} (hbindable : d₀.Bindable)
    (hbelow : ∀ p ∈ d₀.placeholders, ∀ n, p.name? = some n →
      ∃ artifact, c.recompose reserved chain p n = .ok artifact)
    {qs ps : List Placeholder} {b : Binder} {d : Design} (hps : qs ++ ps = d₀.placeholders)
    (hthrough : Binder.Through d₀ qs b d) :
    c.rebind reserved chain ps b d = .ok d₀.bound := by
  induction ps generalizing qs b d with
  | nil =>
    rw [List.append_nil] at hps
    rw [rebind, hthrough.design_eq, hps, d₀.boundAt_placeholders]
  | cons p ps ih =>
    have hp : p ∈ d₀.placeholders := by rw [← hps]; simp
    obtain ⟨n, hquotes⟩ := hbindable.quoted p hp
    have hname : p.name? = some n := (p.name?_eq_some_iff n).mpr hquotes
    have hfree : d₀.parameter? n = none := by
      rw [d₀.parameter?_eq_none_iff]
      exact hbindable.undeclared n (List.mem_filterMap.mpr ⟨p, hp, hname⟩)
    obtain ⟨artifact, hartifact⟩ := hbelow p hp n hname
    obtain ⟨b', d', hbind, hnext⟩ := hthrough.bind_eq_ok (ε := ε) hp hname (Or.inr hfree)
    rw [rebind_cons_of_ok hname hartifact hbind]
    apply ih ?_ hnext
    rw [← hps]
    simp

/-- Where the way is clear, a template composed from scratch gives the artifact it was made into,
whatever is in hand above it. -/
theorem Clear.recompose_eq_ok {roots : List String} (hclear : c.Clear reserved roots)
    (hn : c.nested = true) {chain : List String} {m : Made α} (hm : c.Makes reserved m)
    (hroot : Reached c.needs roots m.name) (hchain : ∀ k ∈ chain, ¬Reached c.needs [m.name] k)
    (p : Placeholder) : c.recompose reserved chain p m.name = .ok m.artifact := by
  -- Each level takes one more name of the store in hand.
  induction hfree : (c.free chain).length using Nat.strong_induction_on generalizing chain m p with
  | _ k ih =>
    have hself : m.name ∉ chain := fun hmem =>
      hchain m.name hmem ⟨m.name, List.mem_singleton_self _, .refl⟩
    have hless : (c.free (chain ++ [m.name])).length < k :=
      hfree ▸ c.length_free_append_lt hself (c.store.mem_names hm.stored)
    have hneeds : c.needs m.name = m.design.references := c.needs_eq hn hm.stored
    have hchain' := hclear.not_reached_needs hn hroot hchain
    have hbelow : ∀ q ∈ m.design.placeholders, ∀ n, q.name? = some n →
        ∃ artifact, c.recompose reserved (chain ++ [m.name]) q n = .ok artifact := by
      intro q hq n hname
      have href : n ∈ c.needs m.name := by
        rw [hneeds]
        exact List.mem_filterMap.mpr ⟨q, hq, hname⟩
      have hroot' : Reached c.needs roots n := reached_of_needs hroot href
      obtain ⟨m', rfl, hm'⟩ := hclear.makes n hroot'
      refine ⟨m'.artifact, ih _ hless hm' hroot' ?_ q rfl⟩
      intro j hj hreached
      exact hchain' j hj (hreached.of_singleton href)
    have hbound := rebind_eq_ok (hm.bindable hn) hbelow rfl (Binder.through_nil m.design)
    have haccepted := hm.accepted
    rw [form, if_pos hn] at haccepted
    exact recompose_of_design hm.unreserved hself hm.stored hbound haccepted

/-- Where a composition succeeds, no name in hand can be reached from a placeholder below. -/
theorem Occurs.clear {master : Design} (h : c.Composable master) (hn : c.nested = true)
    {chain : List String} {p : Placeholder} {n : String} (hoccurs : c.Occurs master chain p n) :
    Reached c.needs master.references n ∧ ∀ k ∈ chain, ¬Reached c.needs [n] k := by
  induction hoccurs with
  | @root p n hp hq =>
    have href : n ∈ master.references := (master.mem_references_iff n).mpr ⟨p, hp, hq⟩
    refine ⟨⟨n, href, .refl⟩, ?_⟩
    intro k hk hreached
    obtain rfl := List.mem_singleton.mp hk
    exact h.apart hn (hreached.of_singleton href)
  | @inner chain p q n m d _ hd hq hm ih =>
    obtain ⟨hroot, hchain⟩ := ih
    have href : m ∈ c.needs n := by
      rw [c.needs_eq hn hd, d.mem_references_iff]
      exact ⟨q, hq, hm⟩
    refine ⟨reached_of_needs hroot href, ?_⟩
    intro k hk hreached
    exact h.clear.not_reached_needs hn hroot hchain k hk (hreached.of_singleton href)

/-- Every name that can be reached occurs below the master. -/
theorem exists_occurs {master : Design} {n : String}
    (h : Reached c.store.references master.references n) :
    ∃ chain p, c.Occurs master chain p n := by
  obtain ⟨r, hr, hreach⟩ := h
  induction hreach with
  | refl =>
    obtain ⟨p, hp, hq⟩ := (master.mem_references_iff r).mp hr
    exact ⟨_, p, .root hp hq⟩
  | tail _ hstep ih =>
    obtain ⟨chain, p, houter⟩ := ih
    obtain ⟨d, hd, hm⟩ := Store.exists_design_of_mem_references hstep
    obtain ⟨q, hq, hquotes⟩ := (d.mem_references_iff _).mp hm
    exact ⟨_, q, .inner houter hd hq hquotes⟩

theorem Makes.alone {m : Made α} (h : c.Makes reserved m) : c.Makes (fun _ => none) m :=
  ⟨h.stored, rfl, h.bindable, h.accepted⟩

/-- A way that is clear is so without the parameters of the master. -/
theorem Clear.alone {roots : List String} (h : c.Clear reserved roots) :
    c.Clear (fun _ => none) roots := by
  refine ⟨?_, h.acyclic⟩
  intro n hn
  obtain ⟨m, hname, hm⟩ := h.makes n hn
  exact ⟨m, hname, hm.alone⟩

/-- What a template is made into depends on the store and the compiler only. -/
theorem Makes.artifact_eq {reserved' : String → Option ValueType} {m m' : Made α}
    (h : c.Makes reserved m) (h' : c.Makes reserved' m') (hname : m.name = m'.name) :
    m.artifact = m'.artifact := by
  have hstored := h.stored
  rw [hname, h'.stored] at hstored
  have haccepted := h.accepted
  rw [← Except.ok.inj hstored, h'.accepted] at haccepted
  exact (Except.ok.inj haccepted).symm

/-- Each binding of a package is that of a template that was made. -/
theorem Completed.exists_made_of_mem_bindings {master : Design} {package : Package α}
    {made : List (Made α)} (h : c.Completed master package made) {n : String} {a : α}
    (hmem : (n, a) ∈ package.bindings) : ∃ m ∈ made, m.name = n ∧ m.artifact = a := by
  rw [h.bindings] at hmem
  obtain ⟨m, hm, hbinding⟩ := List.mem_map.mp hmem
  obtain ⟨hname, hartifact⟩ := Prod.mk.inj hbinding
  exact ⟨m, hm, hname, hartifact⟩

/-- Wherever a name occurs below a master that has been composed, its template gives from scratch
what it was made into. -/
theorem Occurs.recompose_eq_ok {master : Design} {package : Package α} {made : List (Made α)}
    (h : c.Completed master package made) (hcomposable : c.Composable master)
    (hn : c.nested = true) {chain : List String} {p : Placeholder} {n : String}
    (hoccurs : c.Occurs master chain p n) :
    ∃ m ∈ made, m.name = n ∧ c.recompose master.lastDeclared? chain p n = .ok m.artifact := by
  obtain ⟨hroot, hchain⟩ := hoccurs.clear hcomposable hn
  obtain ⟨m, hm, rfl⟩ := List.mem_map.mp ((h.order.mem_iff_reached n).mpr hroot)
  exact ⟨m, hm, rfl, hcomposable.clear.recompose_eq_ok hn (h.makes m hm) hroot hchain p⟩

end Composer

/-- The sub-reports of a package, and its report, are what a composition without a memory makes. -/
structure Package.FromScratch (package : Package α) (c : Composer α ε) (master : Design) :
    Prop where
  artifact : ∀ n a, (n, a) ∈ package.bindings → ∃ d, (c.store.lookup n).outcome = .ok d ∧
    d.bound.BoundUpTo d d.placeholders.length ∧ c.compile d.bound = .ok a
  occurs : ∀ n ∈ package.names, ∃ chain p, c.Occurs master chain p n
  recomposed : ∀ chain p n, c.Occurs master chain p n → ∃ a, package.binding? n = some a ∧
    c.recompose master.lastDeclared? chain p n = .ok a
  alone : ∀ n a p, (n, a) ∈ package.bindings → c.recompose (fun _ => none) [] p n = .ok a
  report : ∃ d, c.rebind master.lastDeclared? [master.name] master.placeholders .empty master =
    .ok d ∧ c.compile d = .ok package.report
  agrees : ∀ other package', (c.compose other).outcome = .ok package' →
    ∀ n a a', (n, a) ∈ package.bindings → (n, a') ∈ package'.bindings → a = a'

/-- What a nested composition keeps of the templates it has met makes no difference. -/
theorem nested_package_from_scratch (store : Store) (compile : Design → Except ε α)
    (master : Design) (package : Package α)
    (hok : ((⟨store, compile, true⟩ : Composer α ε).compose master).outcome = .ok package) :
    package.FromScratch (⟨store, compile, true⟩ : Composer α ε) master := by
  obtain ⟨made, h⟩ := Composer.Completed.of_compose_eq_ok _ hok
  have hcomposable := (Composer.compose_succeeds_iff _ master).mp ⟨package, hok⟩
  constructor
  case artifact =>
    intro n a hmem
    obtain ⟨m, hm, rfl, rfl⟩ := h.exists_made_of_mem_bindings hmem
    have hmade := h.makes m hm
    exact ⟨m.design, hmade.stored, m.design.boundUpTo_bound (hmade.bindable rfl).quoted,
      hmade.accepted⟩
  case occurs =>
    intro n hn
    apply Composer.exists_occurs
    exact (h.mem_names_iff_reached n).mp hn
  case recomposed =>
    intro chain p n hoccurs
    obtain ⟨m, hm, rfl, hscratch⟩ := hoccurs.recompose_eq_ok h hcomposable rfl
    exact ⟨m.artifact, h.binding?_eq hm, hscratch⟩
  case alone =>
    intro n a p hmem
    obtain ⟨m, hm, rfl, rfl⟩ := h.exists_made_of_mem_bindings hmem
    have hroot := (h.order.mem_iff_reached m.name).mp (List.mem_map_of_mem hm)
    exact hcomposable.clear.alone.recompose_eq_ok rfl (h.makes m hm).alone hroot (by simp) p
  case report =>
    refine ⟨master.bound, ?_, h.accepted⟩
    apply Composer.rebind_eq_ok h.bindable ?_ rfl (Binder.through_nil master)
    intro p hp n hname
    have hquotes : Quotes p.expression n := (p.name?_eq_some_iff n).mp hname
    obtain ⟨m, -, -, hscratch⟩ :=
      (Composer.Occurs.root hp hquotes).recompose_eq_ok h hcomposable rfl
    exact ⟨m.artifact, hscratch⟩
  case agrees =>
    intro other package' hother n a a' hmem hmem'
    obtain ⟨made', h'⟩ := Composer.Completed.of_compose_eq_ok _ hother
    obtain ⟨m, hm, rfl, rfl⟩ := h.exists_made_of_mem_bindings hmem
    obtain ⟨m', hm', hname, rfl⟩ := h'.exists_made_of_mem_bindings hmem'
    exact (h.makes m hm).artifact_eq (h'.makes m' hm') hname.symm

theorem nested_package_from_scratch_sharing :
    ∃ package, ((⟨sharingTemplates.toStore, fun d => .ok d.name, true⟩ :
        Composer String Empty).compose sharingMaster).outcome = .ok package ∧
      package.FromScratch
        (⟨sharingTemplates.toStore, fun d => .ok d.name, true⟩ : Composer String Empty)
        sharingMaster :=
  have hok : ((⟨sharingTemplates.toStore, fun d => .ok d.name, true⟩ :
      Composer String Empty).compose sharingMaster).outcome =
        .ok ⟨"Invoice", [("Totals", "Totals"), ("Lines", "Lines"), ("Notes", "Notes")]⟩ := by cbv
  ⟨_, hok, nested_package_from_scratch _ _ _ _ hok⟩

end ReportAssembly
