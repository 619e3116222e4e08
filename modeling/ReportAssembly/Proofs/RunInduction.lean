import ReportAssembly.Assembly.Run
import ReportAssembly.Proofs.TemplateNames

/-!
Induction over a run. A run binds placeholders one after the other, and before each of them it
ensures that the template named there is compiled. A statement on both kinds of task holds of all
runs if every way in which a task can go keeps it.
-/

namespace ReportAssembly

theorem Placeholder.templateName_eq_ok_iff_name? {ε : Type} (p : Placeholder) (name : String) :
    (p.templateName : Except (ComposeError ε) String) = .ok name ↔ p.name? = some name := by
  unfold Placeholder.templateName Placeholder.name?
  cases ReportAssembly.templateName p.expression <;> simp [Except.mapError, Except.toOption]

theorem Step.mk_outcome_eq {α ε β : Type} {t : Step α ε β} {o : Except (ComposeError ε) β}
    (h : t.outcome = o) : ⟨t.progress, o⟩ = t := by
  rw [← h]

namespace Composer

variable {α ε : Type}

def ensure (c : Composer α ε) (reserved : String → Option ValueType) (chain : List String)
    (p : Placeholder) (name : String) (s : Progress α) : Step α ε Unit :=
  if s.isCompiled name then ⟨s, .ok ()⟩ else c.prepare reserved chain p name s

def finish (c : Composer α ε) (name : String) (r : Design × Step α ε Unit) : Step α ε Unit :=
  match r.2.outcome with
  | .error e => ⟨r.2.progress, .error e⟩
  | .ok () => c.compileTemplate name r.1 r.2.progress

variable (c : Composer α ε) (reserved : String → Option ValueType)

theorem finish_of_error {name : String} {d : Design} {t : Step α ε Unit} {e : ComposeError ε}
    (h : t.outcome = .error e) : c.finish name (d, t) = t := by
  rw [finish, h]
  exact Step.mk_outcome_eq h

theorem finish_of_ok {name : String} {d : Design} {t : Step α ε Unit} (h : t.outcome = .ok ()) :
    c.finish name (d, t) = c.compileTemplate name d t.progress := by
  rw [finish, h]

theorem bindAll_cons (chain : List String) (p : Placeholder) (ps : List Placeholder) (b : Binder)
    (d : Design) (s : Progress α) :
    c.bindAll reserved chain (p :: ps) b d s =
      match p.templateName with
      | .error e => (d, ⟨s, .error e⟩)
      | .ok name =>
        match (c.ensure reserved chain p name s).outcome with
        | .error e => (d, ⟨(c.ensure reserved chain p name s).progress, .error e⟩)
        | .ok () =>
          match (b.bind d p name).outcome with
          | .error e =>
            ((b.bind d p name : Binder.Bound ε).design,
              ⟨(c.ensure reserved chain p name s).progress, .error e⟩)
          | .ok () =>
            c.bindAll reserved chain ps (b.bind d p name : Binder.Bound ε).binder
              (b.bind d p name : Binder.Bound ε).design
              (c.ensure reserved chain p name s).progress := by
  rw [bindAll]
  rfl

/-- A design that is found is bound, if nested, and compiled. -/
theorem prepare_of_design {chain : List String} {p : Placeholder} {name : String} {s : Progress α}
    {d : Design} (hres : reserved name = none) (hc : ¬(c.nested = true ∧ name ∈ chain))
    (hd : (c.store.lookup name).design name p = (.ok d : Except (ComposeError ε) Design)) :
    c.prepare reserved chain p name s =
      if c.nested = true then
        c.finish name (c.bindAll reserved (chain ++ [name]) d.placeholders .empty d
          (s.record (.lookup name (c.store.lookup name))))
      else c.compileTemplate name d (s.record (.lookup name (c.store.lookup name))) := by
  rw [prepare, hres]
  simp only [hc, dif_neg, not_false_eq_true]
  split
  · next e he => cases hd.symm.trans he
  · next d₁ hd₁ =>
    obtain rfl := Except.ok.inj (hd.symm.trans hd₁)
    split <;> rfl

theorem prepare_of_missing {chain : List String} {p : Placeholder} {name : String} {s : Progress α}
    {e : ComposeError ε} (hres : reserved name = none) (hc : ¬(c.nested = true ∧ name ∈ chain))
    (he : (c.store.lookup name).design name p = .error e) :
    c.prepare reserved chain p name s =
      ⟨s.record (.lookup name (c.store.lookup name)), .error e⟩ := by
  rw [prepare, hres]
  simp only [hc, dif_neg, not_false_eq_true]
  split
  · next e' he' =>
    obtain rfl := Except.error.inj (he.symm.trans he')
    rfl
  · next d hd => cases he.symm.trans hd

/-- A statement `B` on the binding of placeholders and a statement `E` on ensuring a template hold
of every run if each rule keeps them. -/
theorem run_induction
    (B : List String → List Placeholder → Binder → Design → Progress α →
      Design → Step α ε Unit → Prop)
    (E : List String → Placeholder → String → Progress α → Step α ε Unit → Prop)
    (nil : ∀ chain b d s, B chain [] b d s d ⟨s, .ok ()⟩)
    (unnamed : ∀ chain p ps b d s e,
      p.templateName = .error e → B chain (p :: ps) b d s d ⟨s, .error e⟩)
    (unready : ∀ chain p ps b d s name t e,
      p.name? = some name → E chain p name s t → t.outcome = .error e →
      B chain (p :: ps) b d s d t)
    (unbound : ∀ chain p ps b d s name t e,
      p.name? = some name → E chain p name s t → t.outcome = .ok () →
      (b.bind d p name).result = .error e → B chain (p :: ps) b d s d ⟨t.progress, .error e⟩)
    (cons : ∀ chain p ps b d s name t b' d' d'' r,
      p.name? = some name → E chain p name s t → t.outcome = .ok () →
      (b.bind d p name : Binder.Bound ε).result = .ok (b', d') →
      B chain ps b' d' t.progress d'' r → B chain (p :: ps) b d s d'' r)
    (known : ∀ chain p name s, s.isCompiled name = true → E chain p name s ⟨s, .ok ()⟩)
    (conflict : ∀ chain p name s existing,
      s.isCompiled name = false → reserved name = some existing →
      E chain p name s ⟨s, .error (.bindingConflict name existing p.span)⟩)
    (circular : ∀ chain p name s,
      s.isCompiled name = false → reserved name = none → c.nested = true → name ∈ chain →
      E chain p name s ⟨s, .error (.circularReference (chain ++ [name]))⟩)
    (missing : ∀ chain p name s e,
      s.isCompiled name = false → reserved name = none → ¬(c.nested = true ∧ name ∈ chain) →
      (c.store.lookup name).design name p = .error e →
      E chain p name s ⟨s.record (.lookup name (c.store.lookup name)), .error e⟩)
    (inner : ∀ chain p name s d d' t e,
      s.isCompiled name = false → reserved name = none → c.nested = true → name ∉ chain →
      (c.store.lookup name).outcome = .ok d →
      B (chain ++ [name]) d.placeholders .empty d
        (s.record (.lookup name (c.store.lookup name))) d' t →
      t.outcome = .error e → E chain p name s t)
    (composed : ∀ chain p name s d d' t,
      s.isCompiled name = false → reserved name = none → c.nested = true → name ∉ chain →
      (c.store.lookup name).outcome = .ok d →
      B (chain ++ [name]) d.placeholders .empty d
        (s.record (.lookup name (c.store.lookup name))) d' t →
      t.outcome = .ok () → E chain p name s (c.compileTemplate name d' t.progress))
    (plain : ∀ chain p name s d,
      s.isCompiled name = false → reserved name = none → c.nested = false →
      (c.store.lookup name).outcome = .ok d →
      E chain p name s
        (c.compileTemplate name d (s.record (.lookup name (c.store.lookup name))))) :
    (∀ chain ps b d s,
      B chain ps b d s (c.bindAll reserved chain ps b d s).1
        (c.bindAll reserved chain ps b d s).2) ∧
    ∀ chain p name s, E chain p name s (c.ensure reserved chain p name s) := by
  -- What the induction yields for a name that is not compiled serves for every name.
  have hensure {chain : List String} {p : Placeholder} {name : String} {s : Progress α}
      (h : s.isCompiled name = false → E chain p name s (c.prepare reserved chain p name s)) :
      E chain p name s (c.ensure reserved chain p name s) := by
    unfold ensure
    cases hs : s.isCompiled name with
    | true => exact known chain p name s hs
    | false => exact h hs
  suffices h : (∀ chain ps b d s, B chain ps b d s (c.bindAll reserved chain ps b d s).1
        (c.bindAll reserved chain ps b d s).2) ∧
      ∀ chain p name s, s.isCompiled name = false →
        E chain p name s (c.prepare reserved chain p name s) from
    ⟨h.1, fun chain p name s => hensure (h.2 chain p name s)⟩
  refine bindAll.mutual_induct c reserved
    (fun chain ps b d s => B chain ps b d s (c.bindAll reserved chain ps b d s).1
      (c.bindAll reserved chain ps b d s).2)
    (fun chain p name s =>
      s.isCompiled name = false → E chain p name s (c.prepare reserved chain p name s))
    ?nil ?unnamed ?unready ?unbound ?cons ?conflict ?circular ?missing ?inner ?composed ?plain
  case nil =>
    intro chain b d s
    rw [bindAll]
    exact nil chain b d s
  case unnamed =>
    intro chain b d s p ps e hname
    rw [bindAll_cons, hname]
    exact unnamed chain p ps b d s e hname
  case unready =>
    intro chain b d s p ps name hname prepared e hout ih
    have hout : (c.ensure reserved chain p name s).outcome = .error e := hout
    rw [bindAll_cons, hname]
    dsimp only
    rw [hout]
    dsimp only
    rw [Step.mk_outcome_eq hout]
    have hquoted := (p.templateName_eq_ok_iff_name? name).mp hname
    exact unready chain p ps b d s name _ e hquoted (hensure ih) hout
  case unbound =>
    intro chain b d s p ps name hname prepared hout bound e hbind ih
    have hout : (c.ensure reserved chain p name s).outcome = .ok () := hout
    rw [bindAll_cons, hname]
    dsimp only
    have hbind : (b.bind d p name).outcome = .error e := hbind
    rw [hout, Binder.bind_of_error hbind]
    have hquoted := (p.templateName_eq_ok_iff_name? name).mp hname
    have hrefused := Binder.Bound.result_eq_error_iff.mpr hbind
    exact unbound chain p ps b d s name _ e hquoted (hensure ih) hout hrefused
  case cons =>
    intro chain b d s p ps name hname prepared hout bound hbind ih ihrest
    have hout : (c.ensure reserved chain p name s).outcome = .ok () := hout
    rw [bindAll_cons, hname]
    dsimp only
    have hbind : (b.bind d p name : Binder.Bound ε).outcome = .ok () := hbind
    rw [hout, hbind]
    have hquoted := (p.templateName_eq_ok_iff_name? name).mp hname
    have hbound := Binder.Bound.result_eq_ok_iff.mpr ⟨hbind, rfl⟩
    exact cons chain p ps b d s name _ _ _ _ _ hquoted (hensure ih) hout hbound ihrest
  case conflict =>
    intro chain p name s existing hres hs
    rw [prepare, hres]
    exact conflict chain p name s existing hs hres
  case circular =>
    intro chain p name s hres hc hs
    rw [prepare, hres]
    simp only [hc, and_self, dif_pos]
    exact circular chain p name s hs hres hc.1 hc.2
  case missing =>
    intro chain p name s hres hc answer e hd hs
    rw [c.prepare_of_missing reserved hres hc hd]
    exact missing chain p name s e hs hres hc hd
  case inner =>
    intro chain p name s hres hc answer s₁ d hd hn d' t hrun e hout ih hs
    rw [hrun] at ih
    rw [c.prepare_of_design reserved hres hc hd, if_pos hn, hrun, c.finish_of_error hout]
    exact inner chain p name s d d' t e hs hres hn (fun hm => hc ⟨hn, hm⟩)
      (Answer.design_eq_ok hd) ih hout
  case composed =>
    intro chain p name s hres hc answer s₁ d hd hn d' t hrun hout ih hs
    rw [hrun] at ih
    rw [c.prepare_of_design reserved hres hc hd, if_pos hn, hrun, c.finish_of_ok hout]
    exact composed chain p name s d d' t hs hres hn (fun hm => hc ⟨hn, hm⟩)
      (Answer.design_eq_ok hd) ih hout
  case plain =>
    intro chain p name s hres hc answer d hd hn hs
    rw [c.prepare_of_design reserved hres hc hd, if_neg hn]
    exact plain chain p name s d hs hres (Bool.eq_false_iff.mpr hn) (Answer.design_eq_ok hd)

end Composer

end ReportAssembly
