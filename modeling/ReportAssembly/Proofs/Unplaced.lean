import ReportAssembly.Proofs.GrammarReading
import ReportAssembly.Proofs.Moments

namespace ReportAssembly

variable {α ε : Type}

theorem modify_map {β : Type} {g : α → β} {f : α → α} {h : β → β} (hcomm : ∀ x, h (g x) = g (f x))
    (xs : List α) (i : Nat) : (xs.map g).modify i h = (xs.modify i f).map g := by
  apply List.ext_getElem?
  intro j
  rw [List.getElem?_modify, List.getElem?_map, List.getElem?_map, List.getElem?_modify]
  cases xs[j]? with
  | none => rfl
  | some x =>
    apply congrArg some
    dsimp only
    split_ifs
    · exact hcomm x
    · rfl

def Span.nowhere : Span :=
  ⟨0, 0⟩

def Located.unplaced (x : Located α) : Located α :=
  ⟨x.value, .nowhere⟩

def Section.unplaced (s : Section) : Section :=
  ⟨s.kind, s.elements.map Located.unplaced⟩

def Placeholder.unplaced (p : Placeholder) : Placeholder :=
  ⟨p.pos, p.expression, .nowhere⟩

theorem Placeholder.ofElement?_unplaced (pos : Position) (e : Located Element) :
    ofElement? pos e.unplaced = (ofElement? pos e).map unplaced := by
  obtain ⟨value, span⟩ := e
  cases value <;> rfl

namespace Design

def unplaced (d : Design) : Design :=
  ⟨d.name, d.parameters.map Located.unplaced, d.sections.map Section.unplaced⟩

variable {d d' : Design}

theorem unplaced_sameContent (d : Design) : d.unplaced.SameContent d where
  name := rfl
  parameters := by
    rw [unplaced, List.map_map]
    rfl
  sections := by
    rw [unplaced, List.map_map]
    apply List.map_congr_left
    intro s _
    rw [Function.comp_apply, Section.content, Section.content, Section.unplaced, List.map_map]
    rfl

/-- Designs that differ in spans at most are the same without them. -/
theorem SameContent.unplaced_eq (h : d.SameContent d') : d.unplaced = d'.unplaced := by
  have hparameters (x : Design) :
      x.parameters.map Located.unplaced = (x.parameters.map (·.value)).map (⟨·, .nowhere⟩) := by
    rw [List.map_map]
    rfl
  have hsections (x : Design) : x.sections.map Section.unplaced =
      (x.sections.map Section.content).map fun s => ⟨s.1, s.2.map (⟨·, .nowhere⟩)⟩ := by
    rw [List.map_map]
    apply List.map_congr_left
    intro s _
    rw [Function.comp_apply, Section.content, List.map_map]
    rfl
  rw [unplaced, unplaced, hparameters, hparameters d', hsections, hsections d', h.name,
    h.parameters, h.sections]

theorem parameters_unplaced (d : Design) :
    d.unplaced.parameters.map (·.value) = d.parameters.map (·.value) :=
  d.unplaced_sameContent.parameters

theorem parameter?_unplaced (d : Design) (n : String) :
    d.unplaced.parameter? n = d.parameter? n := by
  rw [parameter?, parameter?, parameters_unplaced]

theorem lastDeclared?_unplaced (d : Design) : d.unplaced.lastDeclared? = d.lastDeclared? := by
  funext n
  rw [lastDeclared?, lastDeclared?, unplaced, ← List.map_reverse, List.find?_map, Option.map_map]
  rfl

theorem element?_unplaced (d : Design) (pos : Position) :
    d.unplaced.element? pos = (d.element? pos).map Located.unplaced := by
  unfold element? unplaced
  cases hs : d.sections[pos.band]? with
  | none => simp [hs]
  | some s => simp [hs, Section.unplaced]

theorem placeholders_unplaced (d : Design) :
    d.unplaced.placeholders = d.placeholders.map Placeholder.unplaced := by
  rw [placeholders, placeholders, unplaced, List.zipIdx_map, List.flatMap_map, List.map_flatMap]
  apply List.flatMap_congr
  rintro ⟨s, band⟩ _
  simp only [Prod.map, Section.unplaced, List.zipIdx_map, List.filterMap_map, List.map_filterMap]
  apply List.filterMap_congr
  rintro ⟨e, index⟩ _
  exact Placeholder.ofElement?_unplaced _ e

theorem modifyElement_unplaced (d : Design) (pos : Position) (f : Element → Element) :
    d.unplaced.modifyElement pos f = (d.modifyElement pos f).unplaced := by
  have helements (s : Section) :
      (s.elements.map Located.unplaced).modify pos.index (fun e => { e with value := f e.value }) =
        (s.elements.modify pos.index fun e => { e with value := f e.value }).map
          Located.unplaced := by
    apply modify_map
    exact fun e => rfl
  rw [modifyElement, modifyElement, unplaced, unplaced]
  dsimp only
  congr 1
  apply modify_map
  intro s
  rw [Section.unplaced, Section.unplaced, helements]

theorem isSubreportAt_unplaced (d : Design) (pos : Position) :
    Binder.isSubreportAt d.unplaced pos = Binder.isSubreportAt d pos := by
  rw [Binder.isSubreportAt, Binder.isSubreportAt, element?_unplaced]
  cases d.element? pos with
  | none => rfl
  | some e =>
    obtain ⟨value, span⟩ := e
    cases value <;> rfl

end Design

def ComposeError.unplaced (f : ε → ε) : ComposeError ε → ComposeError ε
  | referenceNotFound name _ => referenceNotFound name .nowhere
  | malformedReference expression fault _ => malformedReference expression fault .nowhere
  | templateRejected name cause => templateRejected name (f cause)
  | masterRejected name cause => masterRejected name (f cause)
  | bindingConflict name existing _ => bindingConflict name existing .nowhere
  | circularReference chain => circularReference chain
  | storeFailure name cause => storeFailure name cause
  | unknownPlaceholder pos => unknownPlaceholder pos

variable (f : ε → ε)

theorem Placeholder.templateName_unplaced (p : Placeholder) :
    p.unplaced.templateName = p.templateName.mapError (ComposeError.unplaced f) := by
  rw [templateName, templateName]
  have hexpression : p.unplaced.expression = p.expression := rfl
  rw [hexpression]
  cases ReportAssembly.templateName p.expression <;> rfl

def Answer.unplaced (a : Answer) : Answer :=
  ⟨a.outcome.map Design.unplaced, a.notes⟩

theorem Answer.design_unplaced (a : Answer) (n : String) (p : Placeholder) :
    a.unplaced.design n p.unplaced =
      ((a.design n p).mapError (ComposeError.unplaced f)).map Design.unplaced := by
  rw [design, design, unplaced]
  cases a.outcome with
  | ok d => rfl
  | error cause => cases cause <;> rfl

/-- A binding without spans is the binding of the design without spans. -/
theorem Binder.bind_unplaced (b : Binder) (d : Design) (p : Placeholder) (n : String) :
    (b.bind d.unplaced p.unplaced n).result =
      ((b.bind d p n).result.mapError (ComposeError.unplaced f)).map
        (Prod.map id Design.unplaced) := by
  have hconflict : b.conflict? d.unplaced n = b.conflict? d n := by
    rw [conflict?, conflict?, d.parameter?_unplaced]
  have hpos : p.unplaced.pos = p.pos := rfl
  rw [bind, bind, hconflict, hpos, d.isSubreportAt_unplaced, d.modifyElement_unplaced]
  cases b.conflict? d n with
  | some existing => rfl
  | none =>
    dsimp only
    split_ifs
    · rfl
    · simp only [Bound.result, Except.mapError, Except.map, Prod.map, id, Design.declare,
        Design.unplaced, List.map_append]
      rfl
    · rfl

def Event.unplaced : Event → Event
  | lookup name answer => lookup name answer.unplaced
  | compile template? d accepted => compile template? d.unplaced accepted

def Progress.unplaced (s : Progress α) : Progress α :=
  ⟨s.compiled, s.events.map Event.unplaced⟩

def Step.unplaced (t : Step α ε Unit) : Step α ε Unit :=
  ⟨t.progress.unplaced, t.outcome.mapError (ComposeError.unplaced f)⟩

def Composition.unplaced (r : Composition α ε) : Composition α ε :=
  ⟨r.master.unplaced, r.events.map Event.unplaced, r.outcome.mapError (ComposeError.unplaced f)⟩

def InHand.unplaced (x : InHand) : InHand :=
  ⟨x.name, x.left.map Placeholder.unplaced, x.binder, x.design.unplaced⟩

def Moment.unplaced : Moment α ε → Moment α ε
  | working inner outer s => working inner.unplaced (outer.map InHand.unplaced) s.unplaced
  | ended run => ended (run.unplaced f)

def Store.unplaced (s : Store) : Store where
  lookup n := (s.lookup n).unplaced
  names := s.names
  mem_names := by
    intro n d h
    cases hd : (s.lookup n).outcome with
    | ok d' => exact s.mem_names hd
    | error cause =>
      rw [Answer.unplaced, hd] at h
      exact nomatch h

def Composer.unplaced (c : Composer α ε) : Composer α ε :=
  ⟨c.store.unplaced, fun d => (c.compile d).mapError f, c.nested⟩

theorem Progress.record_unplaced (s : Progress α) (e : Event) :
    (s.record e).unplaced = s.unplaced.record e.unplaced := by
  rw [record, record, unplaced, List.map_append]
  rfl

theorem InHand.ofDesign_unplaced (n : String) (d : Design) :
    (ofDesign n d).unplaced = ofDesign n d.unplaced := by
  rw [ofDesign, ofDesign, d.placeholders_unplaced]
  rfl

theorem InHand.chain_unplaced (inner : InHand) (outer : List InHand) :
    chain inner.unplaced (outer.map unplaced) = chain inner outer := by
  rw [chain, chain, List.map_map]
  rfl

theorem InHand.outermost_unplaced (d : Design) (outer : List InHand) :
    outermost d.unplaced (outer.map unplaced) = (outermost d outer).unplaced := by
  rw [outermost, outermost, List.getLast?_map]
  cases outer.getLast? <;> rfl

/-- What follows a step without spans is what follows it. -/
theorem Moment.after_unplaced (inner : InHand) (outer : List InHand) (t : Step α ε Unit) :
    (after inner outer t).unplaced f =
      after inner.unplaced (outer.map InHand.unplaced) (t.unplaced f) := by
  obtain ⟨s, outcome⟩ := t
  cases outcome with
  | ok u => rfl
  | error e =>
    change ended _ = ended _
    rw [Composition.unplaced, ← InHand.outermost_unplaced]
    rfl

namespace Composer

def Placeless (c : Composer α ε) : Prop :=
  ∀ d, (c.compile d.unplaced).mapError f = (c.compile d).mapError f

variable {f} {c : Composer α ε} {reserved : String → Option ValueType} {inner : InHand}
  {outer : List InHand} {s : Progress α} {m : Moment α ε}

theorem compileTemplate_unplaced (hc : c.Placeless f) (n : String) (d : Design) (s : Progress α) :
    (c.unplaced f).compileTemplate n d.unplaced s.unplaced =
      (c.compileTemplate n d s).unplaced f := by
  have hcompile : (c.unplaced f).compile d.unplaced = (c.compile d).mapError f := hc d
  have hrecord (accepted : Bool) : s.unplaced.record (.compile (some n) d.unplaced accepted) =
      (s.record (.compile (some n) d accepted)).unplaced :=
    (s.record_unplaced (.compile (some n) d accepted)).symm
  rw [compileTemplate, compileTemplate, hcompile]
  cases c.compile d with
  | ok artifact =>
    simp only [Except.mapError, hrecord]
    rfl
  | error cause =>
    simp only [Except.mapError, hrecord]
    rfl

theorem close_unplaced (hc : c.Placeless f) (d : Design) (s : Progress α) :
    (c.unplaced f).close d.unplaced s.unplaced = (c.close d s).unplaced f := by
  have hcompile : (c.unplaced f).compile d.unplaced = (c.compile d).mapError f := hc d
  have hevents (accepted : Bool) : s.unplaced.events ++ [Event.compile none d.unplaced accepted] =
      (s.events ++ [Event.compile none d accepted]).map Event.unplaced := by
    rw [List.map_append]
    rfl
  rw [close, close, hcompile]
  cases c.compile d with
  | ok report =>
    simp only [Except.mapError, hevents]
    rfl
  | error cause =>
    simp only [Except.mapError, hevents]
    rfl

/-- A move is made without spans as it is with them. -/
theorem Moves.unplaced (hc : c.Placeless f) (h : c.Moves reserved inner s outer m) :
    (c.unplaced f).Moves reserved inner.unplaced s.unplaced (outer.map InHand.unplaced)
      (m.unplaced f) := by
  have hleft {p : Placeholder} {ps : List Placeholder} (left : inner.left = p :: ps) :
      inner.unplaced.left = p.unplaced :: ps.map Placeholder.unplaced := by
    rw [InHand.unplaced, left, List.map_cons]
  have hdone (left : inner.left = []) : inner.unplaced.left = [] := by
    rw [InHand.unplaced, left, List.map_nil]
  have hfound {n : String} {d : Design} (found : (c.store.lookup n).outcome = .ok d) :
      ((c.unplaced f).store.lookup n).outcome = .ok d.unplaced := by
    change (c.store.lookup n).outcome.map Design.unplaced = .ok d.unplaced
    rw [found]
    rfl
  have hchain : InHand.chain inner.unplaced (outer.map InHand.unplaced) =
      InHand.chain inner outer := InHand.chain_unplaced inner outer
  cases h with
  | @unnamed _ p _ e left name =>
    have hname : p.unplaced.templateName = .error (e.unplaced f) := by
      rw [p.templateName_unplaced f, name]
      rfl
    rw [Moment.after_unplaced]
    exact .unnamed (hleft left) hname
  | @unbound _ p _ n e left name known bind =>
    have hbind : (inner.binder.bind inner.design.unplaced p.unplaced n).result =
        .error (e.unplaced f) := by
      rw [Binder.bind_unplaced f, bind]
      rfl
    rw [Moment.after_unplaced]
    exact .unbound (hleft left) name known hbind
  | @bound _ p _ n b d left name known bind =>
    have hbind : (inner.binder.bind inner.design.unplaced p.unplaced n : Binder.Bound ε).result = .ok (b, d.unplaced) := by
      rw [Binder.bind_unplaced f, bind]
      rfl
    exact .bound (hleft left) name known hbind
  | conflict left name unknown taken =>
    rw [Moment.after_unplaced]
    exact .conflict (hleft left) name unknown taken
  | @circular _ p _ n left name unknown free nested inHand =>
    rw [← hchain] at inHand
    rw [Moment.after_unplaced, ← hchain]
    exact .circular (hleft left) name unknown free nested inHand
  | @missing _ p _ n e left name unknown free apart lost =>
    have hlost : ((c.unplaced f).store.lookup n).design n p.unplaced = .error (e.unplaced f) := by
      change (c.store.lookup n).unplaced.design n p.unplaced = _
      rw [Answer.design_unplaced f, lost]
      rfl
    rw [← hchain] at apart
    rw [Moment.after_unplaced, Step.unplaced, Progress.record_unplaced]
    exact .missing (hleft left) name unknown free apart hlost
  | @entered _ p _ n d left name unknown free nested apart found =>
    rw [← hchain] at apart
    rw [Moment.unplaced, InHand.ofDesign_unplaced, Progress.record_unplaced]
    exact .entered (hleft left) name unknown free nested apart (hfound found)
  | plain left name unknown free flat found =>
    rw [Moment.after_unplaced, ← compileTemplate_unplaced hc, Progress.record_unplaced]
    exact .plain (hleft left) name unknown free flat (hfound found)
  | returned left =>
    rw [Moment.after_unplaced, ← compileTemplate_unplaced hc]
    exact .returned (hdone left)
  | closed left =>
    rw [Moment.unplaced, ← close_unplaced hc]
    exact .closed (hdone left)

/-- A composition without spans is the composition of the master without spans. -/
theorem compose_unplaced (hc : c.Placeless f) (master : Design) :
    (c.compose master).unplaced f = (c.unplaced f).compose master.unplaced := by
  have hended : (Moment.ended (c.compose master)).unplaced f =
      .ended ((c.unplaced f).compose master.unplaced) := by
    apply compose_related fun m m' => m.unplaced f = m'
    · change Moment.working (InHand.unplaced _) _ _ = Moment.working _ _ _
      rw [InHand.ofDesign_unplaced]
      rfl
    · intro k hk
      rw [moment_succ, moment_succ, ← hk, master.lastDeclared?_unplaced]
      cases c.moment master k with
      | ended run => rfl
      | working inner outer s => exact ((c.moves_next _ inner outer s).unplaced hc).next_eq.symm
  exact Moment.ended.inj hended

end Composer

end ReportAssembly
