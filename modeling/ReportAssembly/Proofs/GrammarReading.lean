import ReportAssembly.Proofs.GrammarSteps
import ReportAssembly.Proofs.PrintedForms

/-!
The way through the grammar along the tokens of a design. Main statements: the tokens of a design
are read as that design, and what is read from tokens that have written forms is a design that has a
source.
-/

namespace ReportAssembly

def Section.content (s : Section) : SectionKind × List Element :=
  (s.kind, s.elements.map (·.value))

structure Design.SameContent (d d' : Design) : Prop where
  name : d.name = d'.name
  parameters : d.parameters.map (·.value) = d'.parameters.map (·.value)
  sections : d.sections.map Section.content = d'.sections.map Section.content

theorem Design.SameContent.symm {d d' : Design} (h : d.SameContent d') : d'.SameContent d :=
  ⟨h.name.symm, h.parameters.symm, h.sections.symm⟩

theorem Design.SameContent.trans {d d' d'' : Design} (h : d.SameContent d')
    (h' : d'.SameContent d'') : d.SameContent d'' :=
  ⟨h.name.trans h'.name, h.parameters.trans h'.parameters, h.sections.trans h'.sections⟩

theorem exists_of_values_eq_cons {ts : List (Located Token)} {t : Token} {us : List Token}
    (h : ts.map (·.value) = t :: us) :
    ∃ span rest, ts = ⟨t, span⟩ :: rest ∧ rest.map (·.value) = us := by
  obtain ⟨⟨_, span⟩, rest, rfl, rfl, hrest⟩ := List.map_eq_cons_iff.mp h
  exact ⟨span, rest, rfl, hrest⟩

theorem ValueType.token_namesType (t : ValueType) : t.token.NamesType t := by
  cases t
  case report => exact .report
  all_goals exact .word (by decide)

namespace Place

/-- A step is the first part of the reading of tokens. -/
theorem Step.after_cons {p p' : Place} {t : Located Token} (h : Step p t p')
    (ts : List (Located Token)) : p.after (t :: ts) = p'.after ts := by
  rw [after, List.foldlM_cons, h.next_eq_ok]
  rfl

/-- Tokens are read up to a place, and the rest from there. -/
theorem after_append {p p' : Place} {ts : List (Located Token)} (h : p.after ts = .ok p')
    (us : List (Located Token)) : p.after (ts ++ us) = p'.after us := by
  rw [after] at h
  rw [after, List.foldlM_append, h]
  rfl

variable {draft : Design} {band : Section} {p : Place} {ts : List (Located Token)}

theorem after_parameter (draft : Design) {q : Parameter} (h : ts.map (·.value) = q.tokens) :
    ∃ span, (declarations draft).after ts = .ok (declarations (draft.declare ⟨q, span⟩)) := by
  obtain ⟨s₁, ts₁, rfl, h₁⟩ := exists_of_values_eq_cons h
  obtain ⟨s₂, ts₂, rfl, h₂⟩ := exists_of_values_eq_cons h₁
  obtain ⟨s₃, ts₃, rfl, h₃⟩ := exists_of_values_eq_cons h₂
  obtain ⟨s₄, ts₄, rfl, h₄⟩ := exists_of_values_eq_cons h₃
  obtain rfl := List.map_eq_nil_iff.mp h₄
  refine ⟨⟨s₁.start, s₄.stop⟩, ?_⟩
  rw [Step.parameter.after_cons, Step.parameterName.after_cons, Step.parameterColon.after_cons,
    (Step.parameterType q.type.token_namesType).after_cons]
  rfl

theorem after_parameters (draft : Design) {ps : List (Located Parameter)}
    (h : ts.map (·.value) = ps.flatMap fun q => q.value.tokens) :
    ∃ qs : List (Located Parameter), qs.map (·.value) = ps.map (·.value) ∧
      (declarations draft).after ts =
        .ok (declarations { draft with parameters := draft.parameters ++ qs }) := by
  induction ps generalizing draft ts with
  | nil =>
    obtain rfl := List.map_eq_nil_iff.mp h
    exact ⟨[], rfl, by rw [List.append_nil]; rfl⟩
  | cons q ps ih =>
    obtain ⟨ts₁, ts₂, rfl, h₁, h₂⟩ := List.map_eq_append_iff.mp h
    obtain ⟨span, hfirst⟩ := after_parameter draft h₁
    obtain ⟨qs, hqs, hrest⟩ := ih (draft.declare ⟨q.value, span⟩) h₂
    refine ⟨⟨q.value, span⟩ :: qs, by rw [List.map_cons, hqs]; rfl, ?_⟩
    rw [after_append hfirst, hrest, Design.declare, List.append_assoc]
    rfl

/-- The tokens of an expression are read as an element, which may still be open. -/
theorem after_expression (begun : Nat) (carrier : Carrier) {e : Expression}
    (h : ts.map (·.value) = e.tokens) :
    ∃ span p', (expressionText draft band begun carrier).after ts = .ok p' ∧
      AtElements draft (band.add ⟨carrier.element e, span⟩) p' := by
  obtain ⟨text, type⟩ := e
  by_cases hstring : type = .string
  · subst hstring
    obtain ⟨s₁, ts₁, rfl, h₁⟩ := exists_of_values_eq_cons h
    obtain rfl := List.map_eq_nil_iff.mp h₁
    exact ⟨⟨begun, s₁.stop⟩, _, Step.expressionText.after_cons [],
      .afterExpression (e := ⟨begun, carrier, text, s₁.stop⟩)⟩
  · have htokens : Expression.tokens ⟨text, type⟩ = [.expression text, .colon, type.token] := by
      cases type <;> first | rfl | exact absurd rfl hstring
    rw [htokens] at h
    obtain ⟨s₁, ts₁, rfl, h₁⟩ := exists_of_values_eq_cons h
    obtain ⟨s₂, ts₂, rfl, h₂⟩ := exists_of_values_eq_cons h₁
    obtain ⟨s₃, ts₃, rfl, h₃⟩ := exists_of_values_eq_cons h₂
    obtain rfl := List.map_eq_nil_iff.mp h₃
    refine ⟨⟨begun, s₃.stop⟩, _, ?_, .elements⟩
    rw [Step.expressionText.after_cons, Step.expressionColon.after_cons,
      (Step.expressionType type.token_namesType).after_cons]
    rfl

theorem after_element (hp : AtElements draft band p) {e : Element}
    (h : ts.map (·.value) = e.tokens) :
    ∃ span p', p.after ts = .ok p' ∧ AtElements draft (band.add ⟨e, span⟩) p' := by
  cases e with
  | text content =>
    obtain ⟨s₁, ts₁, rfl, h₁⟩ := exists_of_values_eq_cons h
    obtain ⟨s₂, ts₂, rfl, h₂⟩ := exists_of_values_eq_cons h₁
    obtain rfl := List.map_eq_nil_iff.mp h₂
    refine ⟨⟨s₁.start, s₂.stop⟩, _, ?_, .elements⟩
    rw [(Step.text hp).after_cons, Step.textContent.after_cons]
    rfl
  | field x =>
    obtain ⟨s₁, ts₁, rfl, h₁⟩ := exists_of_values_eq_cons h
    obtain ⟨span, p', hafter, hp'⟩ := after_expression s₁.start .field h₁
    exact ⟨span, p', ((Step.carrier .field hp).after_cons ts₁).trans hafter, hp'⟩
  | subreport x =>
    obtain ⟨s₁, ts₁, rfl, h₁⟩ := exists_of_values_eq_cons h
    obtain ⟨span, p', hafter, hp'⟩ := after_expression s₁.start .subreport h₁
    exact ⟨span, p', ((Step.carrier .subreport hp).after_cons ts₁).trans hafter, hp'⟩

theorem after_elements (hp : AtElements draft band p) {es : List (Located Element)}
    (h : ts.map (·.value) = es.flatMap fun e => e.value.tokens) :
    ∃ (xs : List (Located Element)) (p' : Place), xs.map (·.value) = es.map (·.value) ∧
      p.after ts = .ok p' ∧ AtElements draft { band with elements := band.elements ++ xs } p' := by
  -- The places before an element have no one form, so the induction is over all of `AtElements`.
  induction es generalizing band p ts with
  | nil =>
    obtain rfl := List.map_eq_nil_iff.mp h
    exact ⟨[], p, rfl, rfl, by rwa [List.append_nil]⟩
  | cons e es ih =>
    obtain ⟨ts₁, ts₂, rfl, h₁, h₂⟩ := List.map_eq_append_iff.mp h
    obtain ⟨span, p₁, hfirst, hp₁⟩ := after_element hp h₁
    obtain ⟨xs, p₂, hxs, hrest, hp₂⟩ := ih hp₁ h₂
    refine ⟨⟨e.value, span⟩ :: xs, p₂, by rw [List.map_cons, hxs]; rfl, ?_, ?_⟩
    · rw [after_append hfirst, hrest]
    · rw [Section.add, List.append_assoc] at hp₂
      exact hp₂

theorem after_section (hp : AtSections draft p) {s : Section} (h : ts.map (·.value) = s.tokens) :
    ∃ s' : Section, s'.content = s.content ∧
      p.after ts = .ok (sections (draft.addSection s')) := by
  obtain ⟨front, close, rfl, hfront, hclose⟩ := List.map_eq_append_iff.mp h
  obtain ⟨opening, inner, rfl, hopening, hinner⟩ := List.map_eq_append_iff.mp hfront
  obtain ⟨s₁, ts₁, rfl, h₁⟩ := exists_of_values_eq_cons hopening
  obtain ⟨s₂, ts₂, rfl, h₂⟩ := exists_of_values_eq_cons h₁
  obtain ⟨s₃, ts₃, rfl, h₃⟩ := exists_of_values_eq_cons h₂
  obtain rfl := List.map_eq_nil_iff.mp h₃
  obtain ⟨s₄, ts₄, rfl, h₄⟩ := exists_of_values_eq_cons hclose
  obtain rfl := List.map_eq_nil_iff.mp h₄
  have hstart : AtElements draft ⟨s.kind, []⟩ (elements draft ⟨s.kind, []⟩) := .elements
  obtain ⟨xs, p', hxs, hafter, hp'⟩ := after_elements hstart hinner
  have hopen : p.after [⟨.keyword .band, s₁⟩, ⟨.identifier s.kind.keyword, s₂⟩, ⟨.braceOpen, s₃⟩] =
      .ok (elements draft ⟨s.kind, []⟩) := by
    rw [(Step.band hp).after_cons,
      (Step.sectionKind (SectionKind.ofKeyword?_keyword s.kind)).after_cons,
      Step.openSection.after_cons]
    rfl
  refine ⟨⟨s.kind, xs⟩, congrArg (Prod.mk s.kind) hxs, ?_⟩
  rw [List.append_assoc, after_append hopen, after_append hafter,
    (Step.closeSection hp').after_cons]
  rfl

/-- The tokens of sections are read as these sections, in order. -/
theorem after_sections (hp : AtSections draft p) {ss : List Section}
    (h : ts.map (·.value) = ss.flatMap Section.tokens) :
    ∃ (xs : List Section) (p' : Place), xs.map Section.content = ss.map Section.content ∧
      p.after ts = .ok p' ∧ AtSections { draft with sections := draft.sections ++ xs } p' := by
  induction ss generalizing draft p ts with
  | nil =>
    obtain rfl := List.map_eq_nil_iff.mp h
    exact ⟨[], p, rfl, rfl, by rwa [List.append_nil]⟩
  | cons s ss ih =>
    obtain ⟨ts₁, ts₂, rfl, h₁, h₂⟩ := List.map_eq_append_iff.mp h
    obtain ⟨s', hs', hfirst⟩ := after_section hp h₁
    obtain ⟨xs, p', hxs, hrest, hp'⟩ := ih .sections h₂
    refine ⟨s' :: xs, p', by rw [List.map_cons, hs', hxs]; rfl, ?_, ?_⟩
    · rw [after_append hfirst, hrest]
    · rw [Design.addSection, List.append_assoc] at hp'
      exact hp'

/-- The tokens of a design are read as the design. -/
theorem exists_after_tokens {d : Design} (h : ts.map (·.value) = d.tokens) :
    ∃ d', start.after ts = .ok (complete d') ∧ d'.SameContent d := by
  obtain ⟨front, close, rfl, hfront, hclose⟩ := List.map_eq_append_iff.mp h
  obtain ⟨front, inner, rfl, hfront, hinner⟩ := List.map_eq_append_iff.mp hfront
  obtain ⟨opening, declared, rfl, hopening, hdeclared⟩ := List.map_eq_append_iff.mp hfront
  obtain ⟨s₁, ts₁, rfl, h₁⟩ := exists_of_values_eq_cons hopening
  obtain ⟨s₂, ts₂, rfl, h₂⟩ := exists_of_values_eq_cons h₁
  obtain ⟨s₃, ts₃, rfl, h₃⟩ := exists_of_values_eq_cons h₂
  obtain rfl := List.map_eq_nil_iff.mp h₃
  obtain ⟨s₄, ts₄, rfl, h₄⟩ := exists_of_values_eq_cons hclose
  obtain rfl := List.map_eq_nil_iff.mp h₄
  obtain ⟨qs, hqs, hparameters⟩ := after_parameters ⟨d.name, [], []⟩ hdeclared
  obtain ⟨xs, p', hxs, hsections, hp'⟩ := after_sections .declarations hinner
  have hopen : start.after [⟨.keyword .report, s₁⟩, ⟨.string d.name, s₂⟩, ⟨.braceOpen, s₃⟩] =
      .ok (declarations ⟨d.name, [], []⟩) := by
    rw [Step.report.after_cons, Step.reportName.after_cons, Step.openReport.after_cons]
    rfl
  refine ⟨⟨d.name, qs, xs⟩, ?_, rfl, hqs, hxs⟩
  rw [List.append_assoc, List.append_assoc, after_append hopen, after_append hparameters,
    after_append hsections, (Step.closeReport hp').after_cons]
  rfl

def Spellable : Place → Prop
  | start | reportName | bodyOpening _ => True
  | declarations draft | parameterName draft _ | sections draft | sectionKind draft
  | sectionOpening draft _ | complete draft => draft.Spellable
  | parameterColon draft _ name | parameterType draft _ name =>
    draft.Spellable ∧ isIdentifier name = true
  | elements draft band | textContent draft band _ | expressionText draft band _ _ =>
    draft.Spellable ∧ band.Spellable
  | afterExpression draft band e | expressionType draft band e =>
    draft.Spellable ∧ band.Spellable ∧ '`' ∉ e.text.toList

end Place

theorem Design.Spellable.declare {d : Design} (h : d.Spellable) {q : Located Parameter}
    (hq : isIdentifier q.value.name = true) : (d.declare q).Spellable :=
  ⟨List.forall_mem_append.mpr ⟨h.parameters, List.forall_mem_singleton.mpr hq⟩, h.sections⟩

theorem Design.Spellable.addSection {d : Design} (h : d.Spellable) {s : Section}
    (hs : s.Spellable) : (d.addSection s).Spellable :=
  ⟨h.parameters, List.forall_mem_append.mpr ⟨h.sections, List.forall_mem_singleton.mpr hs⟩⟩

theorem Section.Spellable.add {s : Section} (h : s.Spellable) {e : Located Element}
    (he : e.value.Spellable) : (s.add e).Spellable :=
  List.forall_mem_append.mpr ⟨h, List.forall_mem_singleton.mpr he⟩

theorem Carrier.spellable_element {carrier : Carrier} {e : Expression} (h : '`' ∉ e.text.toList) :
    (carrier.element e).Spellable := by
  intro x hx
  cases carrier <;> exact Option.some.inj hx ▸ h

namespace Place

variable {draft : Design} {band : Section} {p p' : Place}

theorem AtSections.spellable (h : AtSections draft p) (hp : p.Spellable) : draft.Spellable := by
  cases h <;> exact hp

theorem AtElements.spellable (h : AtElements draft band p) (hp : p.Spellable) :
    draft.Spellable ∧ band.Spellable := by
  cases h with
  | elements => exact hp
  | afterExpression =>
    obtain ⟨hdraft, hband, htext⟩ := hp
    exact ⟨hdraft, hband.add (Carrier.spellable_element htext)⟩

/-- A step over a token with a written form leaves what can be spelled. -/
theorem Step.spellable {t : Located Token} (h : Step p t p') (ht : t.value.Lexical)
    (hp : p.Spellable) : p'.Spellable := by
  cases h with
  | report => trivial
  | reportName => trivial
  | openReport => exact ⟨by simp, by simp⟩
  | parameter => exact hp
  | parameterName => exact ⟨hp, ht⟩
  | parameterColon => exact hp
  | parameterType _ => exact hp.1.declare hp.2
  | band h => exact h.spellable hp
  | closeReport h => exact h.spellable hp
  | sectionKind _ => exact hp
  | openSection => exact ⟨hp, by simp [Section.Spellable]⟩
  | text h => exact h.spellable hp
  | carrier _ h => exact h.spellable hp
  | closeSection h =>
    obtain ⟨hdraft, hband⟩ := h.spellable hp
    exact hdraft.addSection hband
  | textContent => exact ⟨hp.1, hp.2.add fun _ hx => nomatch hx⟩
  | expressionText => exact ⟨hp.1, hp.2, ht⟩
  | expressionColon => exact hp
  | expressionType _ =>
    obtain ⟨hdraft, hband, htext⟩ := hp
    exact ⟨hdraft, hband.add (Carrier.spellable_element htext)⟩

/-- What is read from tokens with written forms can be spelled. -/
theorem spellable_of_after {ts : List (Located Token)} (h : p.after ts = .ok p')
    (hts : ∀ t ∈ ts, t.value.Lexical) (hp : p.Spellable) : p'.Spellable := by
  induction ts generalizing p with
  | nil => exact Except.ok.inj h ▸ hp
  | cons t ts ih =>
    obtain ⟨ht, hts⟩ := List.forall_mem_cons.mp hts
    rw [after, List.foldlM_cons] at h
    cases hnext : p.next t with
    | error e =>
      rw [hnext] at h
      exact nomatch h
    | ok p₁ =>
      rw [hnext] at h
      exact ih h hts ((Step.of_next_eq_ok hnext).spellable ht hp)

end Place

/-- The tokens of a design are read as the design. -/
theorem Design.exists_ofTokens_eq_ok {d : Design} {ts : List (Located Token)} (length : Nat)
    (h : ts.map (·.value) = d.tokens) :
    ∃ d', Design.ofTokens length ts = .ok d' ∧ d'.SameContent d := by
  obtain ⟨d', hafter, hsame⟩ := Place.exists_after_tokens h
  refine ⟨d', ?_, hsame⟩
  rw [ofTokens, hafter]
  rfl

/-- Nothing but designs that have a source can be read. -/
theorem Design.spellable_of_ofTokens {d : Design} {ts : List (Located Token)} {length : Nat}
    (h : Design.ofTokens length ts = .ok d) (hts : ∀ t ∈ ts, t.value.Lexical) : d.Spellable := by
  rw [ofTokens] at h
  cases hafter : Place.start.after ts with
  | error e =>
    rw [hafter] at h
    exact nomatch h
  | ok p =>
    rw [hafter] at h
    cases p with
    | complete d' =>
      obtain rfl := Except.ok.inj h
      exact Place.spellable_of_after hafter hts trivial
    | _ => exact nomatch h

/-- Once its tokens are found, a source is what they are read as. -/
theorem Design.parse_of_lex {source : String} {ts : List (Located Token)}
    (h : lex source = .ok ts) :
    Design.parse source = (ofTokens (byteLength source.toList) ts).mapError ([·]) := by
  rw [parse, h]
  rfl

end ReportAssembly
