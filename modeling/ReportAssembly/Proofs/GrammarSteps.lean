import ReportAssembly.Design.Grammar

namespace ReportAssembly

def Carrier.keyword : Carrier → Keyword
  | field => .textField
  | subreport => .subreport

inductive Token.NamesType : Token → ValueType → Prop
  | report : NamesType (.keyword .report) .report
  | word {word : String} {type : ValueType} (h : ValueType.ofKeyword? word = some type) :
      NamesType (.identifier word) type

namespace Place

inductive AtSections (draft : Design) : Place → Prop
  | declarations : AtSections draft (.declarations draft)
  | sections : AtSections draft (.sections draft)

inductive AtElements (draft : Design) : Section → Place → Prop
  | elements {band : Section} : AtElements draft band (.elements draft band)
  | afterExpression {band : Section} {e : OpenElement} :
      AtElements draft (band.add e.untyped) (.afterExpression draft band e)

inductive Step : Place → Located Token → Place → Prop
  | report {span : Span} : Step .start ⟨.keyword .report, span⟩ .reportName
  | reportName {name : String} {span : Span} :
      Step .reportName ⟨.string name, span⟩ (.bodyOpening name)
  | openReport {name : String} {span : Span} :
      Step (.bodyOpening name) ⟨.braceOpen, span⟩ (.declarations ⟨name, [], []⟩)
  | parameter {draft : Design} {span : Span} :
      Step (.declarations draft) ⟨.keyword .parameter, span⟩ (.parameterName draft span.start)
  | parameterName {draft : Design} {begun : Nat} {name : String} {span : Span} :
      Step (.parameterName draft begun) ⟨.identifier name, span⟩ (.parameterColon draft begun name)
  | parameterColon {draft : Design} {begun : Nat} {name : String} {span : Span} :
      Step (.parameterColon draft begun name) ⟨.colon, span⟩ (.parameterType draft begun name)
  | parameterType {draft : Design} {begun : Nat} {name : String} {t : Located Token}
      {type : ValueType} (h : t.value.NamesType type) :
      Step (.parameterType draft begun name) t
        (.declarations (draft.declare ⟨⟨name, type⟩, ⟨begun, t.span.stop⟩⟩))
  | band {draft : Design} {p : Place} {span : Span} (h : AtSections draft p) :
      Step p ⟨.keyword .band, span⟩ (.sectionKind draft)
  | closeReport {draft : Design} {p : Place} {span : Span} (h : AtSections draft p) :
      Step p ⟨.braceClose, span⟩ (.complete draft)
  | sectionKind {draft : Design} {word : String} {kind : SectionKind} {span : Span}
      (h : SectionKind.ofKeyword? word = some kind) :
      Step (.sectionKind draft) ⟨.identifier word, span⟩ (.sectionOpening draft kind)
  | openSection {draft : Design} {kind : SectionKind} {span : Span} :
      Step (.sectionOpening draft kind) ⟨.braceOpen, span⟩ (.elements draft ⟨kind, []⟩)
  | text {draft : Design} {band : Section} {p : Place} {span : Span}
      (h : AtElements draft band p) :
      Step p ⟨.keyword .text, span⟩ (.textContent draft band span.start)
  | carrier {draft : Design} {band : Section} {p : Place} (carrier : Carrier) {span : Span}
      (h : AtElements draft band p) :
      Step p ⟨.keyword carrier.keyword, span⟩ (.expressionText draft band span.start carrier)
  | closeSection {draft : Design} {band : Section} {p : Place} {span : Span}
      (h : AtElements draft band p) :
      Step p ⟨.braceClose, span⟩ (.sections (draft.addSection band))
  | textContent {draft : Design} {band : Section} {begun : Nat} {content : String} {span : Span} :
      Step (.textContent draft band begun) ⟨.string content, span⟩
        (.elements draft (band.add ⟨.text content, ⟨begun, span.stop⟩⟩))
  | expressionText {draft : Design} {band : Section} {begun : Nat} {carrier : Carrier}
      {text : String} {span : Span} :
      Step (.expressionText draft band begun carrier) ⟨.expression text, span⟩
        (.afterExpression draft band ⟨begun, carrier, text, span.stop⟩)
  | expressionColon {draft : Design} {band : Section} {e : OpenElement} {span : Span} :
      Step (.afterExpression draft band e) ⟨.colon, span⟩ (.expressionType draft band e)
  | expressionType {draft : Design} {band : Section} {e : OpenElement} {t : Located Token}
      {type : ValueType} (h : t.value.NamesType type) :
      Step (.expressionType draft band e) t
        (.elements draft (band.add (e.typed type t.span.stop)))

/-- A type is read exactly from a token that names one. -/
theorem readType_eq_ok_iff (p : Place) (t : Located Token) (type : ValueType) :
    p.readType t = .ok type ↔ t.value.NamesType type := by
  obtain ⟨value, span⟩ := t
  constructor
  · intro h
    unfold readType at h
    split at h
    · next hvalue =>
      obtain rfl : value = .keyword .report := hvalue
      obtain rfl := Except.ok.inj h
      exact .report
    · next word hvalue =>
      obtain rfl : value = .identifier word := hvalue
      split at h
      · next type' htype =>
        obtain rfl := Except.ok.inj h
        exact .word htype
      · exact nomatch h
    · exact nomatch h
  · intro h
    cases h with
    | report => rfl
    | word hword => simp only [readType, hword]

/-- The ways out of an element are steps. -/
theorem Step.of_enterElement? {draft : Design} {band : Section} {p p' : Place} {t : Located Token}
    (hp : AtElements draft band p) (h : enterElement? draft band t = some p') : Step p t p' := by
  obtain ⟨value, span⟩ := t
  unfold enterElement? at h
  split at h
  · next hvalue =>
    obtain rfl : value = .keyword .text := hvalue
    obtain rfl := Option.some.inj h
    exact .text hp
  · next hvalue =>
    obtain rfl : value = .keyword .textField := hvalue
    obtain rfl := Option.some.inj h
    exact .carrier .field hp
  · next hvalue =>
    obtain rfl : value = .keyword .subreport := hvalue
    obtain rfl := Option.some.inj h
    exact .carrier .subreport hp
  · next hvalue =>
    obtain rfl : value = .braceClose := hvalue
    obtain rfl := Option.some.inj h
    exact .closeSection hp
  · exact nomatch h

/-- Whatever the grammar does is a step. -/
theorem Step.of_next_eq_ok {p p' : Place} {t : Located Token} (h : p.next t = .ok p') :
    Step p t p' := by
  obtain ⟨value, span⟩ := t
  cases p <;> unfold next at h <;> dsimp only at h
  case start =>
    split at h
    · cases h; exact .report
    · cases h
  case reportName =>
    split at h
    · cases h; exact .reportName
    · cases h
  case bodyOpening name =>
    split at h
    · cases h; exact .openReport
    · cases h
  case declarations draft =>
    split at h
    · cases h; exact .parameter
    · cases h; exact .band .declarations
    · cases h; exact .closeReport .declarations
    · cases h
  case parameterName draft begun =>
    split at h
    · cases h; exact .parameterName
    · cases h
  case parameterColon draft begun name =>
    split at h
    · cases h; exact .parameterColon
    · cases h
  case parameterType draft begun name =>
    cases htype : readType (.parameterType draft begun name) ⟨value, span⟩ with
    | error e => rw [htype] at h; cases h
    | ok type =>
      rw [htype] at h
      cases h
      exact .parameterType ((readType_eq_ok_iff _ _ _).mp htype)
  case sections draft =>
    split at h
    · cases h; exact .band .sections
    · cases h; exact .closeReport .sections
    · cases h
  case sectionKind draft =>
    split at h
    · next word =>
      cases hkind : SectionKind.ofKeyword? word with
      | none => rw [hkind] at h; cases h
      | some kind => rw [hkind] at h; cases h; exact .sectionKind hkind
    · cases h
  case sectionOpening draft kind =>
    split at h
    · cases h; exact .openSection
    · cases h
  case elements draft band =>
    split at h
    · next hplace => cases h; exact .of_enterElement? .elements hplace
    · cases h
  case textContent draft band begun =>
    split at h
    · cases h; exact .textContent
    · cases h
  case expressionText draft band begun carrier =>
    split at h
    · cases h; exact .expressionText
    · cases h
  case afterExpression draft band e =>
    split at h
    · cases h; exact .expressionColon
    · split at h
      · next hplace => cases h; exact .of_enterElement? .afterExpression hplace
      · cases h
  case expressionType draft band e =>
    cases htype : readType (.expressionType draft band e) ⟨value, span⟩ with
    | error fault => rw [htype] at h; cases h
    | ok type =>
      rw [htype] at h
      cases h
      exact .expressionType ((readType_eq_ok_iff _ _ _).mp htype)
  case complete design => cases h

/-- Every step is what the grammar does. -/
theorem Step.next_eq_ok {p p' : Place} {t : Located Token} (h : Step p t p') :
    p.next t = .ok p' := by
  cases h with
  | parameterType h => rw [next, (readType_eq_ok_iff _ _ _).mpr h]; rfl
  | expressionType h => rw [next, (readType_eq_ok_iff _ _ _).mpr h]; rfl
  | sectionKind h => simp only [next, h]
  | band h => cases h <;> rfl
  | closeReport h => cases h <;> rfl
  | text h => cases h <;> rfl
  | carrier carrier h => cases h <;> cases carrier <;> rfl
  | closeSection h => cases h <;> rfl
  | _ => rfl

/-- A place is left exactly by these steps. -/
theorem next_eq_ok_iff (p p' : Place) (t : Located Token) : p.next t = .ok p' ↔ Step p t p' :=
  ⟨Step.of_next_eq_ok, Step.next_eq_ok⟩

end Place

end ReportAssembly
