import ReportAssembly.Design.Basic
import ReportAssembly.Design.Lexer

/-!
The grammar of design source. Nothing in it nests without bound, so a finite automaton reads it:
its state is the place reached in the grammar with the part of the design read so far. The first
token without a place in the state is the error.

  report "name" { parameter name : type ... section kind { element ... } ... }
-/

namespace ReportAssembly

inductive Carrier
  | field
  | subreport
  deriving DecidableEq, Repr

def Carrier.element : Carrier → Expression → Element
  | field, e => .field e
  | subreport, e => .subreport e

/-- An element that has been read up to its expression text: where it started, and where the text
ended. -/
structure OpenElement where
  start : Nat
  carrier : Carrier
  text : String
  stop : Nat
  deriving DecidableEq, Repr

def OpenElement.typed (e : OpenElement) (type : ValueType) (stop : Nat) : Located Element :=
  ⟨e.carrier.element ⟨e.text, type⟩, ⟨e.start, stop⟩⟩

def OpenElement.untyped (e : OpenElement) : Located Element :=
  e.typed .string e.stop

/-- A place in the grammar. `draft` is the design up to there, `band` the open section. -/
inductive Place
  /-- Nothing read. -/
  | start
  /-- After `report`. -/
  | reportName
  /-- After the name. -/
  | bodyOpening (name : String)
  /-- After the opening brace or a parameter. -/
  | declarations (draft : Design)
  /-- After `parameter`, which began at `start`. -/
  | parameterName (draft : Design) (start : Nat)
  /-- After the name of a parameter. -/
  | parameterColon (draft : Design) (start : Nat) (name : String)
  /-- After the colon of a parameter. -/
  | parameterType (draft : Design) (start : Nat) (name : String)
  /-- After a section. -/
  | sections (draft : Design)
  /-- After `section`. -/
  | sectionKind (draft : Design)
  /-- After the kind of a section. -/
  | sectionOpening (draft : Design) (kind : SectionKind)
  /-- After the opening brace of a section or a complete element. -/
  | elements (draft : Design) (band : Section)
  /-- After `text`, which began at `start`. -/
  | textContent (draft : Design) (band : Section) (start : Nat)
  /-- After the keyword of a field or sub-report, which began at `start`. -/
  | expressionText (draft : Design) (band : Section) (start : Nat) (carrier : Carrier)
  /-- After an expression, which a type may follow. -/
  | afterExpression (draft : Design) (band : Section) (element : OpenElement)
  /-- After the colon of an expression. -/
  | expressionType (draft : Design) (band : Section) (element : OpenElement)
  /-- After the last closing brace. -/
  | complete (design : Design)
  deriving DecidableEq, Repr

namespace Place

def elementStarts : List Lookahead :=
  [some (.keyword .text), some (.keyword .textField), some (.keyword .subreport), some .braceClose]

def expected : Place → List Lookahead
  | start => [some (.keyword .report)]
  | reportName => []
  | bodyOpening _ => [some .braceOpen]
  | declarations _ => [some (.keyword .parameter), some (.keyword .band), some .braceClose]
  | parameterName .. => []
  | parameterColon .. => [some .colon]
  | parameterType .. => [some (.keyword .report)]
  | sections _ => [some (.keyword .band), some .braceClose]
  | sectionKind _ => []
  | sectionOpening .. => [some .braceOpen]
  | elements .. => elementStarts
  | textContent .. => []
  | expressionText .. => []
  | afterExpression .. => some .colon :: elementStarts
  | expressionType .. => [some (.keyword .report)]
  | complete _ => [none]

def reject (p : Place) (found : Lookahead) (span : Span) : SyntaxError :=
  ⟨span, .unexpected found, p.expected⟩

def readType (p : Place) (t : Located Token) : Except SyntaxError ValueType :=
  match t.value with
  | .keyword .report => .ok .report
  | .identifier word =>
    match ValueType.ofKeyword? word with
    | some type => .ok type
    | none => .error ⟨t.span, .unknownType word, []⟩
  | _ => .error (p.reject (some t.value) t.span)

def enterElement? (draft : Design) (band : Section) (t : Located Token) : Option Place :=
  match t.value with
  | .keyword .text => some (textContent draft band t.span.start)
  | .keyword .textField => some (expressionText draft band t.span.start .field)
  | .keyword .subreport => some (expressionText draft band t.span.start .subreport)
  | .braceClose => some (sections (draft.addSection band))
  | _ => none

def next (p : Place) (t : Located Token) : Except SyntaxError Place :=
  let rejected := .error (p.reject (some t.value) t.span)
  match p with
  | start =>
    match t.value with
    | .keyword .report => .ok reportName
    | _ => rejected
  | reportName =>
    match t.value with
    | .string name => .ok (bodyOpening name)
    | _ => rejected
  | bodyOpening name =>
    match t.value with
    | .braceOpen => .ok (declarations ⟨name, [], []⟩)
    | _ => rejected
  | declarations draft =>
    match t.value with
    | .keyword .parameter => .ok (parameterName draft t.span.start)
    | .keyword .band => .ok (sectionKind draft)
    | .braceClose => .ok (complete draft)
    | _ => rejected
  | parameterName draft begun =>
    match t.value with
    | .identifier name => .ok (parameterColon draft begun name)
    | _ => rejected
  | parameterColon draft begun name =>
    match t.value with
    | .colon => .ok (parameterType draft begun name)
    | _ => rejected
  | parameterType draft begun name => do
    let type ← p.readType t
    return declarations (draft.declare ⟨⟨name, type⟩, ⟨begun, t.span.stop⟩⟩)
  | sections draft =>
    match t.value with
    | .keyword .band => .ok (sectionKind draft)
    | .braceClose => .ok (complete draft)
    | _ => rejected
  | sectionKind draft =>
    match t.value with
    | .identifier word =>
      match SectionKind.ofKeyword? word with
      | some kind => .ok (sectionOpening draft kind)
      | none => .error ⟨t.span, .unknownSection word, []⟩
    | _ => rejected
  | sectionOpening draft kind =>
    match t.value with
    | .braceOpen => .ok (elements draft ⟨kind, []⟩)
    | _ => rejected
  | elements draft band =>
    match enterElement? draft band t with
    | some place => .ok place
    | none => rejected
  | textContent draft band begun =>
    match t.value with
    | .string content => .ok (elements draft (band.add ⟨.text content, ⟨begun, t.span.stop⟩⟩))
    | _ => rejected
  | expressionText draft band begun carrier =>
    match t.value with
    | .expression text => .ok (afterExpression draft band ⟨begun, carrier, text, t.span.stop⟩)
    | _ => rejected
  | afterExpression draft band element =>
    match t.value with
    | .colon => .ok (expressionType draft band element)
    | _ =>
      match enterElement? draft (band.add element.untyped) t with
      | some place => .ok place
      | none => rejected
  | expressionType draft band element => do
    let type ← p.readType t
    return elements draft (band.add (element.typed type t.span.stop))
  | complete _ => rejected

def after (p : Place) (ts : List (Located Token)) : Except SyntaxError Place :=
  ts.foldlM next p

def finish (p : Place) (span : Span) : Except SyntaxError Design :=
  match p with
  | complete design => .ok design
  | _ => .error (p.reject none span)

end Place

/-- The place of an error at the end of a source of `length` bytes: from there back to the end of
the last token, if there is one. -/
def endSpan (length : Nat) (ts : List (Located Token)) : Span :=
  ⟨length, (ts.getLast?.map (·.span.stop)).getD length⟩

def Design.ofTokens (length : Nat) (ts : List (Located Token)) : Except SyntaxError Design := do
  let place ← Place.start.after ts
  place.finish (endSpan length ts)

def Design.parse (source : String) : Except (List SyntaxError) Design := do
  let ts ← lex source
  (Design.ofTokens (byteLength source.toList) ts).mapError ([·])

end ReportAssembly
