import ReportAssembly.Report.Basic

namespace ReportAssembly.Report

inductive Problem
  | blankName
  | repeatedParameter (name : String)
  /-- A text field of type report. -/
  | fieldYieldsReport
  | malformedExpression (text : String) (error : ReferenceError)
  | undeclaredParameter (name : String)
  /-- A sub-report of type report that is not one reference to a parameter. -/
  | notOneParameter (text : String)
  /-- A sub-report taken from a parameter of another type. -/
  | notReportTyped (name : String) (declared : ValueType)
  deriving DecidableEq, Repr

def Problem.message : Problem → String
  | blankName => "report name must not be empty"
  | repeatedParameter name => "parameter '" ++ name ++ "' declared more than once"
  | fieldYieldsReport => "text field expressions cannot produce a report"
  | malformedExpression text error => "invalid expression `" ++ text ++ "`: " ++ error.message
  | undeclaredParameter name => "undeclared parameter '" ++ name ++ "'"
  | notOneParameter text =>
    "report-typed subreport expression `" ++ text ++ "` must be a single parameter reference"
  | notReportTyped name declared =>
    "subreport parameter '" ++ name ++ "' is declared as " ++ declared.keyword ++
      ", expected report"

structure Diagnostic where
  problem : Problem
  span? : Option Span
  deriving DecidableEq, Repr

structure CompileError where
  diagnostics : List Diagnostic
  deriving DecidableEq, Repr

def CompileError.message (e : CompileError) : String :=
  String.intercalate "; " (e.diagnostics.map (·.problem.message))

def nameProblems (d : Design) : List Diagnostic :=
  if Text.allBlank d.name then [⟨.blankName, none⟩] else []

def repeatedDeclarations (seen : List String) : List (Located Parameter) → List Diagnostic
  | [] => []
  | p :: ps =>
    let rest := repeatedDeclarations (p.value.name :: seen) ps
    if p.value.name ∈ seen then ⟨.repeatedParameter p.value.name, some p.span⟩ :: rest else rest

abbrev Declarations := String → Option ValueType

def declarations (d : Design) : Declarations :=
  fun name => (d.parameter? name).map (·.type)

def compileExpression (declared : Declarations) (e : Expression) :
    Except (List Problem) Interpolation :=
  match Interpolation.parse e.text with
  | .error error => .error [.malformedExpression e.text error]
  | .ok chunks =>
    let undeclared := (chunks.references .parameter).filter fun name => (declared name).isNone
    if undeclared.isEmpty then .ok chunks else .error (undeclared.map .undeclaredParameter)

def compileElement (declared : Declarations) :
    ReportAssembly.Element → Except (List Problem) Element
  | .text content => .ok (.text content)
  | .field e =>
    if e.type = .report then .error [.fieldYieldsReport]
    else (compileExpression declared e).map (.field · e.type)
  | .subreport e => do
    let chunks ← compileExpression declared e
    if e.type = .report then
      match chunks.asReference? .parameter with
      | none => .error [.notOneParameter e.text]
      | some name =>
        match declared name with
        | some .report => .ok (.subreportParameter name)
        | some type => .error [.notReportTyped name type]
        | none => .error []
    else .ok (.subreportExpression chunks)

def elementProblems (declared : Declarations) (e : Located ReportAssembly.Element) :
    List Diagnostic :=
  match compileElement declared e.value with
  | .ok _ => []
  | .error problems => problems.map (⟨·, some e.span⟩)

def diagnostics (d : Design) : List Diagnostic :=
  nameProblems d ++ repeatedDeclarations [] d.parameters ++
    d.sections.flatMap fun s => s.elements.flatMap (elementProblems (declarations d))

def compileSection (declared : Declarations) (s : ReportAssembly.Section) : Section :=
  ⟨s.kind, s.elements.filterMap fun e => (compileElement declared e.value).toOption⟩

def compile (d : Design) : Except CompileError Report :=
  let found := diagnostics d
  if found.isEmpty then
    .ok ⟨d.name, d.parameters.map (·.value), d.sections.map (compileSection (declarations d))⟩
  else .error ⟨found⟩

end ReportAssembly.Report
