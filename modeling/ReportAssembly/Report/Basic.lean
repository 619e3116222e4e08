import ReportAssembly.Design.Basic
import ReportAssembly.Interpolation

namespace ReportAssembly.Report

/-- An element of a compiled report. A sub-report comes from a parameter when the report is filled,
or from an expression that is left to the renderer. -/
inductive Element
  | text (content : String)
  | field (chunks : Interpolation) (type : ValueType)
  | subreportParameter (name : String)
  | subreportExpression (chunks : Interpolation)
  deriving DecidableEq, Repr

def Element.subreportParameter? : Element → Option String
  | subreportParameter name => some name
  | _ => none

structure Section where
  kind : SectionKind
  elements : List Element
  deriving DecidableEq, Repr

end ReportAssembly.Report

namespace ReportAssembly

structure Report where
  name : String
  parameters : List Parameter
  sections : List Report.Section
  deriving DecidableEq, Repr

namespace Report

def parameter? (r : Report) (name : String) : Option Parameter :=
  r.parameters.find? (·.name == name)

def subreportParameters (r : Report) : List String :=
  r.sections.flatMap fun s => s.elements.filterMap Element.subreportParameter?

/-- A compiled report and the number of the compilation that made it. Two handles of one
compilation are the same artifact; reports of different compilations may have the same content. -/
structure Handle where
  compilation : Nat
  report : Report
  deriving DecidableEq, Repr

def Handle.sameArtifact (a b : Handle) : Bool :=
  a.compilation == b.compilation

end Report

end ReportAssembly
