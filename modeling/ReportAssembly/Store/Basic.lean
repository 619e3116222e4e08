import ReportAssembly.Design.Grammar
import ReportAssembly.Note

namespace ReportAssembly

inductive TemplateError
  | notFound (name : String)
  | duplicate (name : String)
  | unreadableFile (path reason : String)
  | malformed (name : String) (errors : List SyntaxError)
  deriving DecidableEq, Repr

def TemplateError.message : TemplateError → String
  | notFound name => "template not found: " ++ name
  | duplicate name => "duplicate template definition: " ++ name
  | unreadableFile path reason => "error reading template file " ++ path ++ ": " ++ reason
  | malformed name errors => "template " ++ name ++ " does not parse: " ++ displayAll errors

structure Answer where
  outcome : Except TemplateError Design
  notes : List Note

/-- A store: its answer to every name, and a list of names that has all those with a design. -/
structure Store where
  lookup : String → Answer
  names : List String
  mem_names : ∀ {name : String} {d : Design}, (lookup name).outcome = .ok d → name ∈ names

end ReportAssembly
