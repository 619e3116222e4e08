namespace ReportAssembly

inductive Level
  | debug
  | info
  | warn
  deriving DecidableEq, Repr

def Level.word : Level → String
  | debug => "debug"
  | info => "info"
  | warn => "warn"

inductive Note
  /-- The file for a template declares another report name. -/
  | otherNameDeclared (template declared path : String)
  | templateLoaded (template path : String)
  | templateResolved (template : String)
  | templateCompiled (template : String)
  | reportComposed (report : String) (subreports : Nat)
  /-- A value of the caller has given way to a sub-report. -/
  | valueShadowed (parameter : String)
  deriving DecidableEq, Repr

namespace Note

def level : Note → Level
  | otherNameDeclared .. => .warn
  | templateLoaded .. => .debug
  | templateResolved _ => .debug
  | templateCompiled _ => .debug
  | reportComposed .. => .info
  | valueShadowed _ => .warn

def message : Note → String
  | otherNameDeclared .. => "template file declares a different report name"
  | templateLoaded .. => "loaded template"
  | templateResolved _ => "resolved sub-template"
  | templateCompiled _ => "compiled sub-template"
  | reportComposed .. => "composed report"
  | valueShadowed _ => "caller parameter shadowed by sub-report binding"

def fields : Note → List (String × String)
  | otherNameDeclared template declared path =>
    [("template", template), ("declared", declared), ("path", path)]
  | templateLoaded template path => [("template", template), ("path", path)]
  | templateResolved template => [("template", template)]
  | templateCompiled template => [("template", template)]
  | reportComposed report subreports =>
    [("report", report), ("subreports", toString subreports)]
  | valueShadowed parameter => [("parameter", parameter)]

def line (n : Note) : String :=
  n.level.word ++ ": " ++ n.message ++
    String.join (n.fields.map fun (name, text) => " " ++ name ++ "=" ++ text)

end Note

end ReportAssembly
