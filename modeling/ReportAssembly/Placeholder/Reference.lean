import ReportAssembly.Design.Lexer
import ReportAssembly.Placeholder.Basic
import ReportAssembly.Text.Blank

namespace ReportAssembly

inductive ReferenceFault
  | unquoted
  | emptyName
  | notIdentifier (name : String)
  deriving DecidableEq, Repr

def ReferenceFault.message : ReferenceFault → String
  | unquoted => "expected a quoted template name"
  | emptyName => "template name is empty"
  | notIdentifier name => "template name '" ++ name ++ "' is not a valid parameter identifier"

def betweenQuotes? : List Char → Option (List Char)
  | '"' :: cs => if cs.getLast? = some '"' then some cs.dropLast else none
  | _ => none

def templateName (expression : String) : Except ReferenceFault String :=
  match betweenQuotes? (Text.trimChars expression.toList) with
  | none => .error .unquoted
  | some inner =>
    let name := Text.trimChars inner
    if name.isEmpty then .error .emptyName
    else if readsBack (.ofList name) then .ok (.ofList name)
    else .error (.notIdentifier (.ofList name))

end ReportAssembly
