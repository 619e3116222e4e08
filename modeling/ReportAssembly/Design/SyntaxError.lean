import ReportAssembly.Design.Token

namespace ReportAssembly

abbrev Lookahead := Option Token

def Lookahead.describe : Lookahead → String
  | some t => t.describe
  | none => "end of input"

inductive SyntaxFault
  /-- A stretch that is no token. -/
  | unreadable (text : String)
  /-- A token, or the end, where the grammar has no place for it. -/
  | unexpected (found : Lookahead)
  /-- A name in the place of a section kind that is no section kind. -/
  | unknownSection (word : String)
  /-- A name in the place of a type that is no type. -/
  | unknownType (word : String)
  deriving DecidableEq, Repr

def SyntaxFault.message : SyntaxFault → String
  | unreadable text => "Unexpected input '" ++ text ++ "'"
  | unexpected found => "Unexpected " ++ found.describe
  | unknownSection word => "unknown section '" ++ word ++ "'"
  | unknownType word => "unknown value type '" ++ word ++ "'"

structure SyntaxError where
  span : Span
  fault : SyntaxFault
  expected : List Lookahead
  deriving DecidableEq, Repr

structure Notice where
  span : Span
  message : String
  expected : List String
  deriving DecidableEq, Repr

namespace Notice

def display (n : Notice) : String :=
  "Parse error at " ++ toString n.span.start ++ ".." ++ toString n.span.stop ++ ": " ++ n.message

def label (n : Notice) : String :=
  if n.expected.isEmpty then n.message
  else n.message ++ "\nExpected: " ++ String.intercalate ", " n.expected

end Notice

namespace SyntaxError

def notice (e : SyntaxError) : Notice :=
  ⟨e.span, e.fault.message, e.expected.map Lookahead.describe⟩

def display (e : SyntaxError) : String :=
  e.notice.display

end SyntaxError

def displayAll (errors : List SyntaxError) : String :=
  String.intercalate "; " (errors.map SyntaxError.display)

end ReportAssembly
