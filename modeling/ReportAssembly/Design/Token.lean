import ReportAssembly.Text.Span

namespace ReportAssembly

inductive Keyword
  | report
  | parameter
  | band
  | text
  | textField
  | subreport
  deriving DecidableEq, Repr

namespace Keyword

def word : Keyword → String
  | report => "report"
  | parameter => "parameter"
  | band => "section"
  | text => "text"
  | textField => "textfield"
  | subreport => "subreport"

def all : List Keyword :=
  [report, parameter, band, text, textField, subreport]

def ofWord? (w : String) : Option Keyword :=
  all.find? (·.word == w)

theorem ofWord?_word (k : Keyword) : ofWord? k.word = some k := by
  cases k <;> decide

end Keyword

inductive Token
  | keyword (k : Keyword)
  | braceOpen
  | braceClose
  | colon
  | identifier (name : String)
  | string (value : String)
  | expression (text : String)
  deriving DecidableEq, Repr

namespace Token

def ofWord (w : String) : Token :=
  match Keyword.ofWord? w with
  | some k => .keyword k
  | none => .identifier w

def describe : Token → String
  | keyword k => "keyword '" ++ k.word ++ "'"
  | braceOpen => "'\x7b'"
  | braceClose => "'\x7d'"
  | colon => "':'"
  | identifier name => "identifier '" ++ name ++ "'"
  | string value => "string \"" ++ value ++ "\""
  | expression text => "expression `" ++ text ++ "`"

end Token

def isWordStart (c : Char) : Bool :=
  c.isAlpha || c == '_'

def isWordPart (c : Char) : Bool :=
  c.isAlphanum || c == '_'

/-- An identifier: a word of ASCII letters, digits and underscores that does not begin with a
digit and is no keyword. -/
def isIdentifier (s : String) : Bool :=
  match s.toList with
  | [] => false
  | c :: cs => isWordStart c && cs.all isWordPart && (Keyword.ofWord? s).isNone

end ReportAssembly
