import ReportAssembly.Text.Span

namespace ReportAssembly

/-- What a parameter or an expression yields. A `report` is a compiled report, supplied when the
master is filled. -/
inductive ValueType
  | string
  | number
  | boolean
  | object
  | report
  deriving DecidableEq, Repr

namespace ValueType

def keyword : ValueType → String
  | string => "string"
  | number => "number"
  | boolean => "boolean"
  | object => "object"
  | report => "report"

def ofKeyword? (word : String) : Option ValueType :=
  [string, number, boolean, object, report].find? (·.keyword == word)

theorem ofKeyword?_keyword (t : ValueType) : ofKeyword? t.keyword = some t := by
  cases t <;> decide

end ValueType

inductive SectionKind
  | title
  | pageHeader
  | columnHeader
  | detail
  | columnFooter
  | pageFooter
  | summary
  deriving DecidableEq, Repr

namespace SectionKind

def keyword : SectionKind → String
  | title => "title"
  | pageHeader => "page_header"
  | columnHeader => "column_header"
  | detail => "detail"
  | columnFooter => "column_footer"
  | pageFooter => "page_footer"
  | summary => "summary"

def ofKeyword? (word : String) : Option SectionKind :=
  [title, pageHeader, columnHeader, detail, columnFooter, pageFooter, summary].find?
    (·.keyword == word)

theorem ofKeyword?_keyword (k : SectionKind) : ofKeyword? k.keyword = some k := by
  cases k <;> decide

end SectionKind

structure Expression where
  text : String
  type : ValueType
  deriving DecidableEq, Repr

structure Parameter where
  name : String
  type : ValueType
  deriving DecidableEq, Repr

inductive Element
  | text (content : String)
  | field (expression : Expression)
  | subreport (expression : Expression)
  deriving DecidableEq, Repr

structure Section where
  kind : SectionKind
  elements : List (Located Element)
  deriving DecidableEq, Repr

def Section.add (s : Section) (e : Located Element) : Section :=
  { s with elements := s.elements ++ [e] }

/-- Where an element stands in a design: the number of its section, then its number there, both
counted from zero. -/
structure Position where
  band : Nat
  index : Nat
  deriving DecidableEq, Repr

structure Design where
  name : String
  parameters : List (Located Parameter)
  sections : List Section
  deriving DecidableEq, Repr

namespace Design

def parameter? (d : Design) (name : String) : Option Parameter :=
  (d.parameters.map (·.value)).find? (·.name == name)

def element? (d : Design) (pos : Position) : Option (Located Element) :=
  d.sections[pos.band]? >>= fun s => s.elements[pos.index]?

def modifyElement (d : Design) (pos : Position) (f : Element → Element) : Design :=
  { d with
    sections := d.sections.modify pos.band fun s =>
      { s with elements := s.elements.modify pos.index fun e => { e with value := f e.value } } }

def declare (d : Design) (p : Located Parameter) : Design :=
  { d with parameters := d.parameters ++ [p] }

def addSection (d : Design) (s : Section) : Design :=
  { d with sections := d.sections ++ [s] }

end Design

end ReportAssembly
