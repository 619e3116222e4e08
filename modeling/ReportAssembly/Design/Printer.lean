import ReportAssembly.Design.Basic
import ReportAssembly.Text.Quoted

namespace ReportAssembly

def quote (s : String) : String :=
  "\"" ++ .ofList (Text.Quoted.encode s.toList) ++ "\""

def Expression.print (e : Expression) : String :=
  match e.type with
  | .string => "`" ++ e.text ++ "`"
  | type => "`" ++ e.text ++ "`: " ++ type.keyword

def Element.print : Element → String
  | text content => "text " ++ quote content
  | field e => "textfield " ++ e.print
  | subreport e => "subreport " ++ e.print

def Parameter.print (p : Parameter) : String :=
  "parameter " ++ p.name ++ ": " ++ p.type.keyword

def Section.lines (s : Section) : List String :=
  if s.elements.isEmpty then ["    section " ++ s.kind.keyword ++ " \x7b \x7d"]
  else
    ["    section " ++ s.kind.keyword ++ " \x7b"] ++
      s.elements.map (fun e => "        " ++ e.value.print) ++ ["    \x7d"]

def Design.lines (d : Design) : List String :=
  ["report " ++ quote d.name ++ " \x7b"] ++
    d.parameters.map (fun p => "    " ++ p.value.print) ++
    d.sections.flatMap Section.lines ++ ["\x7d"]

def Design.print (d : Design) : String :=
  String.intercalate "\n" d.lines

end ReportAssembly
