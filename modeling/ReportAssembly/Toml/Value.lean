import ReportAssembly.Decimal.Shortest
import ReportAssembly.Text.Visible

namespace ReportAssembly.Toml

/-- A value. A table keeps its entries in the order of the document; `dotted` tells that it came
about through dotted keys. Of dates and times only their presence counts. -/
inductive Value
  | string (s : String)
  | integer (n : Int)
  | float (x : Double)
  | boolean (b : Bool)
  | dateTime
  | array (items : List Value)
  | table (dotted : Bool) (entries : List (String × Value))
  deriving Repr

def pointed (x : Double) : String :=
  let text := x.display
  if x.isFinite && !text.toList.contains '.' then text ++ ".0" else text

def Value.describe : Value → String
  | string s => "string " ++ Text.visible s
  | integer n => "integer `" ++ toString n ++ "`"
  | float x => "floating point `" ++ pointed x ++ "`"
  | boolean b => "boolean `" ++ (if b then "true" else "false") ++ "`"
  | dateTime => "map"
  | array _ => "sequence"
  | table .. => "map"

end ReportAssembly.Toml
