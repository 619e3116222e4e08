import ReportAssembly.Decimal.Reading
import ReportAssembly.Toml.Text
import ReportAssembly.Toml.Value

namespace ReportAssembly.Toml

def moreDigits (isDigit : Char → Bool) : List Char → List Char × List Char
  | '_' :: c :: cs =>
    if isDigit c then
      let (digits, rest) := moreDigits isDigit cs
      (c :: digits, rest)
    else ([], '_' :: c :: cs)
  | c :: cs =>
    if isDigit c then
      let (digits, rest) := moreDigits isDigit cs
      (c :: digits, rest)
    else ([], c :: cs)
  | [] => ([], [])

def digits? (isDigit : Char → Bool) : List Char → Option (List Char × List Char)
  | [] => none
  | c :: cs =>
    if isDigit c then
      let (digits, rest) := moreDigits isDigit cs
      some (c :: digits, rest)
    else none

def wholeDigits? : List Char → Option (List Char × List Char)
  | '0' :: cs => some (['0'], cs)
  | cs => digits? Char.isDigit cs

def numberOf (base : Nat) (digits : List Char) : Nat :=
  digits.foldl (fun n c => n * base + (hexDigit? c).getD 0) 0

def integer? (n : Int) (rest : List Char) : Option (Value × List Char) :=
  if Int64.minValue.toInt ≤ n && n ≤ Int64.maxValue.toInt then some (.integer n, rest) else none

def sign (cs : List Char) : Bool × List Char :=
  match cs with
  | '+' :: cs => (false, cs)
  | '-' :: cs => (true, cs)
  | _ => (false, cs)

def fraction? : List Char → Option (List Char × List Char)
  | '.' :: cs => digits? Char.isDigit cs
  | cs => some ([], cs)

def exponent? (cs : List Char) : Option (Option Int × List Char) :=
  match cs with
  | c :: cs =>
    if c = 'e' || c = 'E' then do
      let (negative, rest) := sign cs
      let (digits, rest) ← digits? Char.isDigit rest
      let n : Int := numberOf 10 digits
      some (some (if negative then -n else n), rest)
    else some (none, c :: cs)
  | [] => some (none, [])

/-- A decimal integer, or a float if a point or an exponent follows. Positive numbers that are too
large for a float are refused. -/
def decimal? (cs : List Char) : Option (Value × List Char) := do
  let (negative, rest) := sign cs
  let (whole, rest) ← wholeDigits? rest
  let (fraction, rest) ← fraction? rest
  let (exponent, rest) ← exponent? rest
  if fraction.isEmpty && exponent.isNone then
    let n : Int := numberOf 10 whole
    integer? (if negative then -n else n) rest
  else
    let x := Double.ofDecimal negative (numberOf 10 (whole ++ fraction))
      (exponent.getD 0 - fraction.length)
    if x = Double.infinity false then none else some (.float x, rest)

def radix? (base : Nat) (isDigit : Char → Bool) (cs : List Char) : Option (Value × List Char) := do
  let (digits, rest) ← digits? isDigit cs
  integer? (numberOf base digits) rest

def number? (cs : List Char) : Option (Value × List Char) :=
  let (negative, unsigned) := sign cs
  match unsigned with
  | 'i' :: 'n' :: 'f' :: rest => some (.float (.infinity negative), rest)
  | 'n' :: 'a' :: 'n' :: rest => some (.float (.nan negative), rest)
  | _ =>
    match cs with
    | '0' :: 'x' :: cs => radix? 16 (fun c => (hexDigit? c).isSome) cs
    | '0' :: 'o' :: cs => radix? 8 (fun c => '0' ≤ c && c ≤ '7') cs
    | '0' :: 'b' :: cs => radix? 2 (fun c => c == '0' || c == '1') cs
    | _ => decimal? cs

def fixedDigits? (n : Nat) (cs : List Char) : Option (Nat × List Char) :=
  let digits := cs.take n
  if digits.length = n && digits.all Char.isDigit then some (numberOf 10 digits, cs.drop n) else none

def char? (c : Char) : List Char → Option (List Char)
  | d :: cs => if d = c then some cs else none
  | [] => none

def daysIn (year month : Nat) : Nat :=
  if month = 2 then
    if year % 4 = 0 && (year % 100 != 0 || year % 400 = 0) then 29 else 28
  else if month = 4 || month = 6 || month = 9 || month = 11 then 30
  else 31

def date? (cs : List Char) : Option (List Char) := do
  let (year, rest) ← fixedDigits? 4 cs
  let (month, rest) ← char? '-' rest >>= fixedDigits? 2
  let (day, rest) ← char? '-' rest >>= fixedDigits? 2
  guard (1 ≤ month && month ≤ 12 && 1 ≤ day && day ≤ daysIn year month)
  return rest

def hourMinute? (cs : List Char) : Option (List Char) := do
  let (hour, rest) ← fixedDigits? 2 cs
  let (minute, rest) ← char? ':' rest >>= fixedDigits? 2
  guard (hour < 24 && minute < 60)
  return rest

def time? (cs : List Char) : Option (List Char) := do
  let rest ← hourMinute? cs
  let (second, rest) ← char? ':' rest >>= fixedDigits? 2
  guard (second ≤ 60)
  match rest with
  | '.' :: c :: cs => if c.isDigit then some (cs.dropWhile Char.isDigit) else some rest
  | _ => some rest

def skipOffset (cs : List Char) : List Char :=
  match cs with
  | c :: rest =>
    if c = 'Z' || c = 'z' then rest
    else if c = '+' || c = '-' then (hourMinute? rest).getD cs
    else cs
  | [] => []

def dateTime? (cs : List Char) : Option (Value × List Char) :=
  match date? cs with
  | some rest =>
    let withTime :=
      match rest with
      | c :: cs => if c = 'T' || c = 't' || c = ' ' then (time? cs).map skipOffset else none
      | [] => none
    some (.dateTime, withTime.getD rest)
  | none => (time? cs).map (.dateTime, ·)

end ReportAssembly.Toml
