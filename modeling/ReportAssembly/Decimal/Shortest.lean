/-!
The shortest decimal that reads back to the same double. A double is a rational number with an
interval of numbers that round to it; of the decimals with one digit, two digits and so on, the
first that lies in the interval is taken, and of two with the same number of digits the nearer.
-/

namespace ReportAssembly

structure Decimal where
  digits : Nat
  exponent : Int
  deriving DecidableEq, Repr

namespace Decimal

/-- A positive rational `mid / scale` between the bounds of what rounds to it, all over one
denominator. The bounds belong to the interval if it is closed. -/
structure Interval where
  low : Nat
  mid : Nat
  high : Nat
  scale : Nat
  closed : Bool
  deriving DecidableEq, Repr

namespace Interval

def contains (i : Interval) (num den : Nat) : Bool :=
  let low := i.low * den
  let high := i.high * den
  let n := num * i.scale
  if i.closed then low ≤ n && n ≤ high else low < n && n < high

def unit (exponent : Int) : Nat × Nat :=
  (Nat.pow 10 exponent.toNat, Nat.pow 10 (-exponent).toNat)

/-- The multiple of `10 ^ exponent` in the interval that is nearest to its middle, looking at the
two neighbours of the middle. Of two equally near the larger is taken. -/
def nearest? (i : Interval) (exponent : Int) : Option Nat :=
  let (num, den) := unit exponent
  let below := i.mid * den / (i.scale * num)
  let remainder := i.mid * den % (i.scale * num)
  let hasBelow := i.contains (below * num) den
  let hasAbove := i.contains ((below + 1) * num) den
  if hasBelow && hasAbove then
    if 2 * remainder < i.scale * num then some below else some (below + 1)
  else if hasBelow then some below
  else if hasAbove then some (below + 1)
  else none

def leading (i : Interval) : Int :=
  (Nat.toDigits 10 (i.mid * Nat.pow 10 400 / i.scale)).length - 401

def shortestFrom (i : Interval) : Nat → Decimal
  | 0 =>
    let exponent := i.leading - 17
    ⟨(i.nearest? exponent).getD 0, exponent⟩
  | n + 1 =>
    let exponent := i.leading - (16 - n : Nat)
    match i.nearest? exponent with
    | some digits => ⟨digits, exponent⟩
    | none => shortestFrom i n

def shortest (i : Interval) : Decimal :=
  i.shortestFrom 17

end Interval

def positional (d : Decimal) : String :=
  let digits := Nat.toDigits 10 d.digits
  if 0 ≤ d.exponent then .ofList (digits ++ List.replicate d.exponent.toNat '0')
  else
    let places := (-d.exponent).toNat
    let padded := List.replicate (places + 1 - digits.length) '0' ++ digits
    let whole := padded.take (padded.length - places)
    let fraction := ((padded.drop (padded.length - places)).reverse.dropWhile (· == '0')).reverse
    .ofList (if fraction.isEmpty then whole else whole ++ '.' :: fraction)

end Decimal

structure Double where
  bits : UInt64
  deriving DecidableEq, Repr

namespace Double

def negative (x : Double) : Bool :=
  Nat.pow 2 63 ≤ x.bits.toNat

def exponentField (x : Double) : Nat :=
  x.bits.toNat / Nat.pow 2 52 % Nat.pow 2 11

def fractionField (x : Double) : Nat :=
  x.bits.toNat % Nat.pow 2 52

/-- The magnitude of a finite double that is not zero, in quarters of its last bit. The gap to the
next smaller double is half as wide at a power of two. -/
def interval (x : Double) : Decimal.Interval :=
  let e := x.exponentField
  let f := x.fractionField
  let m := if e = 0 then f else Nat.pow 2 52 + f
  let shift := max e 1
  let up := Nat.pow 2 (shift - 1077)
  let down := Nat.pow 2 (1077 - shift)
  let low := if f = 0 && 1 < e then 4 * m - 1 else 4 * m - 2
  ⟨low * up, 4 * m * up, (4 * m + 2) * up, down, m % 2 = 0⟩

def display (x : Double) : String :=
  let sign := if x.negative then "-" else ""
  if x.exponentField = 2047 then
    if x.fractionField = 0 then sign ++ "inf" else "NaN"
  else if x.exponentField = 0 && x.fractionField = 0 then sign ++ "0"
  else sign ++ x.interval.shortest.positional

def isFinite (x : Double) : Bool :=
  x.exponentField != 2047

end Double

end ReportAssembly
