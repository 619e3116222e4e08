import ReportAssembly.Decimal.Shortest

namespace ReportAssembly.Double

/-- The double of the largest finite magnitude lies below `10 ^ 309`, the smallest above
`10 ^ -324`; a decimal far outside is infinite or zero without any computation. -/
def ofDecimal (negative : Bool) (digits : Nat) (exponent : Int) : Double :=
  let leading := exponent + (Nat.toDigits 10 digits).length
  let magnitude : UInt64 :=
    if digits = 0 || leading < -400 then 0
    else if 400 < leading then 0x7FF0000000000000
    else (Float.ofScientific digits (exponent < 0) exponent.natAbs).toBits
  ⟨if negative then magnitude ||| 0x8000000000000000 else magnitude⟩

def infinity (negative : Bool) : Double :=
  ⟨if negative then 0xFFF0000000000000 else 0x7FF0000000000000⟩

def nan (negative : Bool) : Double :=
  ⟨if negative then 0xFFF8000000000000 else 0x7FF8000000000000⟩

end ReportAssembly.Double
