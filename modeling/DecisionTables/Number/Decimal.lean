import DecisionTables.Number.Binary64

/-!
# Decimal numbers

A decimal is a natural number of digits and a power of ten.  Reading a decimal gives the nearest
binary64 number.  Decimals that lie far outside the finite range are settled by their leading
digit alone, so that no power of ten beyond that range is ever computed.
-/

namespace DecisionTables

/-- The value `digits * 10 ^ exponent`. -/
structure Decimal where
  digits : Nat
  exponent : Int
deriving DecidableEq

namespace Decimal

/-- The least power of ten, as an exponent, that lies above the value. -/
def ceilingExponent (d : Decimal) : Int :=
  (Nat.toDigits 10 d.digits).length + d.exponent

/-- The nearest binary64 number, unless the decimal rounds beyond the finite range. -/
def toBinary64? (negative : Bool) (d : Decimal) : Option Binary64 :=
  if d.digits = 0 then some (Binary64.zero negative)
  else if d.ceilingExponent ≤ -324 then some (Binary64.zero negative)
  else if 310 ≤ d.ceilingExponent then none
  else Binary64.nearest? negative (d.digits * Nat.pow 10 d.exponent.toNat)
      (Nat.pow 10 (-d.exponent).toNat)

def ofDigits (whole fraction : List Char) (exponent : Int) : Decimal :=
  ⟨Nat.ofDigitChars 10 (whole ++ fraction) 0, exponent - fraction.length⟩

def normalize (d : Decimal) : Decimal :=
  if d.digits ≠ 0 ∧ d.digits % 10 = 0 then normalize ⟨d.digits / 10, d.exponent + 1⟩ else d
termination_by d.digits
decreasing_by omega

end Decimal

end DecisionTables
