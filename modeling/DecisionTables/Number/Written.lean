import DecisionTables.Number.Shortest

/-!
# Written numbers

A binary64 number is written by its shortest decimal, positionally from `0.00001` to below
`10 ^ 16`.  A positional number always has a fractional part; any other number has one leading
digit and a signed exponent.
-/

namespace DecisionTables

def integerText (n : Int) : List Char :=
  if n < 0 then '-' :: Nat.toDigits 10 n.natAbs else Nat.toDigits 10 n.natAbs

namespace Decimal

def positionalText (d : Decimal) : List Char :=
  let digits := Nat.toDigits 10 d.digits
  let point := digits.length + d.exponent
  if 0 ≤ d.exponent then digits ++ List.replicate d.exponent.toNat '0' ++ ['.', '0']
  else if 0 < point then digits.take point.toNat ++ '.' :: digits.drop point.toNat
  else '0' :: '.' :: List.replicate (-point).toNat '0' ++ digits

def scientificText (d : Decimal) : List Char :=
  let digits := Nat.toDigits 10 d.digits
  let leading := d.ceilingExponent - 1
  let fraction := if digits.length ≤ 1 then [] else '.' :: digits.drop 1
  let sign := if 0 ≤ leading then ['+'] else []
  digits.take 1 ++ fraction ++ 'e' :: sign ++ integerText leading

def text (d : Decimal) : List Char :=
  let leading := d.ceilingExponent - 1
  if -5 ≤ leading ∧ leading ≤ 15 then d.positionalText else d.scientificText

end Decimal

/-- The text of a finite number.  A negative zero keeps its sign. -/
def Binary64.text (x : Binary64) : List Char :=
  let sign := if x.negative then ['-'] else []
  if x.magnitude = 0 then sign ++ ['0', '.', '0']
  else sign ++ (Binary64.shortest x.magnitude).text

end DecisionTables
