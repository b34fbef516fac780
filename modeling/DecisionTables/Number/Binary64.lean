/-!
# Finite binary64 numbers

A finite binary64 number is a sign and a magnitude, where the magnitude is the natural number
written by the sixty-three bits below the sign bit.  Magnitudes are ordered as the values they
stand for: a magnitude `k` stands for `scaled k / 2 ^ 1074`, and `scaled` is strictly increasing.
Rounding and comparison therefore need no other arithmetic than that of the natural numbers.
-/

namespace DecisionTables

/-- A finite binary64 number.  Both zeros are present and differ in their sign. -/
structure Binary64 where
  negative : Bool
  magnitude : Nat
  magnitude_lt : magnitude < 0x7FF0000000000000
deriving DecidableEq

namespace Binary64

/-- The value of a magnitude, in units of `2 ^ -1074`. -/
def scaled (magnitude : Nat) : Nat :=
  if magnitude < 1 <<< 52 then magnitude
  else (1 <<< 52 + magnitude % 1 <<< 52) <<< (magnitude >>> 52 - 1)

/-- The greatest magnitude whose scaled value is at most `value`. -/
def floorMagnitude (value : Nat) : Nat :=
  let shift := value.log2 - 52
  shift <<< 52 + value >>> shift

/--
The magnitude nearest to the quotient of two natural numbers, a tie going to the even one.  The
result may lie beyond the greatest finite magnitude.
-/
def nearestMagnitude (numerator denominator : Nat) : Nat :=
  let value := numerator <<< 1074
  let below := floorMagnitude (value / denominator)
  match compare (2 * value) ((scaled below + scaled (below + 1)) * denominator) with
  | .lt => below
  | .gt => below + 1
  | .eq => if below % 2 = 0 then below else below + 1

def ofMagnitude? (negative : Bool) (magnitude : Nat) : Option Binary64 :=
  if h : magnitude < 0x7FF0000000000000 then some ⟨negative, magnitude, h⟩ else none

/-- The finite number nearest to a signed quotient, unless it rounds beyond the finite range. -/
def nearest? (negative : Bool) (numerator denominator : Nat) : Option Binary64 :=
  ofMagnitude? negative (nearestMagnitude numerator denominator)

def zero (negative : Bool) : Binary64 :=
  ⟨negative, 0, by decide⟩

def greatest (negative : Bool) : Binary64 :=
  ⟨negative, 0x7FEFFFFFFFFFFFFF, by decide⟩

/-- The number nearest to an integer; integers beyond the finite range go to the greatest number. -/
def ofInt (n : Int) : Binary64 :=
  (nearest? (n < 0) n.natAbs 1).getD (greatest (n < 0))

/-- The position of a number in the order of values.  Both zeros have the same position. -/
def rank (x : Binary64) : Int :=
  if x.negative then -(x.magnitude : Int) else x.magnitude

def order (x y : Binary64) : Ordering :=
  compare x.rank y.rank

def sameValue (x y : Binary64) : Bool :=
  x.rank == y.rank

def bits (x : Binary64) : Nat :=
  (if x.negative then 1 <<< 63 else 0) + x.magnitude

def toInt? (x : Binary64) : Option Int :=
  if scaled x.magnitude % 1 <<< 1074 = 0 then
    let whole : Int := (scaled x.magnitude >>> 1074 : Nat)
    some (if x.negative then -whole else whole)
  else none

end Binary64

end DecisionTables
