import DecisionTables.Number.Binary64

/-!
# Words scaled by a power of ten

A decimal with many digits may be kept as a word of sixty-four bits, which holds as many of the
leading digits as fit, and a power of ten.  Its binary64 number is then computed in binary64
arithmetic: the word is rounded, and the result is multiplied or divided by the power of ten, which
is rounded as well, and rounded again.  What comes out may therefore differ in its last bits from
the binary64 number nearest to the decimal.
-/

namespace DecisionTables

namespace Binary64

def times? (x y : Binary64) : Option Binary64 :=
  nearest? (x.negative != y.negative) (scaled x.magnitude * scaled y.magnitude) (1 <<< 2148)

def over? (x y : Binary64) : Option Binary64 :=
  nearest? (x.negative != y.negative) (scaled x.magnitude) (scaled y.magnitude)

/-- The rounded power of ten.  The greatest finite one is `10 ^ 308`. -/
def powerOfTen? (n : Nat) : Option Binary64 :=
  if n ≤ 308 then nearest? false (Nat.pow 10 n) 1 else none

end Binary64

structure Word where
  value : Nat
  value_lt : value < UInt64.size
deriving DecidableEq

namespace Word

def zero : Word :=
  ⟨0, by decide⟩

def push? (word : Word) (digit : Char) : Option Word :=
  let value := Nat.ofDigitChars 10 [digit] word.value
  if h : value < UInt64.size then some ⟨value, h⟩ else none

/-- The word with digits at its end as long as it has room for them, and the digits left over. -/
def append (word : Word) : List Char → Word × List Char
  | [] => (word, [])
  | digit :: digits =>
    match word.push? digit with
    | some longer => longer.append digits
    | none => (word, digit :: digits)

end Word

structure ScaledWord where
  word : Word
  exponent : Int
deriving DecidableEq

namespace ScaledWord

/--
The leading ones of the digits before and after a point, scaled by a power of ten.  Digits before
the point that the word has no room for are replaced by zeros, and those after it are dropped.  A
digit before the point may be too great for the word where a smaller one after it still fits.
-/
def ofDigits (whole fraction : List Char) (exponent : Int) : ScaledWord :=
  let (word, replaced) := Word.zero.append whole
  let (word, dropped) := word.append fraction
  ⟨word, exponent + replaced.length - (fraction.length - dropped.length : Nat)⟩

/--
The number computed step by step, unless it leaves the finite range.  Division takes two powers of
ten if one is not enough; after two divisions by `10 ^ 308` every word has become zero.
-/
def toBinary64? (negative : Bool) (s : ScaledWord) : Option Binary64 :=
  if s.word.value = 0 then some (.zero negative)
  else do
    let x ← Binary64.nearest? negative s.word.value 1
    if 0 ≤ s.exponent then
      x.times? (← Binary64.powerOfTen? s.exponent.toNat)
    else
      let places := (-s.exponent).toNat
      let quotient ← x.over? (← Binary64.powerOfTen? (min places 308))
      quotient.over? (← Binary64.powerOfTen? (min (places - 308) 308))

end ScaledWord

end DecisionTables
