import DecisionTables.Text.Basic
import DecisionTables.Number.Decimal

/-!
# Numbers in text

Text counts as a number when, blanks around it aside, it is a decimal with an optional sign, an
optional fraction and an optional exponent, and its value is finite.  Digits may be missing on one
side of the point, but not on both.
-/

namespace DecisionTables

def readDigits? (cs : List Char) : Option Nat :=
  if cs ≠ [] ∧ cs.all Char.isDigit then some (Nat.ofDigitChars 10 cs 0) else none

/-- The exponent written at the end of a number, zero when there is none. -/
def readExponent? : List Char → Option Int
  | [] => some 0
  | mark :: rest =>
    if mark = 'e' ∨ mark = 'E' then
      match rest with
      | '-' :: digits => (readDigits? digits).map fun n => -(n : Int)
      | '+' :: digits => (readDigits? digits).map Int.ofNat
      | digits => (readDigits? digits).map Int.ofNat
    else none

def readFraction (cs : List Char) : List Char × List Char :=
  match cs with
  | '.' :: rest => (rest.takeWhile Char.isDigit, rest.dropWhile Char.isDigit)
  | rest => ([], rest)

def readUnsigned? (cs : List Char) : Option Decimal :=
  let whole := cs.takeWhile Char.isDigit
  let (fraction, rest) := readFraction (cs.dropWhile Char.isDigit)
  if whole = [] ∧ fraction = [] then none
  else (readExponent? rest).map (Decimal.ofDigits whole fraction)

def readNumber? (cs : List Char) : Option Binary64 :=
  match Text.trim cs with
  | '-' :: rest => (readUnsigned? rest).bind (Decimal.toBinary64? true)
  | '+' :: rest => (readUnsigned? rest).bind (Decimal.toBinary64? false)
  | rest => (readUnsigned? rest).bind (Decimal.toBinary64? false)

end DecisionTables
