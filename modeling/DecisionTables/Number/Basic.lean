import DecisionTables.Number.Reader
import DecisionTables.Number.Written

/-!
# Numbers

A number of a document is an integer of at most sixty-four bits, signed or unsigned, or a finite
binary64 number.  The two kinds are compared as binary64 numbers, yet as parts of a document an
integer and a binary64 number are never the same.
-/

namespace DecisionTables

inductive Number where
  | integer (value : Int) (lower : -9223372036854775808 ≤ value)
      (upper : value ≤ 18446744073709551615)
  | float (value : Binary64)
deriving DecidableEq

namespace Number

def ofInt? (n : Int) : Option Number :=
  if h : -9223372036854775808 ≤ n ∧ n ≤ 18446744073709551615 then some (.integer n h.1 h.2)
  else none

def ofInt64 (n : Int64) : Number :=
  .integer n.toInt (by have := n.le_toInt; omega) (by have := n.toInt_lt; omega)

def toBinary64 : Number → Binary64
  | integer n _ _ => .ofInt n
  | float x => x

/--
The integer equal to a binary64 number where there is one from `-2 ^ 63` to `2 ^ 63`, and otherwise
the binary64 number itself.  The upper end is no signed word and becomes the greatest one.
-/
def ofBinary64 (x : Binary64) : Number :=
  match x.toInt? with
  | some n =>
    if h : -9223372036854775808 ≤ n ∧ n ≤ 9223372036854775808 then
      .integer (min n 9223372036854775807) (by omega) (by omega)
    else .float x
  | none => .float x

/-- The equality of numbers as parts of a document: of one kind and of one value. -/
def same : Number → Number → Bool
  | integer m _ _, integer n _ _ => m == n
  | float x, float y => x.sameValue y
  | _, _ => false

def text : Number → List Char
  | integer n _ _ => integerText n
  | float x => x.text

end Number

end DecisionTables
