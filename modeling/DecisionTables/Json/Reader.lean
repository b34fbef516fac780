import DecisionTables.Json.Basic
import DecisionTables.Number.ScaledWord
import DecisionTables.Text.Basic

/-!
# Reading JSON text

Text is read from left to right and the first fault decides: either the text ended where more was
needed, or it is malformed.  Values nest at most 127 levels deep, numbers must be finite, escapes of
surrogates must come in pairs, and among members with the same key the last one counts.

Every reader returns what it read together with the rest of the text, which is shorter than the
text it was given.
-/

namespace DecisionTables.Json

open Text (Rest length_dropWhile_le utf8Length)

inductive ReadFault where
  | ended
  | malformed
deriving DecidableEq

def isSpace (c : Char) : Bool :=
  c = ' ' || c = '\n' || c = '\t' || c = '\x0d'

def skipSpace (cs : List Char) : List Char :=
  cs.dropWhile isSpace

theorem length_skipSpace_le (cs : List Char) : (skipSpace cs).length ≤ cs.length :=
  Text.length_dropWhile_le isSpace cs

def readWord : (word : List Char) → List Char → Except ReadFault (List Char)
  | [], cs => .ok cs
  | _ :: _, [] => .error .ended
  | w :: word, c :: cs => if w = c then readWord word cs else .error .malformed

theorem length_readWord_le {word cs rest : List Char} (h : readWord word cs = .ok rest) :
    rest.length ≤ cs.length := by
  induction word generalizing cs with
  | nil =>
    simp only [readWord, Except.ok.injEq] at h
    simp [h]
  | cons w word ih =>
    cases cs with
    | nil => simp [readWord] at h
    | cons c cs =>
      simp only [readWord] at h
      split at h
      · have := ih h
        simp only [List.length_cons]
        omega
      · simp at h

/-! ## Numbers -/

def readDigits (cs : List Char) : Except ReadFault (List Char × Rest cs) :=
  match cs with
  | [] => .error .ended
  | c :: rest =>
    if c.isDigit then
      .ok (c :: rest.takeWhile Char.isDigit,
        ⟨rest.dropWhile Char.isDigit, Nat.lt_succ_of_le (length_dropWhile_le _ _)⟩)
    else .error .malformed

/-- The digits before the point, which start with a zero only if they are a single zero. -/
def readWhole (cs : List Char) : Except ReadFault (List Char × Rest cs) := do
  let (digits, rest) ← readDigits cs
  if digits.head? = some '0' ∧ digits.length ≠ 1 then .error .malformed
  else .ok (digits, rest)

structure NumberTail where
  fraction : Option (List Char)
  exponent : Option Int

def readNumberExponent (cs : List Char) :
    Except ReadFault (Option Int × { rest : List Char // rest.length ≤ cs.length }) :=
  match cs with
  | mark :: rest =>
    if mark = 'e' ∨ mark = 'E' then
      match rest with
      | '-' :: rest => do
        let (digits, ⟨after, h⟩) ← readDigits rest
        return (some (-(Nat.ofDigitChars 10 digits 0 : Int)),
          ⟨after, Nat.le_succ_of_le (Nat.le_succ_of_le (Nat.le_of_lt h))⟩)
      | '+' :: rest => do
        let (digits, ⟨after, h⟩) ← readDigits rest
        return (some (Nat.ofDigitChars 10 digits 0 : Nat),
          ⟨after, Nat.le_succ_of_le (Nat.le_succ_of_le (Nat.le_of_lt h))⟩)
      | rest => do
        let (digits, ⟨after, h⟩) ← readDigits rest
        return (some (Nat.ofDigitChars 10 digits 0 : Nat),
          ⟨after, Nat.le_succ_of_le (Nat.le_of_lt h)⟩)
    else .ok (none, ⟨mark :: rest, Nat.le_refl _⟩)
  | [] => .ok (none, ⟨[], Nat.le_refl _⟩)

def readNumberTail (cs : List Char) :
    Except ReadFault (NumberTail × { rest : List Char // rest.length ≤ cs.length }) :=
  match cs with
  | '.' :: rest => do
    let (fraction, ⟨afterFraction, hfraction⟩) ← readDigits rest
    let (exponent, ⟨after, h⟩) ← readNumberExponent afterFraction
    return (⟨some fraction, exponent⟩, ⟨after, by simp only [List.length_cons]; omega⟩)
  | rest => do
    let (exponent, after) ← readNumberExponent rest
    return (⟨none, exponent⟩, after)

/--
The number written by its parts.  Without a fraction and an exponent it is an integer, provided
that it fits; a negative zero is a binary64 number.  Binary64 numbers are computed from the leading
digits in binary64 arithmetic, so the last bits of one with many digits may not be the nearest.
-/
def numberOfParts? (negative : Bool) (whole : List Char) (tail : NumberTail) : Option Number :=
  let scaled := ScaledWord.ofDigits whole (tail.fraction.getD []) (tail.exponent.getD 0)
  let float := (scaled.toBinary64? negative).map Number.float
  if tail.fraction.isSome ∨ tail.exponent.isSome then float
  else
    let magnitude : Int := Nat.ofDigitChars 10 whole 0
    if negative then
      if magnitude ≠ 0 ∧ magnitude ≤ 9223372036854775808 then Number.ofInt? (-magnitude)
      else float
    else if magnitude ≤ 18446744073709551615 then Number.ofInt? magnitude
    else float

def readUnsignedNumber (negative : Bool) (cs : List Char) :
    Except ReadFault (Number × Rest cs) := do
  let (whole, ⟨afterWhole, hwhole⟩) ← readWhole cs
  let (tail, ⟨rest, h⟩) ← readNumberTail afterWhole
  match numberOfParts? negative whole tail with
  | some n => .ok (n, ⟨rest, by omega⟩)
  | none => .error .malformed

/-! ## Strings -/

def hexValue? (c : Char) : Option Nat :=
  if '0' ≤ c ∧ c ≤ '9' then some (c.toNat - '0'.toNat)
  else if 'a' ≤ c ∧ c ≤ 'f' then some (c.toNat - 'a'.toNat + 10)
  else if 'A' ≤ c ∧ c ≤ 'F' then some (c.toNat - 'A'.toNat + 10)
  else none

/-- Four hexadecimal digits.  The text has ended if fewer than four bytes of it are left. -/
def readHex (cs : List Char) : Except ReadFault (Nat × Rest cs) :=
  let fault : ReadFault := if utf8Length cs < 4 then .ended else .malformed
  match cs with
  | a :: b :: c :: d :: rest =>
    match hexValue? a, hexValue? b, hexValue? c, hexValue? d with
    | some a, some b, some c, some d =>
      .ok (((a * 16 + b) * 16 + c) * 16 + d, ⟨rest, by simp only [List.length_cons]; omega⟩)
    | _, _, _, _ => .error fault
  | _ => .error fault

/-- The character named by the hexadecimal digits after an escape mark. -/
def readCodeUnit (cs : List Char) : Except ReadFault (Char × Rest cs) := do
  let (first, ⟨rest, h⟩) ← readHex cs
  if 0xDC00 ≤ first ∧ first ≤ 0xDFFF then .error .malformed
  else if first < 0xD800 ∨ 0xDBFF < first then .ok (Char.ofNat first, ⟨rest, h⟩)
  else
    match rest, h with
    | [], _ => .error .ended
    | '\\' :: [], _ => .error .ended
    | '\\' :: 'u' :: rest, h => do
      let (second, ⟨after, hafter⟩) ← readHex rest
      if second < 0xDC00 ∨ 0xDFFF < second then .error .malformed
      else
        .ok (Char.ofNat (0x10000 + (first - 0xD800) * 0x400 + (second - 0xDC00)),
          ⟨after, by simp only [List.length_cons] at h; omega⟩)
    | _, _ => .error .malformed

/-- The character named by an escape, whose backslash has been read. -/
def readEscape (cs : List Char) : Except ReadFault (Char × Rest cs) :=
  match cs with
  | [] => .error .ended
  | mark :: rest =>
    let plain (c : Char) : Except ReadFault (Char × Rest (mark :: rest)) :=
      .ok (c, ⟨rest, by simp only [List.length_cons]; omega⟩)
    if mark = '"' ∨ mark = '\\' ∨ mark = '/' then plain mark
    else if mark = 'b' then plain '\x08'
    else if mark = 'f' then plain '\x0c'
    else if mark = 'n' then plain '\n'
    else if mark = 'r' then plain '\x0d'
    else if mark = 't' then plain '\t'
    else if mark = 'u' then do
      let (c, ⟨after, h⟩) ← readCodeUnit rest
      return (c, ⟨after, by simp only [List.length_cons]; omega⟩)
    else .error .malformed

/-- The characters of a string whose opening quote has been read. -/
def readString (cs : List Char) : Except ReadFault (List Char × Rest cs) :=
  match cs with
  | [] => .error .ended
  | c :: rest =>
    if c = '"' then .ok ([], ⟨rest, by simp only [List.length_cons]; omega⟩)
    else if c = '\\' then do
      let (escaped, ⟨rest, h⟩) ← readEscape rest
      let (tail, ⟨after, hafter⟩) ← readString rest
      return (escaped :: tail, ⟨after, by simp only [List.length_cons]; omega⟩)
    else if c.toNat < 32 then .error .malformed
    else do
      let (tail, ⟨after, hafter⟩) ← readString rest
      return (c :: tail, ⟨after, by simp only [List.length_cons]; omega⟩)
termination_by cs.length

/-! ## Values -/

def next? (cs : List Char) : Option (Char × Rest cs) :=
  match h : skipSpace cs with
  | [] => none
  | c :: rest =>
    some (c, ⟨rest, by
      have := length_skipSpace_le cs
      rw [h, List.length_cons] at this
      omega⟩)

def readKey (cs : List Char) : Except ReadFault (String × Rest cs) :=
  match next? cs with
  | none => .error .ended
  | some (c, ⟨rest, hrest⟩) =>
    if c = '"' then do
      let (chars, ⟨afterString, h⟩) ← readString rest
      match next? afterString with
      | none => .error .ended
      | some (colon, ⟨after, hafter⟩) =>
        if colon = ':' then .ok (String.ofList chars, ⟨after, by omega⟩) else .error .malformed
    else .error .malformed

/-- A value that is a word, whose first character has been read. -/
def readWordValue (word : List Char) (value : Json) (cs : List Char) :
    Except ReadFault (Json × { rest : List Char // rest.length ≤ cs.length }) :=
  match h : readWord word cs with
  | .ok rest => .ok (value, ⟨rest, length_readWord_le h⟩)
  | .error fault => .error fault

mutual

/-- A value that nests at most `depth` levels deep. -/
def readValue (depth : Nat) (cs : List Char) : Except ReadFault (Json × Rest cs) :=
  match next? cs with
  | none => .error .ended
  | some (c, ⟨rest, hrest⟩) =>
    if c = 'n' then do
      let (value, ⟨after, h⟩) ← readWordValue ['u', 'l', 'l'] null rest
      return (value, ⟨after, by omega⟩)
    else if c = 't' then do
      let (value, ⟨after, h⟩) ← readWordValue ['r', 'u', 'e'] (bool true) rest
      return (value, ⟨after, by omega⟩)
    else if c = 'f' then do
      let (value, ⟨after, h⟩) ← readWordValue ['a', 'l', 's', 'e'] (bool false) rest
      return (value, ⟨after, by omega⟩)
    else if c = '"' then do
      let (chars, ⟨after, h⟩) ← readString rest
      return (string (String.ofList chars), ⟨after, by omega⟩)
    else if c = '-' then do
      let (n, ⟨after, h⟩) ← readUnsignedNumber true rest
      return (number n, ⟨after, by omega⟩)
    else if c.isDigit then do
      let (n, ⟨after, h⟩) ← readUnsignedNumber false (c :: rest)
      return (number n, ⟨after, by simp only [List.length_cons] at h; omega⟩)
    else if c = '[' then
      if depth = 0 then .error .malformed
      else do
        let (items, ⟨after, h⟩) ← readItems (depth - 1) rest
        return (array items, ⟨after, by omega⟩)
    else if c = '\x7b' then
      if depth = 0 then .error .malformed
      else do
        let (members, ⟨after, h⟩) ← readMembers (depth - 1) rest
        return (ofMembers members, ⟨after, by omega⟩)
    else .error .malformed
termination_by 3 * cs.length

/-- The items of an array whose opening bracket has been read. -/
def readItems (depth : Nat) (cs : List Char) : Except ReadFault (List Json × Rest cs) :=
  match next? cs with
  | some (']', rest) => .ok ([], rest)
  | _ => readMoreItems depth cs
termination_by 3 * cs.length + 2

def readMoreItems (depth : Nat) (cs : List Char) : Except ReadFault (List Json × Rest cs) := do
  let (item, ⟨rest, h⟩) ← readValue depth cs
  match next? rest with
  | none => .error .ended
  | some (c, ⟨after, hafter⟩) =>
    if c = ']' then .ok ([item], ⟨after, by omega⟩)
    else if c = ',' then do
      let (items, ⟨last, hlast⟩) ← readMoreItems depth after
      return (item :: items, ⟨last, by omega⟩)
    else .error .malformed
termination_by 3 * cs.length + 1

/-- The members of an object whose opening brace has been read. -/
def readMembers (depth : Nat) (cs : List Char) :
    Except ReadFault (List (String × Json) × Rest cs) :=
  match next? cs with
  | some ('\x7d', rest) => .ok ([], rest)
  | _ => readMoreMembers depth cs
termination_by 3 * cs.length + 2

def readMoreMembers (depth : Nat) (cs : List Char) :
    Except ReadFault (List (String × Json) × Rest cs) := do
  let (key, ⟨afterKey, hkey⟩) ← readKey cs
  let (value, ⟨rest, h⟩) ← readValue depth afterKey
  match next? rest with
  | none => .error .ended
  | some (c, ⟨after, hafter⟩) =>
    if c = '\x7d' then .ok ([(key, value)], ⟨after, by omega⟩)
    else if c = ',' then do
      let (members, ⟨last, hlast⟩) ← readMoreMembers depth after
      return ((key, value) :: members, ⟨last, by omega⟩)
    else .error .malformed
termination_by 3 * cs.length + 1

end

def read (text : String) : Except ReadFault Json := do
  let (value, ⟨rest, _⟩) ← readValue 127 text.toList
  if skipSpace rest = [] then .ok value else .error .malformed

end DecisionTables.Json
