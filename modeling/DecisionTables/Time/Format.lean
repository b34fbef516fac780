import DecisionTables.Number.Written
import DecisionTables.Time.Moment

/-!
# Time formats

A time format is text with directives, each a percent sign and a letter, that stand for fields of a
moment in universal time.  Between the two, `-`, `_` or `0` drops the padding of a number or pads it
with blanks or zeros; no other directive accepts them.  A directive that does not exist makes the
whole format invalid.
-/

namespace DecisionTables.TimeFormat

inductive Padding where
  | none
  | blanks
  | zeros
deriving DecidableEq

/-- A number with the padding and the width that it has by default. -/
structure NumericField where
  value : Int
  width : Nat
  padding : Padding := .zeros

def pad (padding : Padding) (width : Nat) (cs : List Char) : List Char :=
  match padding with
  | .none => cs
  | .blanks => List.replicate (width - cs.length) ' ' ++ cs
  | .zeros => List.replicate (width - cs.length) '0' ++ cs

def NumericField.text (field : NumericField) (override : Option Padding) : List Char :=
  pad (override.getD field.padding) field.width (integerText field.value)

def monthNames : List String :=
  ["January", "February", "March", "April", "May", "June", "July", "August", "September",
    "October", "November", "December"]

def weekdayNames : List String :=
  ["Sunday", "Monday", "Tuesday", "Wednesday", "Thursday", "Friday", "Saturday"]

def monthName (moment : Moment) : List Char :=
  (monthNames.getD (moment.date.month - 1) "").toList

def weekdayName (moment : Moment) : List Char :=
  (weekdayNames.getD moment.weekday "").toList

def twelveHour (moment : Moment) : Nat :=
  if moment.hour % 12 = 0 then 12 else moment.hour % 12

def numericField? (moment : Moment) (letter : Char) : Option NumericField :=
  let date := moment.date
  match letter with
  | 'Y' => some ⟨date.year, 4, .zeros⟩
  | 'C' => some ⟨date.year / 100, 2, .zeros⟩
  | 'y' => some ⟨date.year % 100, 2, .zeros⟩
  | 'm' => some ⟨date.month, 2, .zeros⟩
  | 'd' => some ⟨date.day, 2, .zeros⟩
  | 'e' => some ⟨date.day, 2, .blanks⟩
  | 'w' => some ⟨moment.weekday, 1, .zeros⟩
  | 'u' => some ⟨(moment.weekday + 6) % 7 + 1, 1, .zeros⟩
  | 'U' => some ⟨(date.dayOfYear + 6 - moment.weekday) / 7, 2, .zeros⟩
  | 'W' => some ⟨(date.dayOfYear + 6 - (moment.weekday + 6) % 7) / 7, 2, .zeros⟩
  | 'G' => some ⟨moment.weekDate.1, 4, .zeros⟩
  | 'g' => some ⟨moment.weekDate.1 % 100, 2, .zeros⟩
  | 'V' => some ⟨moment.weekDate.2, 2, .zeros⟩
  | 'j' => some ⟨date.dayOfYear, 3, .zeros⟩
  | 'q' => some ⟨(date.month - 1) / 3 + 1, 1, .zeros⟩
  | 'H' => some ⟨moment.hour, 2, .zeros⟩
  | 'k' => some ⟨moment.hour, 2, .blanks⟩
  | 'I' => some ⟨twelveHour moment, 2, .zeros⟩
  | 'l' => some ⟨twelveHour moment, 2, .blanks⟩
  | 'M' => some ⟨moment.minute, 2, .zeros⟩
  | 'S' => some ⟨moment.second, 2, .zeros⟩
  | 'f' => some ⟨moment.nanoseconds, 9, .zeros⟩
  | 's' => some ⟨moment.seconds, 1, .zeros⟩
  | _ => none

def fraction (moment : Moment) (places : Nat) : List Char :=
  (pad .zeros 9 (Nat.toDigits 10 moment.nanoseconds)).take places

/-- The fraction of a second with a point, in the fewest groups of three digits that hold it. -/
def pointFraction (moment : Moment) : List Char :=
  if moment.nanoseconds = 0 then []
  else if moment.nanoseconds % 1000000 = 0 then '.' :: fraction moment 3
  else if moment.nanoseconds % 1000 = 0 then '.' :: fraction moment 6
  else '.' :: fraction moment 9

def textField? (moment : Moment) (letter : Char) : Option (List Char) :=
  match letter with
  | 'B' => some (monthName moment)
  | 'b' => some ((monthName moment).take 3)
  | 'h' => some ((monthName moment).take 3)
  | 'A' => some (weekdayName moment)
  | 'a' => some ((weekdayName moment).take 3)
  | 'P' => some (if moment.hour < 12 then ['a', 'm'] else ['p', 'm'])
  | 'p' => some (if moment.hour < 12 then ['A', 'M'] else ['P', 'M'])
  | 'Z' => some ['U', 'T', 'C']
  | 'z' => some ['+', '0', '0', '0', '0']
  | 't' => some ['\t']
  | 'n' => some ['\n']
  | '%' => some ['%']
  | _ => none

def compound? (letter : Char) : Option String :=
  match letter with
  | 'D' => some "%m/%d/%y"
  | 'x' => some "%m/%d/%y"
  | 'F' => some "%Y-%m-%d"
  | 'v' => some "%e-%b-%Y"
  | 'R' => some "%H:%M"
  | 'T' => some "%H:%M:%S"
  | 'X' => some "%H:%M:%S"
  | 'r' => some "%I:%M:%S %p"
  | 'c' => some "%a %b %e %H:%M:%S %Y"
  | _ => none

def simpleField? (moment : Moment) (override : Option Padding) (letter : Char) :
    Option (List Char) :=
  match numericField? moment letter with
  | some field => some (field.text override)
  | none => if override.isSome then none else textField? moment letter

def expand? (moment : Moment) : List Char → Option (List Char)
  | [] => some []
  | '%' :: '-' :: letter :: rest => do
    return (← simpleField? moment (some .none) letter) ++ (← expand? moment rest)
  | '%' :: '_' :: letter :: rest => do
    return (← simpleField? moment (some .blanks) letter) ++ (← expand? moment rest)
  | '%' :: '0' :: letter :: rest => do
    return (← simpleField? moment (some .zeros) letter) ++ (← expand? moment rest)
  | '%' :: ':' :: ':' :: ':' :: 'z' :: rest => do
    return ['+', '0', '0'] ++ (← expand? moment rest)
  | '%' :: ':' :: ':' :: 'z' :: rest => do
    return ['+', '0', '0', ':', '0', '0', ':', '0', '0'] ++ (← expand? moment rest)
  | '%' :: ':' :: 'z' :: rest => do
    return ['+', '0', '0', ':', '0', '0'] ++ (← expand? moment rest)
  | '%' :: '.' :: 'f' :: rest => do
    return pointFraction moment ++ (← expand? moment rest)
  | '%' :: '.' :: digit :: 'f' :: rest => do
    if digit = '3' ∨ digit = '6' ∨ digit = '9' then
      return '.' :: fraction moment (digit.toNat - '0'.toNat) ++ (← expand? moment rest)
    else none
  | '%' :: digit :: 'f' :: rest => do
    if digit = '3' ∨ digit = '6' ∨ digit = '9' then
      return fraction moment (digit.toNat - '0'.toNat) ++ (← expand? moment rest)
    else
      return (← simpleField? moment none digit) ++ (← expand? moment ('f' :: rest))
  | '%' :: letter :: rest => do
    return (← simpleField? moment none letter) ++ (← expand? moment rest)
  | '%' :: [] => none
  | c :: rest => do
    return c :: (← expand? moment rest)

def withoutCompounds : List Char → List Char
  | [] => []
  | '%' :: '+' :: rest => "%Y-%m-%dT%H:%M:%S%.f%:z".toList ++ withoutCompounds rest
  | '%' :: letter :: rest =>
    match compound? letter with
    | some format => format.toList ++ withoutCompounds rest
    | none => '%' :: letter :: withoutCompounds rest
  | c :: rest => c :: withoutCompounds rest

def format? (moment : Moment) (format : String) : Option String :=
  (expand? moment (withoutCompounds format.toList)).map String.ofList

/-- The date, the time and the offset of a moment, as timestamps are written by default. -/
def timestamp (moment : Moment) : String :=
  (format? moment "%+").getD ""

end DecisionTables.TimeFormat
