import DecisionTables.Json.Basic

/-!
# JSON text

The compact text of a value: no blanks, members in the order of their entries.  Only quotes,
backslashes and the control characters below `U+0020` are escaped.

The text form of a value is what criteria compare by: strings stand for themselves, null has no
text, and everything else is its compact text.
-/

namespace DecisionTables.Json

def hexDigit (n : Nat) : Char :=
  if n < 10 then Char.ofNat ('0'.toNat + n) else Char.ofNat ('a'.toNat + (n - 10))

def escapeChar (c : Char) : List Char :=
  if c = '"' then ['\\', '"']
  else if c = '\\' then ['\\', '\\']
  else if c = '\x08' then ['\\', 'b']
  else if c = '\x0c' then ['\\', 'f']
  else if c = '\n' then ['\\', 'n']
  else if c = '\x0d' then ['\\', 'r']
  else if c = '\t' then ['\\', 't']
  else if c.toNat < 32 then ['\\', 'u', '0', '0', hexDigit (c.toNat / 16), hexDigit (c.toNat % 16)]
  else [c]

def quote (cs : List Char) : List Char :=
  '"' :: cs.flatMap escapeChar ++ ['"']

mutual

def chars : Json → List Char
  | null => ['n', 'u', 'l', 'l']
  | bool true => ['t', 'r', 'u', 'e']
  | bool false => ['f', 'a', 'l', 's', 'e']
  | number n => n.text
  | string s => quote s.toList
  | array items => '[' :: itemChars items ++ [']']
  | object members => '\x7b' :: memberChars members ++ ['\x7d']

def itemChars : List Json → List Char
  | [] => []
  | [item] => item.chars
  | item :: rest => item.chars ++ ',' :: itemChars rest

def memberChars : List (String × Json) → List Char
  | [] => []
  | [(key, value)] => quote key.toList ++ ':' :: value.chars
  | (key, value) :: rest => quote key.toList ++ ':' :: value.chars ++ ',' :: memberChars rest

end

def text (value : Json) : String :=
  String.ofList value.chars

/-- The text that criteria compare a value by. -/
def textForm? : Json → Option String
  | null => none
  | string s => some s
  | value => some value.text

/-- The number that criteria compare a value by: a number, or a string that stands for one. -/
def asNumber? : Json → Option Binary64
  | number n => some n.toBinary64
  | string s => readNumber? s.toList
  | _ => none

end DecisionTables.Json
