import DecisionTables.Call.Reader

/-!
# Result values

The value that a rule gives to an output is fixed, or computed by a call for every row.  Text that
looks like a call is one; a text that is to start with a mark of its own is written with two.
-/

namespace DecisionTables

inductive ResultValue where
  | fixed (value : Json)
  | computed (source : String) (call : Call)

/-- Whether a text starts with a mark, a word and an opening parenthesis. -/
def looksLikeCall (cs : List Char) : Bool :=
  match cs with
  | '#' :: rest =>
    let name := rest.takeWhile Call.isNameChar
    let afterName := Text.trimStart (rest.dropWhile Call.isNameChar)
    !name.isEmpty && afterName.head? == some '('
  | _ => false

namespace ResultValue

def ofJson (value : Json) : Except CallSyntaxError ResultValue :=
  match value with
  | .string text =>
    match text.toList with
    | '#' :: '#' :: rest => .ok (fixed (.string (String.ofList ('#' :: rest))))
    | cs => if looksLikeCall cs then (Call.parse text).map (computed text) else .ok (fixed value)
  | _ => .ok (fixed value)

def toJson : ResultValue → Json
  | fixed (.string text) =>
    match text.toList with
    | '#' :: _ => .string ("#" ++ text)
    | _ => .string text
  | fixed value => value
  | computed source _ => .string source

def call? : ResultValue → Option Call
  | fixed _ => none
  | computed _ c => some c

def evaluate (registry : Registry) (context : Context) : ResultValue → Except CallError Json
  | fixed value => .ok value
  | computed _ c => c.evaluate registry context

def display : ResultValue → String
  | fixed value => value.text
  | computed source _ => source

end ResultValue

end DecisionTables
