import DecisionTables.Json.Printer

/-!
# Table definitions

A definition says where the rows of a table are, which inputs are taken from each row and which
outputs are written to it, and by which rules.  Everything in it is plain data: paths, criteria and
results are checked only when the definition is compiled.
-/

namespace DecisionTables

inductive MatchMode where
  | firstMatch
  | allMatches
  /-- The matching rule with the most conditions, the first of them at a tie. -/
  | bestMatch
deriving DecidableEq

/-- How values for one output are combined when several rules contribute one. -/
inductive ConflictPolicy where
  | priority
  | merge
  | lastWins
deriving DecidableEq

inductive InputType where
  | number
  | string
  | boolean
deriving DecidableEq

structure InputField where
  name : String
  path : String
  type : Option InputType
deriving DecidableEq

structure OutputField where
  name : String
  path : String
deriving DecidableEq

structure RuleEntry where
  /-- Lower values come first. -/
  priority : Int64
  /-- The criteria by the names of their inputs. -/
  conditions : KeyMap Json
  /-- The results by the names of their outputs. -/
  results : KeyMap Json

structure Strategy where
  mode : MatchMode
  conflict : ConflictPolicy
  stopOnError : Bool
deriving DecidableEq

structure Definition where
  path : String
  inputs : List InputField
  outputs : List OutputField
  rules : List RuleEntry
  defaults : Option (KeyMap Json)
  strategy : Strategy

namespace MatchMode

def name : MatchMode → String
  | firstMatch => "firstMatch"
  | allMatches => "allMatches"
  | bestMatch => "bestMatch"

def ofName? (name : String) : Option MatchMode :=
  [firstMatch, allMatches, bestMatch].find? (·.name == name)

end MatchMode

namespace ConflictPolicy

def name : ConflictPolicy → String
  | priority => "priority"
  | merge => "merge"
  | lastWins => "lastWins"

def ofName? (name : String) : Option ConflictPolicy :=
  [priority, merge, lastWins].find? (·.name == name)

end ConflictPolicy

namespace InputType

def name : InputType → String
  | number => "number"
  | string => "string"
  | boolean => "boolean"

/-- The type of a name.  Truth values have a second, shorter name. -/
def ofName? (name : String) : Option InputType :=
  if name = "bool" then some boolean else [number, string, boolean].find? (·.name == name)

/--
Converts a value to the type where its own type leaves that open: text that stands for a number or a
truth value, and scalars that are to be text.  Any other value stays as it is.
-/
def apply (type : InputType) (value : Json) : Json :=
  match type, value with
  | number, .string text =>
    match readNumber? text.toList with
    | some n => .number (.ofBinary64 n)
    | none => .string text
  | string, .number n => .string (String.ofList n.text)
  | string, .bool b => .string (if b then "true" else "false")
  | boolean, .string text =>
    let folded := (String.ofList (Text.trim text.toList)).map Char.toLower
    if folded = "true" then .bool true
    else if folded = "false" then .bool false
    else .string text
  | _, value => value

end InputType

/-- The name given by a value: as text, or as the only key of an object that holds null. -/
def enumerationName? : Json → Option String
  | .string name => some name
  | .object [(name, .null)] => some name
  | _ => none

/-- The choice that a value names. -/
def choice? {α : Type} (ofName? : String → Option α) (value : Json) : Option α :=
  (enumerationName? value).bind ofName?

@[simp] theorem choice?_string {α : Type} (ofName? : String → Option α) (name : String) :
    choice? ofName? (.string name) = ofName? name :=
  rfl

namespace Strategy

def standard : Strategy :=
  ⟨.firstMatch, .priority, false⟩

end Strategy

namespace RuleEntry

def blank : RuleEntry :=
  ⟨0, .empty, .empty⟩

end RuleEntry

namespace Definition

def blank (path : String) : Definition :=
  ⟨path, [], [], [], none, .standard⟩

end Definition

end DecisionTables
