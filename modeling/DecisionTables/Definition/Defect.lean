import DecisionTables.Call.Result
import DecisionTables.Text.Quoting

/-!
# Defects of a definition

Everything that can be wrong with a definition: the shape of its JSON form, its names and paths, and
the references and calls of its rules.  Reading and compiling collect all defects they find, in the
order of the definition.
-/

namespace DecisionTables

/-- The part of a definition that a defect is in.  Entries are numbered from one. -/
inductive Place where
  | table
  | decisionTable
  | input (number : Nat)
  | output (number : Nat)
  | namedOutput (name : String)
  | rule (number : Nat)
  | defaultResults
  | executionStrategy
deriving DecidableEq

def Place.label : Place → String
  | table => "table"
  | decisionTable => "decisionTable"
  | input number => s!"input #{number}"
  | output number => s!"output #{number}"
  | namedOutput name => s!"output '{name}'"
  | rule number => s!"rule #{number}"
  | defaultResults => "defaultResults"
  | executionStrategy => "executionStrategy"

inductive Shape where
  | text
  | truth
  | integer
  | list
  | map
deriving DecidableEq

def Shape.label : Shape → String
  | text => "a string"
  | truth => "a boolean"
  | integer => "i64"
  | list => "a sequence"
  | map => "a map"

inductive FieldFault where
  | wrongType (found : Json) (expected : Shape)
  | outOfRange (found : Int) (expected : Shape)

def describeValue : Json → String
  | .null => "null"
  | .bool b => if b then "boolean `true`" else "boolean `false`"
  | .number (.integer n _ _) => "integer `" ++ String.ofList (integerText n) ++ "`"
  | .number (.float x) => "floating point `" ++ String.ofList x.text ++ "`"
  | .string s => "string " ++ String.ofList (Text.showQuoted s.toList)
  | .array _ => "sequence"
  | .object _ => "map"

def FieldFault.message : FieldFault → String
  | wrongType found expected =>
    s!"invalid type: {describeValue found}, expected {expected.label}"
  | outOfRange found expected =>
    "invalid value: integer `" ++ String.ofList (integerText found) ++ "`, expected " ++
      expected.label

inductive ResultFault where
  | notACall (error : CallSyntaxError)
  | invalidCall (error : CallError)
deriving DecidableEq

def ResultFault.message : ResultFault → String
  | notACall error => error.message
  | invalidCall error => error.message

inductive NamedChoice where
  | inputType
  | matchMode
  | conflictPolicy
deriving DecidableEq

def NamedChoice.label : NamedChoice → String
  | inputType => "input type"
  | matchMode => "execution mode"
  | conflictPolicy => "conflict resolution"

inductive Defect where
  | missingField (place : Place) (field : String)
  | notAnObject (place : Place) (found : String)
  | invalidField (place : Place) (field : String) (fault : FieldFault)
  | unknownName (choice : NamedChoice) (name : String)
  | duplicateInput (name : String)
  | duplicateOutput (name : String)
  | invalidPath (place : Place) (path : String) (fault : SyntaxFault)
  | wildcardOutput (output path : String)
  | undefinedInput (rule : Nat) (input : String)
  | undefinedOutput (place : Place) (output : String)
  | invalidResult (place : Place) (output : String) (fault : ResultFault)

def Defect.message : Defect → String
  | missingField place field => s!"{place.label} is missing required field '{field}'"
  | notAnObject place found => s!"{place.label} must be an object, found {found}"
  | invalidField place field fault =>
    s!"{place.label} has invalid field '{field}': {fault.message}"
  | unknownName choice name => s!"unknown {choice.label} '{name}'"
  | duplicateInput name => s!"duplicate input name '{name}'"
  | duplicateOutput name => s!"duplicate output name '{name}'"
  | invalidPath place path fault =>
    s!"{place.label} has invalid path '{path}': {fault.message}"
  | wildcardOutput output path => s!"output '{output}' path '{path}' must not contain wildcards"
  | undefinedInput rule input => s!"rule #{rule} has a condition on undefined input '{input}'"
  | undefinedOutput place output => s!"{place.label} sets undefined output '{output}'"
  | invalidResult place output fault =>
    s!"{place.label} result for '{output}' is invalid: {fault.message}"

def defectsMessage (defects : List Defect) : String :=
  "invalid decision table: " ++ Text.join "; " (defects.map Defect.message)

/-- What was read or compiled, as far as possible, with the defects found on the way. -/
structure Reading (α : Type) where
  value : α
  defects : List Defect

namespace Reading

instance : Monad Reading where
  pure value := ⟨value, []⟩
  bind first next :=
    let second := next first.value
    ⟨second.value, first.defects ++ second.defects⟩

def report {α : Type} (defect : Defect) (value : α) : Reading α :=
  ⟨value, [defect]⟩

def all {α : Type} (readings : List (Reading α)) : Reading (List α) :=
  ⟨readings.map value, readings.flatMap defects⟩

end Reading

end DecisionTables
