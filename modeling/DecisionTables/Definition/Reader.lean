import DecisionTables.Definition.Basic
import DecisionTables.Definition.Defect
import DecisionTables.Json.Reader

/-!
# Reading definitions

A definition is read from its JSON form field by field, and every missing field, misplaced value and
unknown name is reported.  Null counts as absent.  Entries without a name or a path are left out;
a defective rule keeps its slot, so that the rules after it keep their numbers.
-/

namespace DecisionTables

namespace Decode

def text : Json → Except FieldFault String
  | .string s => .ok s
  | value => .error (.wrongType value .text)

def truth : Json → Except FieldFault Bool
  | .bool b => .ok b
  | value => .error (.wrongType value .truth)

def integer : Json → Except FieldFault Int64
  | .number (.integer n _ _) =>
    if n < 9223372036854775808 then .ok (Int64.ofInt n) else .error (.outOfRange n .integer)
  | value => .error (.wrongType value .integer)

def list : Json → Except FieldFault (List Json)
  | .array items => .ok items
  | value => .error (.wrongType value .list)

def map : Json → Except FieldFault (KeyMap Json)
  | .object members => .ok (.ofPairs members)
  | value => .error (.wrongType value .map)

def any (value : Json) : Except FieldFault Json :=
  .ok value

end Decode

structure Fields where
  place : Place
  members : List (String × Json)

namespace Fields

def openAt (place : Place) (value : Json) : Reading (Option Fields) :=
  match value with
  | .object members => pure (some ⟨place, members⟩)
  | other => .report (.notAnObject place other.kind) none

/-- The value of a field that is present and not null. -/
def find? (fields : Fields) (field : String) : Option Json :=
  (Entries.get? field fields.members).filter fun value => !value.isNull

def decode {α : Type} (fields : Fields) (field : String) (decoder : Json → Except FieldFault α)
    (value : Json) : Reading (Option α) :=
  match decoder value with
  | .ok decoded => pure (some decoded)
  | .error fault => .report (.invalidField fields.place field fault) none

def optional {α : Type} (fields : Fields) (field : String)
    (decoder : Json → Except FieldFault α) : Reading (Option α) :=
  match fields.find? field with
  | none => pure none
  | some value => fields.decode field decoder value

def required {α : Type} (fields : Fields) (field : String)
    (decoder : Json → Except FieldFault α) : Reading (Option α) :=
  match fields.find? field with
  | none => .report (.missingField fields.place field) none
  | some value => fields.decode field decoder value

end Fields

def readChoice {α : Type} (choice : NamedChoice) (ofName? : String → Option α)
    (name : Option String) : Reading (Option α) :=
  match name with
  | none => pure none
  | some name =>
    match choice? ofName? (.string name) with
    | some chosen => pure (some chosen)
    | none => .report (.unknownName choice name) none

namespace InputField

def read (number : Nat) (value : Json) : Reading (Option InputField) := do
  match ← Fields.openAt (.input number) value with
  | none => return none
  | some fields =>
    let name ← fields.required "name" Decode.text
    let path ← fields.required "path" Decode.text
    let typeName ← fields.optional "type" Decode.text
    let folded := typeName.map fun name => name.map Char.toLower
    let type ← readChoice .inputType InputType.ofName? folded
    match name, path with
    | some name, some path => return some ⟨name, path, type⟩
    | _, _ => return none

end InputField

namespace OutputField

def read (number : Nat) (value : Json) : Reading (Option OutputField) := do
  match ← Fields.openAt (.output number) value with
  | none => return none
  | some fields =>
    let name ← fields.required "name" Decode.text
    let path ← fields.required "path" Decode.text
    match name, path with
    | some name, some path => return some ⟨name, path⟩
    | _, _ => return none

end OutputField

namespace RuleEntry

def read (number : Nat) (value : Json) : Reading RuleEntry := do
  match ← Fields.openAt (.rule number) value with
  | none => return blank
  | some fields =>
    let priority ← fields.required "priority" Decode.integer
    let conditions ← fields.optional "conditions" Decode.map
    let results ← fields.required "results" Decode.map
    return ⟨priority.getD 0, conditions.getD .empty, results.getD .empty⟩

end RuleEntry

namespace Strategy

def read (value : Json) : Reading Strategy := do
  match ← Fields.openAt .executionStrategy value with
  | none => return standard
  | some fields =>
    let modeName ← fields.optional "mode" Decode.text
    let mode ← readChoice .matchMode MatchMode.ofName? modeName
    let conflictName ← fields.optional "conflictResolution" Decode.text
    let conflict ← readChoice .conflictPolicy ConflictPolicy.ofName? conflictName
    let stopOnError ← fields.optional "stopOnError" Decode.truth
    return ⟨mode.getD .firstMatch, conflict.getD .priority, stopOnError.getD false⟩

end Strategy

/-- Reads every entry of a list, numbered from one. -/
def readEntries {α : Type} (read : Nat → Json → Reading α) (entries : List Json) :
    Reading (List α) :=
  .all (entries.zipIdx.map fun (entry, position) => read (position + 1) entry)

namespace Definition

/-- Reads everything but the path of the rows. -/
def readConfiguration (path : String) (value : Json) : Reading Definition := do
  match ← Fields.openAt .decisionTable value with
  | none => return blank path
  | some fields =>
    let inputEntries ← fields.required "inputs" Decode.list
    let outputEntries ← fields.required "outputs" Decode.list
    let ruleEntries ← fields.required "rules" Decode.list
    let inputs ← readEntries InputField.read (inputEntries.getD [])
    let outputs ← readEntries OutputField.read (outputEntries.getD [])
    let rules ← readEntries RuleEntry.read (ruleEntries.getD [])
    let defaults ← fields.optional "defaultResults" Decode.map
    let strategy ←
      match fields.find? "executionStrategy" with
      | none => pure Strategy.standard
      | some strategy => Strategy.read strategy
    return ⟨path, inputs.filterMap id, outputs.filterMap id, rules, defaults, strategy⟩

/-- The definition written by a value as far as it can be read, with all its defects. -/
def read (value : Json) : Reading Definition := do
  match ← Fields.openAt .table value with
  | none => return blank "$"
  | some fields =>
    let path ← fields.required "path" Decode.text
    let path := path.getD "$"
    match ← fields.required "decisionTable" Decode.any with
    | none => return blank path
    | some configuration => readConfiguration path configuration

/-- The definition written by a value, or all that is wrong with its shape. -/
def ofJson (value : Json) : Except (List Defect) Definition :=
  match read value with
  | ⟨definition, []⟩ => .ok definition
  | ⟨_, defects⟩ => .error defects

end Definition

end DecisionTables
