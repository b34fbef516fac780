import DecisionTables.Report
import DecisionTables.Table.Basic

/-!
# Extracting inputs

The value of an input for a row is the single node that its path selects.  A path that selects a
null or nothing is worth a warning, but a rule can still test for it; a path that cannot be read, or
that selects several nodes, fails every rule that tests the input.
-/

namespace DecisionTables.Table

inductive Extracted where
  | value (value : Json)
  | null
  | missing
  | failed (error : PathError)

namespace Extracted

/-- The value that criteria are tested against, absent for null and for nothing. -/
def tested? : Extracted → Option Json
  | value v => some v
  | null => none
  | missing => none
  | failed _ => none

def isNullOrMissing : Extracted → Bool
  | null => true
  | missing => true
  | _ => false

end Extracted

namespace Input

def convert (input : Input) (value : Json) : Json :=
  match input.type with
  | none => value
  | some type => type.apply value

def extract (input : Input) (document : Json) (row : Location) : Extracted :=
  match input.path with
  | .error error => .failed error
  | .ok path =>
    match path.selectOne document row with
    | .error error => .failed error
    | .ok none => .missing
    | .ok (some .null) => .null
    | .ok (some value) => .value (input.convert value)

end Input

def extractionNotices (inputs : List Input) (extract : Input → Extracted) : List Notice :=
  (inputs.filter fun input => (extract input).isNullOrMissing).map fun input =>
    .nullInput input.name

end DecisionTables.Table
