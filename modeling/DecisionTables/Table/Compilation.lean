import DecisionTables.Criteria.Reader
import DecisionTables.Definition.Reader
import DecisionTables.Table.Basic

/-!
# Compiling definitions

Compiling resolves a definition into a table and reports every defect on the way: paths that cannot
be read, repeated names, outputs that are no single place, references to inputs and outputs that are
not there, and results that are no valid calls.  A table is made only where no defect is found.

An entry with a defect is left out, so a result for an output with an unusable path is a result for
an undefined output.
-/

namespace DecisionTables

namespace Table

/-- Reads a path in which any fault is a defect of its place. -/
def compilePath (place : Place) (source : String) : Reading (Option Path) :=
  match Path.read source with
  | .ok path => pure (some path)
  | .error fault => .report (.invalidPath place source fault) none

/-- The inputs, where `seen` holds the names of the inputs before them. -/
def compileInputs (seen : List String) : List InputField → Reading (List Input)
  | [] => pure []
  | field :: rest =>
    if field.name ∈ seen then do
      Reading.report (.duplicateInput field.name) ()
      compileInputs seen rest
    else do
      let inputs ← compileInputs (field.name :: seen) rest
      return ⟨field.name, Path.parse field.path, field.type⟩ :: inputs

def compileOutput (field : OutputField) : Reading (Option Output) := do
  match ← compilePath (.namedOutput field.name) field.path with
  | none => return none
  | some path =>
    if path.hasWildcard then .report (.wildcardOutput field.name field.path) none
    else return some ⟨field.name, path⟩

/-- The outputs, where `seen` holds the names of the outputs before them. -/
def compileOutputs (seen : List String) : List OutputField → Reading (List Output)
  | [] => pure []
  | field :: rest =>
    if field.name ∈ seen then do
      Reading.report (.duplicateOutput field.name) ()
      compileOutputs seen rest
    else do
      let output ← compileOutput field
      let outputs ← compileOutputs (field.name :: seen) rest
      return output.toList ++ outputs

def findInput? (inputs : List Input) (name : String) : Option Input :=
  inputs.find? fun input => input.name = name

def findOutput? (outputs : List Output) (name : String) : Option Output :=
  outputs.find? fun output => output.name = name

def compileCondition (inputs : List Input) (ruleNumber : Nat) (entry : String × Json) :
    Reading (Option Condition) :=
  match findInput? inputs entry.1 with
  | none => .report (.undefinedInput ruleNumber entry.1) none
  | some input => pure (some ⟨input, .ofJson entry.2⟩)

def compileResultValue (functions : Registry) (value : Json) : Except ResultFault ResultValue :=
  match ResultValue.ofJson value with
  | .error error => .error (.notACall error)
  | .ok (.fixed value) => .ok (.fixed value)
  | .ok (.computed source c) =>
    match c.validate functions with
    | .error error => .error (.invalidCall error)
    | .ok () => .ok (.computed source c)

def compileResult (place : Place) (outputs : List Output) (functions : Registry)
    (entry : String × Json) : Reading (Option (Output × ResultValue)) :=
  match findOutput? outputs entry.1 with
  | none => .report (.undefinedOutput place entry.1) none
  | some output =>
    match compileResultValue functions entry.2 with
    | .error fault => .report (.invalidResult place entry.1 fault) none
    | .ok result => pure (some (output, result))

def inOutputOrder (outputs : List Output) (results : ResultSet) : ResultSet :=
  outputs.filterMap fun output => (results.resultFor? output).map fun result => (output, result)

def compileResults (place : Place) (outputs : List Output) (functions : Registry)
    (entries : KeyMap Json) : Reading ResultSet := do
  let results ← Reading.all (entries.entries.map (compileResult place outputs functions))
  return inOutputOrder outputs (results.filterMap id)

def compileRule (inputs : List Input) (outputs : List Output) (functions : Registry)
    (declaration : Nat) (entry : RuleEntry) : Reading Rule := do
  let number := declaration + 1
  let conditions ← Reading.all (entry.conditions.entries.map (compileCondition inputs number))
  let results ← compileResults (.rule number) outputs functions entry.results
  return ⟨declaration, entry.priority, conditions.filterMap id, results⟩

def compileDefaults (outputs : List Output) (functions : Registry) :
    Option (KeyMap Json) → Reading (Option ResultSet)
  | none => pure none
  | some defaults => do
    let results ← compileResults .defaultResults outputs functions defaults
    return some results

end Table

namespace Definition

/-- The table of a definition as far as it can be resolved, with all defects. -/
def resolve (definition : Definition) (functions : Registry) (options : TableOptions) :
    Reading (Option Table) := do
  let target ← Table.compilePath .table definition.path
  let inputs ← Table.compileInputs [] definition.inputs
  let outputs ← Table.compileOutputs [] definition.outputs
  let rules ← Reading.all (definition.rules.zipIdx.map fun (entry, declaration) =>
    Table.compileRule inputs outputs functions declaration entry)
  let defaults ← Table.compileDefaults outputs functions definition.defaults
  return target.map fun target =>
    { definition, target, inputs, outputs, rules := rules.mergeSort Table.Rule.precedes, defaults,
      options, functions }

def compile (definition : Definition) (functions : Registry) (options : TableOptions := {}) :
    Except (List Defect) Table :=
  match definition.resolve functions options with
  | ⟨some table, []⟩ => .ok table
  | ⟨_, defects⟩ => .error defects

end Definition

namespace Table

/-- The table of a definition in JSON form, or all defects of its shape and of its contents. -/
def ofJson (value : Json) (functions : Registry) (options : TableOptions := {}) :
    Except (List Defect) Table :=
  let definition := Definition.read value
  match definition.defects, definition.value.compile functions options with
  | [], result => result
  | defects, .ok _ => .error defects
  | defects, .error more => .error (defects ++ more)

end Table

end DecisionTables
