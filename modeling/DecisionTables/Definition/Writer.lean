import DecisionTables.Definition.Basic

/-!
# Writing definitions

The JSON form of a definition.  Absent types and defaults are left out; everything else is written,
also where it is empty.
-/

namespace DecisionTables

def InputField.toJson (input : InputField) : Json :=
  let type :=
    match input.type with
    | none => []
    | some type => [("type", Json.string type.name)]
  .ofMembers ([("name", .string input.name), ("path", .string input.path)] ++ type)

def OutputField.toJson (output : OutputField) : Json :=
  .ofMembers [("name", .string output.name), ("path", .string output.path)]

def RuleEntry.toJson (rule : RuleEntry) : Json :=
  .ofMembers
    [("priority", .number (.ofInt64 rule.priority)),
      ("conditions", .ofKeyMap rule.conditions),
      ("results", .ofKeyMap rule.results)]

def Strategy.toJson (strategy : Strategy) : Json :=
  .ofMembers
    [("mode", .string strategy.mode.name),
      ("conflictResolution", .string strategy.conflict.name),
      ("stopOnError", .bool strategy.stopOnError)]

def Definition.toJson (definition : Definition) : Json :=
  let defaults :=
    match definition.defaults with
    | none => []
    | some defaults => [("defaultResults", Json.ofKeyMap defaults)]
  .ofMembers
    [("path", .string definition.path),
      ("decisionTable", .ofMembers
        ([("inputs", .array (definition.inputs.map InputField.toJson)),
          ("outputs", .array (definition.outputs.map OutputField.toJson)),
          ("rules", .array (definition.rules.map RuleEntry.toJson)),
          ("executionStrategy", definition.strategy.toJson)] ++ defaults))]

end DecisionTables
