import DecisionTables.Call.Result
import DecisionTables.Criteria.Matching
import DecisionTables.Definition.Basic

/-!
# Decision tables

A table is a definition with everything in it resolved: paths and criteria are read, conditions
refer to inputs and results to outputs.  Its rules stand in the order of their evaluation, by
priority and then by declaration.
-/

namespace DecisionTables

/-- Settings that are no part of a definition. -/
structure TableOptions where
  criteria : CriteriaOptions := {}
  /-- Whether items that are already present are left out when arrays are merged. -/
  mergeDedup : Bool := false
deriving DecidableEq

namespace Table

/-- An input whose path may be unreadable, which fails only the rules that test it. -/
structure Input where
  name : String
  path : Except PathError Path
  type : Option InputType

structure Output where
  name : String
  path : Path
deriving DecidableEq

structure Condition where
  input : Input
  criteria : Criteria

/-- Results for some of the outputs, in the order of the outputs. -/
abbrev ResultSet :=
  List (Output × ResultValue)

def ResultSet.resultFor? (results : ResultSet) (output : Output) : Option ResultValue :=
  (results.find? fun result => result.1 = output).map Prod.snd

structure Rule where
  /-- The position among the rules of the definition. -/
  declaration : Nat
  priority : Int64
  conditions : List Condition
  results : ResultSet

/-- Whether the first rule is evaluated before the second one, or they are the same. -/
def Rule.precedes (first second : Rule) : Bool :=
  first.priority < second.priority ||
    (first.priority == second.priority && first.declaration ≤ second.declaration)

end Table

structure Table where
  definition : Definition
  target : Path
  inputs : List Table.Input
  outputs : List Table.Output
  /-- In the order of evaluation. -/
  rules : List Table.Rule
  defaults : Option Table.ResultSet
  options : TableOptions
  functions : Registry

namespace Table

def strategy (table : Table) : Strategy :=
  table.definition.strategy

def ruleOrder (table : Table) : List Nat :=
  table.rules.map Rule.declaration

def display (table : Table) : String :=
  s!"DecisionTable({table.target.source}, {table.inputs.length} inputs, " ++
    s!"{table.outputs.length} outputs, {table.rules.length} rules, " ++
    s!"{table.strategy.mode.name}/{table.strategy.conflict.name})"

end Table

end DecisionTables
