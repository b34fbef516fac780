import DecisionTables.Table.Compilation

/-!
# Drafts

A draft is a definition that is built up step by step, together with what it is to be compiled with.
A draft without functions of its own takes those it is given when it is compiled.
-/

namespace DecisionTables

structure Draft where
  definition : Definition
  functions : Option Registry := none
  options : TableOptions := {}

namespace Draft

def start (path : String) : Draft :=
  { definition := .blank path }

def input (draft : Draft) (name path : String) (type : Option InputType := none) : Draft :=
  { draft with
    definition.inputs := draft.definition.inputs ++ [⟨name, path, type⟩] }

def output (draft : Draft) (name path : String) : Draft :=
  { draft with definition.outputs := draft.definition.outputs ++ [⟨name, path⟩] }

def rule (draft : Draft) (entry : RuleEntry) : Draft :=
  { draft with definition.rules := draft.definition.rules ++ [entry] }

def default (draft : Draft) (output : String) (value : Json) : Draft :=
  { draft with
    definition.defaults := some ((draft.definition.defaults.getD .empty).insert output value) }

def strategy (draft : Draft) (strategy : Strategy) : Draft :=
  { draft with definition.strategy := strategy }

def mode (draft : Draft) (mode : MatchMode) : Draft :=
  { draft with definition.strategy.mode := mode }

def conflict (draft : Draft) (conflict : ConflictPolicy) : Draft :=
  { draft with definition.strategy.conflict := conflict }

def stopOnError (draft : Draft) (stop : Bool) : Draft :=
  { draft with definition.strategy.stopOnError := stop }

def withFunctions (draft : Draft) (functions : Registry) : Draft :=
  { draft with functions := some functions }

def withOptions (draft : Draft) (options : TableOptions) : Draft :=
  { draft with options }

/-- The table of a draft, with the given functions where the draft has none of its own. -/
def compile (draft : Draft) (standard : Registry) : Except (List Defect) Table :=
  draft.definition.compile (draft.functions.getD standard) draft.options

end Draft

namespace RuleEntry

def withPriority (rule : RuleEntry) (priority : Int64) : RuleEntry :=
  { rule with priority }

def when (rule : RuleEntry) (input : String) (criteria : Json) : RuleEntry :=
  { rule with conditions := rule.conditions.insert input criteria }

def set (rule : RuleEntry) (output : String) (value : Json) : RuleEntry :=
  { rule with results := rule.results.insert output value }

end RuleEntry

end DecisionTables
