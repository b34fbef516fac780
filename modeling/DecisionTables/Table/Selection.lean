import DecisionTables.Table.Extraction

/-!
# Selecting rules

Rules are evaluated in their order against the inputs extracted for a row.  A rule that tests an
input whose extraction failed is failed itself, whatever its other conditions; any other rule
matches when all of its conditions hold.  A failed rule is passed over, or the row is given up where
the strategy asks to stop.
-/

namespace DecisionTables.Table

inductive Verdict where
  | matching
  | unmatching
  | failed (input : String) (error : PathError)

namespace Rule

/-- The first input among the conditions whose extraction failed, with the reason. -/
def failure? (rule : Rule) (extract : Input → Extracted) : Option (String × PathError) :=
  rule.conditions.findSome? fun condition =>
    match extract condition.input with
    | .failed error => some (condition.input.name, error)
    | _ => none

def isSatisfied (rule : Rule) (extract : Input → Extracted) (options : CriteriaOptions) : Bool :=
  rule.conditions.all fun condition =>
    condition.criteria.holds (extract condition.input).tested? options

def verdict (rule : Rule) (extract : Input → Extracted) (options : CriteriaOptions) : Verdict :=
  match rule.failure? extract with
  | some (input, error) => .failed input error
  | none => if rule.isSatisfied extract options then .matching else .unmatching

def number (rule : Rule) : Nat :=
  rule.declaration + 1

end Rule

structure Selection where
  rules : List Rule
  evaluated : Nat
  notices : List Notice
  aborted : Bool

namespace Selection

def none : Selection :=
  ⟨[], 0, [], false⟩

def afterUnmatching (rest : Selection) : Selection :=
  { rest with evaluated := rest.evaluated + 1 }

def afterMatching (rest : Selection) (rule : Rule) : Selection :=
  { rest.afterUnmatching with rules := rule :: rest.rules }

def afterFailed (rest : Selection) (notice : Notice) : Selection :=
  { rest.afterUnmatching with notices := notice :: rest.notices }

end Selection

/--
Evaluates rules in their order and keeps those that match.  The first match ends the evaluation in
the mode that looks for it, and the first failed rule does where the strategy asks to stop.
-/
def scan (verdict : Rule → Verdict) (strategy : Strategy) : List Rule → Selection
  | [] => .none
  | rule :: rest =>
    match verdict rule with
    | .unmatching => (scan verdict strategy rest).afterUnmatching
    | .matching =>
      if strategy.mode = .firstMatch then Selection.none.afterMatching rule
      else (scan verdict strategy rest).afterMatching rule
    | .failed input error =>
      let notice := Notice.unreadableInput rule.number input error
      if strategy.stopOnError then { Selection.none.afterFailed notice with aborted := true }
      else (scan verdict strategy rest).afterFailed notice

/-- The rule with the most conditions, the first of them at a tie. -/
def strongest? : List Rule → Option Rule
  | [] => none
  | rule :: rest =>
    match strongest? rest with
    | none => some rule
    | some other =>
      if rule.conditions.length < other.conditions.length then some other else some rule

def select (table : Table) (extract : Input → Extracted) : Selection :=
  let verdict := fun rule => Rule.verdict rule extract table.options.criteria
  let selection := scan verdict table.strategy table.rules
  match table.strategy.mode with
  | .bestMatch => { selection with rules := (strongest? selection.rules).toList }
  | _ => selection

end DecisionTables.Table
