import DecisionTables.Table.Basic

/-!
# Conflicts between results

Several sets of results may define the same output.  The conflict policy picks the value of the
first or of the last of them, or has all of them merged: arrays are joined, the greatest of numbers
is taken, and of any other values the last one.  A single value is taken as it is.
-/

namespace DecisionTables

namespace Table

inductive Pick where
  | one (result : ResultValue)
  | merged (results : List ResultValue)

end Table

/-- What the policy makes of the results for one output, in the order of their application. -/
def ConflictPolicy.pick? (policy : ConflictPolicy) (results : List ResultValue) :
    Option Table.Pick :=
  match results, policy with
  | [], _ => none
  | [only], _ => some (.one only)
  | first :: _, priority => some (.one first)
  | first :: rest, lastWins => some (.one (rest.getLastD first))
  | results, merge => some (.merged results)

namespace Table

def picks (outputs : List Output) (policy : ConflictPolicy) (sets : List ResultSet) :
    List (Output × Pick) :=
  outputs.filterMap fun output =>
    (policy.pick? (sets.filterMap fun set => set.resultFor? output)).map fun pick => (output, pick)

def withoutRepeats (items : List Json) : List Json :=
  items.foldl (fun kept item => if kept.any item.same then kept else kept ++ [item]) []

/-- The greatest of the numbers, the first of them at a tie. -/
def greatest (first : Number) (rest : List Number) : Number :=
  rest.foldl
    (fun best n => if n.toBinary64.order best.toBinary64 = .gt then n else best)
    first

def mergeValues (dedup : Bool) (values : List Json) : Json :=
  match values.mapM Json.items? with
  | some lists => .array (if dedup then withoutRepeats lists.flatten else lists.flatten)
  | none =>
    match values.mapM Json.number? with
    | some (first :: rest) => .number (greatest first rest)
    | _ => values.getLastD .null

end Table

end DecisionTables
