import DecisionTables.Path.Basic

/-!
# Selecting nodes

A path selects the nodes whose locations take one step per segment: the key or index of the
segment, or any step at all where the segment is a wildcard.  The nodes come in document order,
array items by index and object members by key.
-/

namespace DecisionTables

namespace Json

/-- The children of a node that a segment selects, with the step to each. -/
def childrenAt (node : Json) : Path.Segment → List (Step × Json)
  | .key name =>
    match node.get? name with
    | some child => [(.key name, child)]
    | none => []
  | .index position =>
    match node.item? position with
    | some child => [(.index position, child)]
    | none => []
  | .wildcard =>
    match node with
    | object members => members.map fun (key, child) => (.key key, child)
    | array items => items.zipIdx.map fun (child, position) => (.index position, child)
    | _ => []

/-- The nodes below a node that the segments select, with the steps to each. -/
def select : List Path.Segment → Json → List (List Step × Json)
  | [], node => [([], node)]
  | segment :: rest, node =>
    (node.childrenAt segment).flatMap fun (step, child) =>
      (select rest child).map fun (steps, descendant) => (step :: steps, descendant)

end Json

namespace Path

def selectNodes (path : Path) (document : Json) (row : Location) : List (Location × Json) :=
  let base := path.base row
  match base.resolve? document with
  | none => []
  | some start =>
    (start.select path.segments).map fun (steps, node) => (⟨base.steps ++ steps⟩, node)

def select (path : Path) (document : Json) (row : Location) : List Location :=
  (path.selectNodes document row).map Prod.fst

def selectOne (path : Path) (document : Json) (row : Location) : Except PathError (Option Json) :=
  match path.selectNodes document row with
  | [] => .ok none
  | [(_, node)] => .ok (some node)
  | nodes => .error (.ambiguous path.source nodes.length)

end Path

end DecisionTables
