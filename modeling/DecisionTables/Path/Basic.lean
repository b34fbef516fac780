import DecisionTables.Location
import DecisionTables.Text.Fault

/-!
# Paths

A path starts at the document root (`$`) or at the current row (`@`) and goes on by segments: a key,
an index, or a wildcard that stands for every member of an object and every item of an array.
-/

namespace DecisionTables

namespace Path

inductive Root where
  | document
  | row
deriving DecidableEq

inductive Segment where
  | key (name : String)
  | index (position : Nat)
  | wildcard
deriving DecidableEq

end Path

/-- A path together with the text it was read from, blanks around it removed. -/
structure Path where
  source : String
  root : Path.Root
  segments : List Path.Segment
deriving DecidableEq

inductive WriteFault where
  | wildcard
  | beyondEnd (index : Nat)
  | notAnObject (key : String) (found : String)
  | notAnArray (index : Nat) (found : String)
deriving DecidableEq

inductive PathError where
  | invalid (path : String) (fault : SyntaxFault)
  | ambiguous (path : String) (count : Nat)
  | unwritable (path : String) (fault : WriteFault)
deriving DecidableEq

/-- How many places past the end of an array a write may reach. -/
def widestGap : Nat :=
  1024

def WriteFault.message : WriteFault → String
  | wildcard => "wildcards cannot be written to"
  | beyondEnd index =>
    s!"index {index} is more than {widestGap} past the end of the array"
  | notAnObject key found => s!"expected an object before '{key}', found {found}"
  | notAnArray index found => s!"expected an array before [{index}], found {found}"

def PathError.message : PathError → String
  | invalid path fault => s!"invalid path '{path}': {fault.message}"
  | ambiguous path count => s!"path '{path}' matched {count} nodes where one was expected"
  | unwritable path fault => s!"cannot write to '{path}': {fault.message}"

namespace Path

def hasWildcard (path : Path) : Bool :=
  path.segments.any (· == .wildcard)

def base (path : Path) (row : Location) : Location :=
  match path.root with
  | .document => .root
  | .row => row

end Path

end DecisionTables
