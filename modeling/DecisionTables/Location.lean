import DecisionTables.Json.Printer

/-!
# Locations

A location is the concrete position of one node in a document, as the steps that lead there from
the root.  Its pointer is the JSON pointer of the node: every step after a slash, where `~` is
written `~0` and a slash inside a key `~1`.
-/

namespace DecisionTables

inductive Step where
  | key (name : String)
  | index (position : Nat)
deriving DecidableEq

structure Location where
  steps : List Step
deriving DecidableEq

namespace Json

def child? (node : Json) : Step → Option Json
  | .key name => node.get? name
  | .index position => node.item? position

def follow? : List Step → Json → Option Json
  | [], node => some node
  | step :: rest, node => (node.child? step).bind (follow? rest)

end Json

namespace Location

def root : Location :=
  ⟨[]⟩

def resolve? (location : Location) (document : Json) : Option Json :=
  document.follow? location.steps

def escapeKey (cs : List Char) : List Char :=
  cs.flatMap fun c => if c = '~' then ['~', '0'] else if c = '/' then ['~', '1'] else [c]

def stepToken : Step → List Char
  | .key name => escapeKey name.toList
  | .index position => Nat.toDigits 10 position

def pointer (location : Location) : String :=
  String.ofList (location.steps.flatMap fun step => '/' :: stepToken step)

/-- The location as a path with a bracket for every step. -/
def display (location : Location) : String :=
  location.steps.foldl
    (fun text step =>
      match step with
      | .key name => text ++ "['" ++ name ++ "']"
      | .index position => text ++ "[" ++ toString position ++ "]")
    "$"

end Location

end DecisionTables
