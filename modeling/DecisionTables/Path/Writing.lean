import DecisionTables.Path.Basic

/-!
# Writing at a path

A write walks from the root of the document to its target and makes what is missing on the way: null
becomes an object before a key and an array before an index, a missing member is added, and an array
is padded with nulls.  A write that meets a node of the wrong kind, or an index too far past the end
of an array, stops there; what it made on the way stays.
-/

namespace DecisionTables

namespace Json

/-- The members that a key step continues from.  Null counts as an object without members. -/
def membersForWriting? : Json → Option (List (String × Json))
  | null => some []
  | object members => some members
  | _ => none

/-- The items that an index step continues from.  Null counts as an array without items. -/
def itemsForWriting? : Json → Option (List Json)
  | null => some []
  | array items => some items
  | _ => none

def arrayLength (node : Json) : Nat :=
  (node.items?.getD []).length

def padTo (position : Nat) (items : List Json) : List Json :=
  items ++ List.replicate (position + 1 - items.length) null

/-- The document after a write along the steps, and the fault that stopped the write, if any. -/
def write (value : Json) : List Step → Json → Json × Option WriteFault
  | [], _ => (value, none)
  | .key name :: rest, node =>
    match node.membersForWriting? with
    | none => (node, some (.notAnObject name node.kind))
    | some members =>
      let (child, fault) := write value rest ((Entries.get? name members).getD null)
      (object (Entries.set name child members), fault)
  | .index position :: rest, node =>
    if node.arrayLength + widestGap < position then (node, some (.beyondEnd position))
    else
      match node.itemsForWriting? with
      | none => (node, some (.notAnArray position node.kind))
      | some items =>
        let (child, fault) := write value rest (items[position]?.getD null)
        (array ((padTo position items).set position child), fault)

end Json

namespace Path

/-- The steps that the segments spell, if none of them is a wildcard. -/
def stepsOf? : List Segment → Option (List Step)
  | [] => some []
  | .key name :: rest => (stepsOf? rest).map (Step.key name :: ·)
  | .index position :: rest => (stepsOf? rest).map (Step.index position :: ·)
  | .wildcard :: _ => none

def target? (path : Path) (row : Location) : Option Location :=
  (stepsOf? path.segments).map fun steps => ⟨(path.base row).steps ++ steps⟩

def write (path : Path) (row : Location) (value document : Json) : Json × Option PathError :=
  match path.target? row with
  | none => (document, some (.unwritable path.source .wildcard))
  | some target =>
    let (written, fault) := Json.write value target.steps document
    (written, fault.map (.unwritable path.source))

end Path

end DecisionTables
