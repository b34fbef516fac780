import DecisionTables.Entries
import DecisionTables.Number.Basic

/-!
# JSON values

The values of a document, of a criteria and of a result.  The members of an object are entries;
those of every value that is read, built or written by this library are sorted by key, which
`Canonical` states for a value and all its parts.
-/

namespace DecisionTables

inductive Json where
  | null
  | bool (value : Bool)
  | number (value : Number)
  | string (value : String)
  | array (items : List Json)
  | object (members : List (String × Json))

namespace Json

instance : Inhabited Json :=
  ⟨null⟩

def kind : Json → String
  | null => "null"
  | bool _ => "boolean"
  | number _ => "number"
  | string _ => "string"
  | array _ => "array"
  | object _ => "object"

def isNull : Json → Bool
  | null => true
  | _ => false

def number? : Json → Option Number
  | number n => some n
  | _ => none

def items? : Json → Option (List Json)
  | array items => some items
  | _ => none

def get? (key : String) : Json → Option Json
  | object members => Entries.get? key members
  | _ => none

def item? (index : Nat) : Json → Option Json
  | array items => items[index]?
  | _ => none

/-- An object of the given members, later ones replacing earlier ones of the same key. -/
def ofMembers (members : List (String × Json)) : Json :=
  object (Entries.ofPairs members)

def ofKeyMap (map : KeyMap Json) : Json :=
  object map.entries

mutual

/-- Every object among the value and its parts has strictly ascending keys. -/
def Canonical : Json → Prop
  | array items => CanonicalItems items
  | object members => Entries.Sorted members ∧ CanonicalMembers members
  | _ => True

def CanonicalItems : List Json → Prop
  | [] => True
  | item :: rest => item.Canonical ∧ CanonicalItems rest

def CanonicalMembers : List (String × Json) → Prop
  | [] => True
  | (_, value) :: rest => value.Canonical ∧ CanonicalMembers rest

end

mutual

/--
The structural equality of values.  An integer differs from every binary64 number, and the two
zeros are the same.
-/
def same : Json → Json → Bool
  | null, null => true
  | bool a, bool b => a == b
  | number a, number b => a.same b
  | string a, string b => a == b
  | array a, array b => sameItems a b
  | object a, object b => sameMembers a b
  | _, _ => false

def sameItems : List Json → List Json → Bool
  | [], [] => true
  | a :: as, b :: bs => a.same b && sameItems as bs
  | _, _ => false

def sameMembers : List (String × Json) → List (String × Json) → Bool
  | [], [] => true
  | (k, a) :: as, (l, b) :: bs => k == l && a.same b && sameMembers as bs
  | _, _ => false

end

end Json

end DecisionTables
