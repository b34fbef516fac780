import DecisionTables.Criteria.Reader

/-!
# Criteria cache

A cache keeps the criteria that were read, so that conditions with the same JSON text share one.  A
request is answered with the place of its criteria in the cache: two requests got the same shared
criteria exactly when they got the same place.
-/

namespace DecisionTables

/-- The JSON texts that were requested, each once and in order, with their criteria. -/
structure CriteriaCache where
  shared : List (String × Criteria)

namespace CriteriaCache

def empty : CriteriaCache :=
  ⟨[]⟩

def size (cache : CriteriaCache) : Nat :=
  cache.shared.length

def isEmpty (cache : CriteriaCache) : Bool :=
  cache.shared.isEmpty

def find? (cache : CriteriaCache) (key : String) : Option (Nat × Criteria) :=
  cache.shared.zipIdx.findSome? fun ((text, criteria), place) =>
    if text = key then some (place, criteria) else none

def request (cache : CriteriaCache) (source : Json) : (Nat × Criteria) × CriteriaCache :=
  match cache.find? source.text with
  | some found => (found, cache)
  | none =>
    let criteria := Criteria.ofJson source
    ((cache.size, criteria), ⟨cache.shared ++ [(source.text, criteria)]⟩)

end CriteriaCache

end DecisionTables
