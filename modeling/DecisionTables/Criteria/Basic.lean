import DecisionTables.Json.Printer

/-!
# Criteria

A criteria is a predicate on one tested value.  Written as text it is a disjunction of conjunctions
of comparisons, each an operator with a literal.  A comparison that cannot be evaluated is kept as
malformed and never holds.  Other criteria test for membership in a list or for the absence of a
value.
-/

namespace DecisionTables

inductive Operator where
  | equal
  | notEqual
  | greater
  | atLeast
  | less
  | atMost
deriving DecidableEq

/-- The right-hand side of a comparison. -/
inductive Literal where
  /-- Text that stands for a number. -/
  | number (value : Binary64) (text : String)
  | text (text : String)
  /-- Text between single quotes, which is neither a number nor a wildcard. -/
  | quoted (text : String)
  /-- Text with stars, each of which stands for any run of characters. -/
  | wildcard (pattern : String)
  /-- No text at all, which stands for an empty or absent value. -/
  | empty
deriving DecidableEq

inductive ComparisonFault where
  | missingValue (operator : Operator)
  | orderedWildcard (operator : Operator) (pattern : String)
  | emptyCondition
deriving DecidableEq

inductive Comparison where
  | test (operator : Operator) (literal : Literal)
  | malformed (fault : ComparisonFault)
deriving DecidableEq

inductive CriteriaFault where
  | objectCriteria
  | unreadText
deriving DecidableEq

inductive Criteria where
  /-- Groups joined by `||`, each of comparisons joined by `&&`. -/
  | expression (groups : List (List Comparison))
  | membership (items : List Json)
  | isNull
  | malformed (fault : CriteriaFault)

structure CriteriaOptions where
  wildcardCaseSensitive : Bool := true
deriving DecidableEq

namespace Operator

def isRelational : Operator → Bool
  | equal | notEqual => false
  | greater | atLeast | less | atMost => true

/-- Whether the operator holds, given how the tested value compares with the literal. -/
def holds : Operator → Ordering → Bool
  | equal, order => order == .eq
  | notEqual, order => order != .eq
  | greater, order => order == .gt
  | atLeast, order => order != .lt
  | less, order => order == .lt
  | atMost, order => order != .gt

/-- The written form of an operator.  Equality is written by no operator at all. -/
def symbol : Operator → String
  | equal => ""
  | notEqual => "!="
  | greater => ">"
  | atLeast => ">="
  | less => "<"
  | atMost => "<="

end Operator

def ComparisonFault.message : ComparisonFault → String
  | missingValue operator => s!"operator '{operator.symbol}' has no value"
  | orderedWildcard operator pattern =>
    s!"operator '{operator.symbol}' cannot be applied to wildcard '{pattern}'"
  | emptyCondition => "empty condition"

def CriteriaFault.message : CriteriaFault → String
  | objectCriteria => "object criteria are not supported"
  | unreadText => "unread text after a comparison"

namespace Comparison

def isMalformed : Comparison → Bool
  | malformed _ => true
  | test _ _ => false

end Comparison

namespace Criteria

/-- Whether the criteria, or any comparison of it, is malformed. -/
def isMalformed : Criteria → Bool
  | expression groups => groups.any (·.any (·.isMalformed))
  | membership _ => false
  | isNull => false
  | malformed _ => true

end Criteria

end DecisionTables
