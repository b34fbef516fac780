import DecisionTables.Criteria.Basic
import DecisionTables.Criteria.Glob

/-!
# Evaluating criteria

A tested value is present or absent, and null counts as absent.  An absent value satisfies no
comparison with a number or a text, not even an inequality; for wildcards and empty literals it
counts as the empty text.

Numbers are compared by value whenever the tested value is a number or a text that stands for one.
All other comparisons are between texts, ordered by their characters.
-/

namespace DecisionTables

namespace Literal

def equals (literal : Literal) (value : Json) : Bool :=
  match literal with
  | number n written =>
    match value.asNumber? with
    | some tested => tested.sameValue n
    | none => value.textForm? == some written
  | text t => value.textForm? == some t
  | quoted t => value.textForm? == some t
  | wildcard _ => false
  | empty => false

/-- How a value compares with a number or text literal, where the two are comparable. -/
def order? (literal : Literal) (value : Json) : Option Ordering :=
  match literal with
  | number n _ => value.asNumber?.map fun tested => tested.order n
  | text t => value.textForm?.map fun tested => compare tested t
  | quoted t => value.textForm?.map fun tested => compare tested t
  | wildcard _ => none
  | empty => none

end Literal

/-- A tested value, where null counts as absent. -/
def present? (tested : Option Json) : Option Json :=
  tested.filter fun value => !value.isNull

namespace Comparison

def testHolds (operator : Operator) (literal : Literal) (tested : Option Json)
    (options : CriteriaOptions) : Bool :=
  let text := (tested.bind Json.textForm?).getD ""
  match literal with
  | .empty =>
    match operator with
    | .equal => text == ""
    | .notEqual => text != ""
    | _ => false
  | .wildcard pattern =>
    match operator with
    | .equal => Glob.fits pattern text options.wildcardCaseSensitive
    | .notEqual => !Glob.fits pattern text options.wildcardCaseSensitive
    | _ => false
  | concrete =>
    match tested with
    | none => false
    | some value =>
      match operator with
      | .equal => concrete.equals value
      | .notEqual => !concrete.equals value
      | relational => (concrete.order? value).any relational.holds

def holds (comparison : Comparison) (tested : Option Json) (options : CriteriaOptions) : Bool :=
  match comparison with
  | test operator literal => testHolds operator literal tested options
  | malformed _ => false

end Comparison

def memberEquals (item value : Json) : Bool :=
  match item with
  | .null => false
  | .number n =>
    match value.asNumber? with
    | some tested => n.toBinary64.sameValue tested
    | none => false
  | .string s =>
    match readNumber? s.toList, value.asNumber? with
    | some n, some tested => n.sameValue tested
    | _, _ => value.textForm? == some s
  | .bool _ => item.textForm? == value.textForm?
  | .array _ => item.same value
  | .object _ => item.same value

namespace Criteria

def holds (criteria : Criteria) (tested : Option Json) (options : CriteriaOptions) : Bool :=
  let tested := present? tested
  match criteria with
  | expression groups => groups.any fun group => group.all fun c => c.holds tested options
  | membership items =>
    items.any fun item =>
      match tested with
      | none => item.isNull
      | some value => memberEquals item value
  | isNull => tested.isNone
  | malformed _ => false

end Criteria

end DecisionTables
