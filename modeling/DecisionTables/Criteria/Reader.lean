import DecisionTables.Criteria.Basic
import DecisionTables.Text.Basic

/-!
# Reading criteria

A criteria text is a list of comparisons separated by `&&` and `||`, of which `&&` binds tighter.  A
comparison is an optional operator and a literal.  A literal that starts with a single quote extends
to the first single quote after which nothing but blanks stands before a separator or the end; all
other literals extend to the next separator.

Every text can be read.  A comparison that makes no sense becomes malformed: an ordering against
nothing or against a wildcard, and an empty comparison beside others.
-/

namespace DecisionTables

def startsWithSeparator : List Char → Bool
  | '&' :: '&' :: _ => true
  | '|' :: '|' :: _ => true
  | _ => false

namespace Literal

/-- The literal that a trimmed text stands for when it is not quoted. -/
def ofText (cs : List Char) : Literal :=
  if cs = [] then empty
  else if '*' ∈ cs then wildcard (String.ofList cs)
  else
    match readNumber? cs with
    | some value => number value (String.ofList cs)
    | none => text (String.ofList cs)

def splitPlain : List Char → List Char × List Char
  | [] => ([], [])
  | c :: cs =>
    if startsWithSeparator (c :: cs) then ([], c :: cs)
    else
      let (plain, rest) := splitPlain cs
      (c :: plain, rest)

/-- Whether nothing but blanks stands before the next separator or the end. -/
def atBoundary (cs : List Char) : Bool :=
  let rest := Text.trimStart cs
  rest.isEmpty || startsWithSeparator rest

def splitQuoted? : List Char → Option (List Char × List Char)
  | [] => none
  | c :: cs =>
    if c = '\'' ∧ atBoundary cs then some ([], cs)
    else (splitQuoted? cs).map fun (inner, rest) => (c :: inner, rest)

def readQuoted? : List Char → Option (Literal × List Char)
  | '\'' :: cs => (splitQuoted? cs).map fun (inner, rest) => (quoted (String.ofList inner), rest)
  | _ => none

def read (cs : List Char) : Literal × List Char :=
  match readQuoted? cs with
  | some result => result
  | none =>
    let (plain, rest) := splitPlain cs
    (ofText (Text.trim plain), rest)

end Literal

namespace Operator

/-- The operator at the start of a text, equality if there is none, and the text after it. -/
def read : List Char → Operator × List Char
  | '>' :: '=' :: rest => (atLeast, rest)
  | '<' :: '=' :: rest => (atMost, rest)
  | '!' :: '=' :: rest => (notEqual, rest)
  | '>' :: rest => (greater, rest)
  | '<' :: rest => (less, rest)
  | rest => (equal, rest)

end Operator

namespace Comparison

/-- The comparison of an operator and a literal, where an ordered one needs a number or a text. -/
def ofParts (operator : Operator) (literal : Literal) : Comparison :=
  if operator.isRelational then
    match literal with
    | .empty => malformed (.missingValue operator)
    | .wildcard pattern => malformed (.orderedWildcard operator pattern)
    | _ => test operator literal
  else test operator literal

def read (cs : List Char) : Comparison × List Char :=
  let (operator, afterOperator) := Operator.read (Text.trimStart cs)
  let (literal, rest) := Literal.read (Text.trimStart afterOperator)
  (ofParts operator literal, Text.trimStart rest)

/-- Malformed in place of a comparison that consists of nothing. -/
def rejectEmpty : Comparison → Comparison
  | test .equal .empty => malformed .emptyCondition
  | comparison => comparison

end Comparison

theorem Literal.length_splitPlain_le (cs : List Char) : (splitPlain cs).2.length ≤ cs.length := by
  induction cs with
  | nil => simp [splitPlain]
  | cons c cs ih =>
    unfold splitPlain
    split
    · simp
    · simp only [List.length_cons]
      omega

theorem Literal.length_splitQuoted?_le {cs inner rest : List Char}
    (h : splitQuoted? cs = some (inner, rest)) : rest.length ≤ cs.length := by
  induction cs generalizing inner rest with
  | nil => simp [splitQuoted?] at h
  | cons c cs ih =>
    unfold splitQuoted? at h
    split at h
    · simp only [Option.some.injEq, Prod.mk.injEq] at h
      simp [← h.2]
    · obtain ⟨⟨inner', rest'⟩, hfound, heq⟩ := Option.map_eq_some_iff.mp h
      simp only [Prod.mk.injEq] at heq
      have := ih hfound
      rw [← heq.2, List.length_cons]
      omega

theorem Literal.length_read_le (cs : List Char) : (Literal.read cs).2.length ≤ cs.length := by
  unfold Literal.read
  split
  · rename_i result hquoted
    unfold readQuoted? at hquoted
    split at hquoted
    · obtain ⟨⟨inner, rest⟩, hfound, rfl⟩ := Option.map_eq_some_iff.mp hquoted
      have := length_splitQuoted?_le hfound
      simp only [List.length_cons]
      omega
    · simp at hquoted
  · exact length_splitPlain_le cs

theorem Operator.length_read_le (cs : List Char) : (Operator.read cs).2.length ≤ cs.length := by
  unfold Operator.read
  split <;> simp only [List.length_cons] <;> omega

theorem Comparison.length_read_le (cs : List Char) :
    (Comparison.read cs).2.length ≤ cs.length := by
  have h1 := Text.length_trimStart_le cs
  have h2 := Operator.length_read_le (Text.trimStart cs)
  have h3 := Text.length_trimStart_le (Operator.read (Text.trimStart cs)).2
  have h4 := Literal.length_read_le (Text.trimStart (Operator.read (Text.trimStart cs)).2)
  have h5 := Text.length_trimStart_le
    (Literal.read (Text.trimStart (Operator.read (Text.trimStart cs)).2)).2
  unfold Comparison.read
  simp only
  omega

namespace Criteria

def prependToFirst (comparison : Comparison) : List (List Comparison) → List (List Comparison)
  | [] => [[comparison]]
  | group :: groups => (comparison :: group) :: groups

/-- The groups of a text, and what is left of the text after them. -/
def readGroups (cs : List Char) : List (List Comparison) × List Char :=
  match h : Comparison.read cs with
  | (comparison, '&' :: '&' :: rest) =>
    have : rest.length < cs.length := by
      have hle := Comparison.length_read_le cs
      rw [h] at hle
      simp only [List.length_cons] at hle
      omega
    let (groups, unread) := readGroups rest
    (prependToFirst comparison groups, unread)
  | (comparison, '|' :: '|' :: rest) =>
    have : rest.length < cs.length := by
      have hle := Comparison.length_read_le cs
      rw [h] at hle
      simp only [List.length_cons] at hle
      omega
    let (groups, unread) := readGroups rest
    ([comparison] :: groups, unread)
  | (comparison, rest) => ([[comparison]], rest)
termination_by cs.length

/-- A single comparison may consist of nothing, but not one among others. -/
def rejectEmptyAmongOthers (groups : List (List Comparison)) : List (List Comparison) :=
  if groups.flatten.length ≤ 1 then groups
  else groups.map fun group => group.map Comparison.rejectEmpty

def parse (source : String) : Criteria :=
  match readGroups source.toList with
  | (groups, []) => expression (rejectEmptyAmongOthers groups)
  | _ => malformed .unreadText

/--
The criteria given as a condition: text is read, a list tests for membership, null for absence, and
any other scalar stands for its text.
-/
def ofJson : Json → Criteria
  | .string source => parse source
  | .array items => membership items
  | .null => isNull
  | .object _ => malformed .objectCriteria
  | scalar => parse scalar.text

end Criteria

end DecisionTables
