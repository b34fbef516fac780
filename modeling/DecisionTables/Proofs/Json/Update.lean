import DecisionTables.Path.Writing
import DecisionTables.Proofs.Entries

/-!
# Updates of a document

A write along steps that exist already makes nothing on its way: it puts a new node in place of the
old one, and all nodes apart from it stay as they were.  A write that goes on below an existing node
is the same as a write into that node alone, whose outcome then takes the place of the node.  Both
facts are about one step at a time, where the update is a change of one child.
-/

namespace DecisionTables

/-- Two positions are apart when neither of them lies within the other. -/
def Step.Apart (first second : List Step) : Prop :=
  ¬ first <+: second ∧ ¬ second <+: first

namespace Step

theorem Apart.symm {first second : List Step} (hapart : Apart first second) :
    Apart second first :=
  ⟨hapart.2, hapart.1⟩

theorem apart_cons_iff {step other : Step} {first second : List Step} :
    Apart (step :: first) (other :: second) ↔ step ≠ other ∨ Apart first second := by
  simp only [Apart, List.cons_prefix_cons, not_and]
  by_cases h : step = other
  · simp [h]
  · simp [h, Ne.symm h]

theorem not_apart_nil_left (steps : List Step) : ¬ Apart [] steps :=
  fun hapart => hapart.1 List.nil_prefix

theorem not_apart_nil_right (steps : List Step) : ¬ Apart steps [] :=
  fun hapart => hapart.2 List.nil_prefix

/-- Different positions at the same depth are apart. -/
theorem apart_of_length_eq {first second : List Step} (hlength : first.length = second.length)
    (hne : first ≠ second) : Apart first second :=
  ⟨fun hbelow => hne (hbelow.eq_of_length hlength),
    fun hbelow => hne (hbelow.eq_of_length hlength.symm).symm⟩

end Step

namespace Json

theorem follow?_append (first second : List Step) (document : Json) :
    document.follow? (first ++ second) = (document.follow? first).bind (follow? second) := by
  induction first generalizing document with
  | nil => rfl
  | cons step rest ih =>
      simp only [List.cons_append, follow?]
      cases document.child? step with
      | none => rfl
      | some child => exact ih child

/-- The node with another child in place of the one at a step. -/
def withChild (node : Json) (step : Step) (child : Json) : Json :=
  match step, node with
  | .key name, object members => object (Entries.set name child members)
  | .index position, array items => array (items.set position child)
  | _, node => node

theorem child?_withChild_self {node : Json} {step : Step} (child : Json)
    (hstep : (node.child? step).isSome) :
    (node.withChild step child).child? step = some child := by
  cases step with
  | key name =>
      cases node <;> simp_all [child?, get?, withChild]
  | index position =>
      cases node <;> simp_all [child?, item?, withChild]

theorem child?_withChild_of_ne {step other : Step} (node child : Json) (hne : other ≠ step) :
    (node.withChild step child).child? other = node.child? other := by
  cases step with
  | key name =>
      cases node with
      | object members =>
          cases other with
          | key otherName =>
              have hname : otherName ≠ name := fun h => hne (by rw [h])
              simpa [child?, get?, withChild] using Entries.get?_set_of_ne members child hname
          | index position => rfl
      | _ => rfl
  | index position =>
      cases node with
      | array items =>
          cases other with
          | key name => rfl
          | index otherPosition =>
              have hposition : position ≠ otherPosition := fun h => hne (by rw [h])
              simp [child?, item?, withChild, List.getElem?_set_ne hposition]
      | _ => rfl

theorem withChild_self {node child : Json} {step : Step} (hchild : node.child? step = some child) :
    node.withChild step child = node := by
  cases step with
  | key name =>
      cases node with
      | object members =>
          have hget : Entries.get? name members = some child := hchild
          simp [withChild, Entries.set_self hget]
      | _ => rfl
  | index position =>
      cases node with
      | array items =>
          obtain ⟨hlt, rfl⟩ := List.getElem?_eq_some_iff.mp hchild
          simp [withChild]
      | _ => rfl

/-- A step to a child that is there leads the write into the child and changes nothing else. -/
theorem write_cons_of_child {step : Step} {rest : List Step} {node child : Json} (value : Json)
    (hchild : node.child? step = some child) :
    write value (step :: rest) node =
      (node.withChild step (write value rest child).1, (write value rest child).2) := by
  cases step with
  | key name =>
      cases node with
      | object members =>
          have hget : Entries.get? name members = some child := hchild
          simp [write, membersForWriting?, withChild, hget]
      | _ => simp [child?, get?] at hchild
  | index position =>
      cases node with
      | array items =>
          have hitem : items[position]? = some child := hchild
          obtain ⟨hlt, -⟩ := List.getElem?_eq_some_iff.mp hitem
          have hwithin : ¬ (array items).arrayLength + widestGap < position := by
            simp only [arrayLength, items?, Option.getD_some]
            omega
          have hpad : padTo position items = items := by
            simp [padTo, Nat.sub_eq_zero_of_le hlt]
          simp [write, itemsForWriting?, withChild, hwithin, hpad, hitem]
      | _ => simp [child?, item?] at hchild

/-- A write below a node that is there is a write into the node, put in the place of the node. -/
theorem write_append {steps : List Step} {document node : Json} (more : List Step) (value : Json)
    (hnode : document.follow? steps = some node) :
    write value (steps ++ more) document =
      ((write (write value more node).1 steps document).1, (write value more node).2) := by
  induction steps generalizing document with
  | nil =>
      obtain rfl : document = node := by simpa [follow?] using hnode
      rfl
  | cons step rest ih =>
      obtain ⟨child, hchild, hrest⟩ := Option.bind_eq_some_iff.mp hnode
      rw [List.cons_append, write_cons_of_child value hchild, ih hrest,
        write_cons_of_child _ hchild]

/-- A node written in its own place changes nothing. -/
theorem write_self {steps : List Step} {document node : Json}
    (hnode : document.follow? steps = some node) :
    (write node steps document).1 = document := by
  induction steps generalizing document with
  | nil =>
      obtain rfl : document = node := by simpa [follow?] using hnode
      rfl
  | cons step rest ih =>
      obtain ⟨child, hchild, hrest⟩ := Option.bind_eq_some_iff.mp hnode
      rw [write_cons_of_child node hchild, ih hrest, withChild_self hchild]

/-- What is written in the place of a node that is there is found in that place. -/
theorem follow?_write_self {steps : List Step} {document : Json} (value : Json)
    (hexists : (document.follow? steps).isSome) :
    (write value steps document).1.follow? steps = some value := by
  induction steps generalizing document with
  | nil => rfl
  | cons step rest ih =>
      obtain ⟨node, hnode⟩ := Option.isSome_iff_exists.mp hexists
      obtain ⟨child, hchild, hrest⟩ := Option.bind_eq_some_iff.mp hnode
      rw [write_cons_of_child value hchild, follow?,
        child?_withChild_self _ (by simp [hchild])]
      exact ih (by simp [hrest])

/-- A write in the place of a node that is there changes no node apart from it. -/
theorem follow?_write_of_apart {steps other : List Step} {document : Json} (value : Json)
    (hexists : (document.follow? steps).isSome) (hapart : Step.Apart steps other) :
    (write value steps document).1.follow? other = document.follow? other := by
  induction steps generalizing document other with
  | nil => exact absurd hapart (Step.not_apart_nil_left other)
  | cons step rest ih =>
      cases other with
      | nil => exact absurd hapart (Step.not_apart_nil_right _)
      | cons otherStep otherRest =>
          obtain ⟨node, hnode⟩ := Option.isSome_iff_exists.mp hexists
          obtain ⟨child, hchild, hrest⟩ := Option.bind_eq_some_iff.mp hnode
          rw [write_cons_of_child value hchild, follow?, follow?]
          by_cases hstep : otherStep = step
          · subst hstep
            have hbelow : Step.Apart rest otherRest := by
              simpa using Step.apart_cons_iff.mp hapart
            rw [child?_withChild_self _ (by simp [hchild]), hchild]
            exact ih (by simp [hrest]) hbelow
          · simp only [child?_withChild_of_ne document _ hstep]

/-- One document has a node at a position, and is the same as another apart from that position. -/
structure Replaces (steps : List Step) (node before after : Json) : Prop where
  inside : after.follow? steps = some node
  outside : ∀ other, Step.Apart steps other → after.follow? other = before.follow? other

theorem replaces_write {steps : List Step} {document : Json} (value : Json)
    (hexists : (document.follow? steps).isSome) :
    Replaces steps value document (write value steps document).1 :=
  ⟨follow?_write_self value hexists, fun _ => follow?_write_of_apart value hexists⟩

end Json

end DecisionTables
