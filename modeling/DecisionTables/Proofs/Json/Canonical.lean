import DecisionTables.Json.Reader
import DecisionTables.Path.Writing
import DecisionTables.Proofs.Entries
import Mathlib.Tactic.SplitIfs

/-!
# Canonical values

Every value that is read is canonical: the members of an object are collected as entries, whatever
order and whichever repeated keys the text has.  The parts of a canonical value are canonical, and a
document stays canonical when a canonical value is written to it, also where the write makes new
nodes or stops on its way.
-/

namespace DecisionTables.Json

theorem canonicalItems_iff {items : List Json} :
    CanonicalItems items ↔ ∀ item ∈ items, item.Canonical := by
  induction items with
  | nil => simp [CanonicalItems]
  | cons item rest ih => simp [CanonicalItems, ih]

theorem canonicalMembers_iff {members : List (String × Json)} :
    CanonicalMembers members ↔ ∀ member ∈ members, member.2.Canonical := by
  induction members with
  | nil => simp [CanonicalMembers]
  | cons member rest ih => simp [CanonicalMembers, ih]

/-! ## Parts -/

theorem canonical_of_child? {node child : Json} {step : Step}
    (hcanonical : node.Canonical) (hchild : node.child? step = some child) :
    child.Canonical := by
  cases step with
  | key name =>
      cases node with
      | object members =>
          exact canonicalMembers_iff.mp hcanonical.2 _ (Entries.mem_of_get? hchild)
      | _ => simp [child?, get?] at hchild
  | index position =>
      cases node with
      | array items =>
          exact canonicalItems_iff.mp hcanonical _ (List.mem_of_getElem? hchild)
      | _ => simp [child?, item?] at hchild

theorem canonical_of_follow? {steps : List Step} {document node : Json}
    (hcanonical : document.Canonical) (hnode : document.follow? steps = some node) :
    node.Canonical := by
  induction steps generalizing document with
  | nil => simp_all [follow?]
  | cons step rest ih =>
      obtain ⟨child, hchild, hrest⟩ := Option.bind_eq_some_iff.mp hnode
      exact ih (canonical_of_child? hcanonical hchild) hrest

/-! ## Values that are read -/

theorem canonical_ofMembers {members : List (String × Json)}
    (hmembers : ∀ member ∈ members, member.2.Canonical) : (ofMembers members).Canonical := by
  refine ⟨Entries.sorted_ofPairs members, canonicalMembers_iff.mpr ?_⟩
  intro member hmember
  exact hmembers member (Entries.mem_of_mem_ofPairs hmember)

theorem exists_of_bind_eq_ok {ε α β : Type} {first : Except ε α} {next : α → Except ε β} {b : β}
    (hbind : first >>= next = .ok b) : ∃ a, first = .ok a ∧ next a = .ok b := by
  cases first with
  | error fault => contradiction
  | ok a => exact ⟨a, rfl, hbind⟩

theorem eq_of_readWordValue {word : List Char} {value found : Json} {cs : List Char}
    {rest : { rest : List Char // rest.length ≤ cs.length }}
    (hread : readWordValue word value cs = .ok (found, rest)) : found = value := by
  unfold readWordValue at hread
  split at hread
  · cases hread
    rfl
  · contradiction

mutual

theorem canonical_of_readValue {depth : Nat} {cs : List Char} {value : Json} {rest : Text.Rest cs}
    (hread : readValue depth cs = .ok (value, rest)) : value.Canonical := by
  rw [readValue] at hread
  split at hread
  case h_1 => contradiction
  case h_2 first after hafter _ =>
    by_cases hnull : first = 'n'
    · rw [if_pos hnull] at hread
      obtain ⟨⟨found, _⟩, hfound, hvalue⟩ := exists_of_bind_eq_ok hread
      cases hvalue
      rw [eq_of_readWordValue hfound]
      trivial
    rw [if_neg hnull] at hread
    by_cases htrue : first = 't'
    · rw [if_pos htrue] at hread
      obtain ⟨⟨found, _⟩, hfound, hvalue⟩ := exists_of_bind_eq_ok hread
      cases hvalue
      rw [eq_of_readWordValue hfound]
      trivial
    rw [if_neg htrue] at hread
    by_cases hfalse : first = 'f'
    · rw [if_pos hfalse] at hread
      obtain ⟨⟨found, _⟩, hfound, hvalue⟩ := exists_of_bind_eq_ok hread
      cases hvalue
      rw [eq_of_readWordValue hfound]
      trivial
    rw [if_neg hfalse] at hread
    by_cases hstring : first = '"'
    · rw [if_pos hstring] at hread
      obtain ⟨_, -, hvalue⟩ := exists_of_bind_eq_ok hread
      cases hvalue
      trivial
    rw [if_neg hstring] at hread
    by_cases hminus : first = '-'
    · rw [if_pos hminus] at hread
      obtain ⟨_, -, hvalue⟩ := exists_of_bind_eq_ok hread
      cases hvalue
      trivial
    rw [if_neg hminus] at hread
    by_cases hdigit : first.isDigit
    · rw [if_pos hdigit] at hread
      obtain ⟨_, -, hvalue⟩ := exists_of_bind_eq_ok hread
      cases hvalue
      trivial
    rw [if_neg hdigit] at hread
    by_cases harray : first = '['
    · rw [if_pos harray] at hread
      split at hread
      · contradiction
      · obtain ⟨⟨items, _⟩, hitems, hvalue⟩ := exists_of_bind_eq_ok hread
        cases hvalue
        exact canonicalItems_iff.mpr (canonical_of_readItems hitems)
    rw [if_neg harray] at hread
    by_cases hobject : first = '\x7b'
    · rw [if_pos hobject] at hread
      split at hread
      · contradiction
      · obtain ⟨⟨members, _⟩, hmembers, hvalue⟩ := exists_of_bind_eq_ok hread
        cases hvalue
        exact canonical_ofMembers (canonical_of_readMembers hmembers)
    rw [if_neg hobject] at hread
    contradiction
termination_by 3 * cs.length

theorem canonical_of_readItems {depth : Nat} {cs : List Char} {items : List Json}
    {rest : Text.Rest cs} (hread : readItems depth cs = .ok (items, rest)) :
    ∀ item ∈ items, item.Canonical := by
  rw [readItems] at hread
  split at hread
  · cases hread
    simp
  · exact canonical_of_readMoreItems hread
termination_by 3 * cs.length + 2

theorem canonical_of_readMoreItems {depth : Nat} {cs : List Char} {items : List Json}
    {rest : Text.Rest cs} (hread : readMoreItems depth cs = .ok (items, rest)) :
    ∀ item ∈ items, item.Canonical := by
  rw [readMoreItems] at hread
  obtain ⟨⟨item, afterItem, hafterItem⟩, hitem, hnext⟩ := exists_of_bind_eq_ok hread
  have hcanonical := canonical_of_readValue hitem
  dsimp only at hnext
  split at hnext
  case h_1 => contradiction
  case h_2 c after hafter _ =>
    split_ifs at hnext
    case pos =>
      cases hnext
      simpa using hcanonical
    case pos =>
      obtain ⟨⟨more, _⟩, hmore, hitems⟩ := exists_of_bind_eq_ok hnext
      cases hitems
      exact List.forall_mem_cons.mpr ⟨hcanonical, canonical_of_readMoreItems hmore⟩
termination_by 3 * cs.length + 1

theorem canonical_of_readMembers {depth : Nat} {cs : List Char} {members : List (String × Json)}
    {rest : Text.Rest cs} (hread : readMembers depth cs = .ok (members, rest)) :
    ∀ member ∈ members, member.2.Canonical := by
  rw [readMembers] at hread
  split at hread
  · cases hread
    simp
  · exact canonical_of_readMoreMembers hread
termination_by 3 * cs.length + 2

theorem canonical_of_readMoreMembers {depth : Nat} {cs : List Char}
    {members : List (String × Json)} {rest : Text.Rest cs}
    (hread : readMoreMembers depth cs = .ok (members, rest)) :
    ∀ member ∈ members, member.2.Canonical := by
  rw [readMoreMembers] at hread
  obtain ⟨⟨key, afterKey, hafterKey⟩, -, hvalue⟩ := exists_of_bind_eq_ok hread
  obtain ⟨⟨value, afterValue, hafterValue⟩, hvalue, hnext⟩ := exists_of_bind_eq_ok hvalue
  have hcanonical := canonical_of_readValue hvalue
  dsimp only at hnext
  split at hnext
  case h_1 => contradiction
  case h_2 c after hafter _ =>
    split_ifs at hnext
    case pos =>
      cases hnext
      simpa using hcanonical
    case pos =>
      obtain ⟨⟨more, _⟩, hmore, hmembers⟩ := exists_of_bind_eq_ok hnext
      cases hmembers
      exact List.forall_mem_cons.mpr ⟨hcanonical, canonical_of_readMoreMembers hmore⟩
termination_by 3 * cs.length + 1

end

theorem canonical_of_read {text : String} {value : Json} (hread : read text = .ok value) :
    value.Canonical := by
  obtain ⟨⟨found, rest⟩, hfound, hvalue⟩ := exists_of_bind_eq_ok hread
  dsimp only at hvalue
  split_ifs at hvalue
  cases hvalue
  exact canonical_of_readValue hfound

/-! ## Values that are written -/

theorem canonical_of_membersForWriting? {node : Json} {members : List (String × Json)}
    (hnode : node.Canonical) (hmembers : node.membersForWriting? = some members) :
    (object members).Canonical := by
  cases node with
  | null =>
      obtain rfl : [] = members := by simpa [membersForWriting?] using hmembers
      exact ⟨.nil, trivial⟩
  | object own =>
      obtain rfl : own = members := by simpa [membersForWriting?] using hmembers
      exact hnode
  | _ => contradiction

theorem canonical_of_itemsForWriting? {node : Json} {items : List Json}
    (hnode : node.Canonical) (hitems : node.itemsForWriting? = some items) :
    (array items).Canonical := by
  cases node with
  | null =>
      obtain rfl : [] = items := by simpa [itemsForWriting?] using hitems
      trivial
  | array own =>
      obtain rfl : own = items := by simpa [itemsForWriting?] using hitems
      exact hnode
  | _ => contradiction

theorem canonical_object_set {members : List (String × Json)} {child : Json} (name : String)
    (hmembers : (object members).Canonical) (hchild : child.Canonical) :
    (object (Entries.set name child members)).Canonical := by
  refine ⟨hmembers.1.set, canonicalMembers_iff.mpr ?_⟩
  intro member hmember
  rcases Entries.mem_of_mem_set hmember with rfl | hold
  · exact hchild
  · exact canonicalMembers_iff.mp hmembers.2 member hold

theorem canonical_array_set {items : List Json} {child : Json} (position : Nat)
    (hitems : (array items).Canonical) (hchild : child.Canonical) :
    (array ((padTo position items).set position child)).Canonical := by
  refine canonicalItems_iff.mpr ?_
  intro item hitem
  rcases List.mem_or_eq_of_mem_set hitem with hpadded | rfl
  · rcases List.mem_append.mp hpadded with hold | hpad
    · exact canonicalItems_iff.mp hitems item hold
    · rw [List.eq_of_mem_replicate hpad]
      trivial
  · exact hchild

/-- A write leaves a canonical document, whether it reaches its target or not. -/
theorem canonical_write {value node : Json} (steps : List Step) (hvalue : value.Canonical)
    (hnode : node.Canonical) : (write value steps node).1.Canonical := by
  induction steps generalizing node with
  | nil => exact hvalue
  | cons step rest ih =>
      cases step with
      | key name =>
          cases hmembers : node.membersForWriting? with
          | none => simpa [write, hmembers] using hnode
          | some members =>
              have hobject := canonical_of_membersForWriting? hnode hmembers
              have hchild : ((Entries.get? name members).getD null).Canonical := by
                cases hget : Entries.get? name members with
                | none => trivial
                | some child => exact canonicalMembers_iff.mp hobject.2 _ (Entries.mem_of_get? hget)
              simpa [write, hmembers] using canonical_object_set name hobject (ih hchild)
      | index position =>
          by_cases hfar : node.arrayLength + widestGap < position
          · simpa [write, hfar] using hnode
          · cases hitems : node.itemsForWriting? with
            | none => simpa [write, hfar, hitems] using hnode
            | some items =>
                have harray := canonical_of_itemsForWriting? hnode hitems
                have hchild : (items[position]?.getD null).Canonical := by
                  cases hitem : items[position]? with
                  | none => trivial
                  | some child =>
                      exact canonicalItems_iff.mp harray _ (List.mem_of_getElem? hitem)
                simpa [write, hfar, hitems] using canonical_array_set position harray (ih hchild)

end DecisionTables.Json
