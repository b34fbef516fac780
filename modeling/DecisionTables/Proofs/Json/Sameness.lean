import DecisionTables.Json.Basic

/-!
# Structural equality of values

Values are the same where they have the same shape and the same leaves, so sameness relates values
as equality does: whatever two values are the same as one are the same as each other.
-/

namespace DecisionTables

@[simp] theorem Number.same_self (n : Number) : n.same n = true := by
  cases n <;> simp [same, Binary64.sameValue]

theorem Number.same_comm (m n : Number) : m.same n = n.same m := by
  cases m <;> cases n <;> simp [same, Binary64.sameValue, Bool.beq_comm]

theorem Number.same_trans {m n k : Number} (hmn : m.same n = true) (hnk : n.same k = true) :
    m.same k = true := by
  cases m <;> cases n <;> cases k <;> simp_all [same, Binary64.sameValue]

namespace Json

mutual

@[simp] theorem same_self : ∀ value : Json, value.same value = true
  | null => rfl
  | bool _ => by simp [same]
  | number n => by simp [same]
  | string _ => by simp [same]
  | array items => by rw [same, sameItems_self items]
  | object members => by rw [same, sameMembers_self members]

theorem sameItems_self : ∀ items : List Json, sameItems items items = true
  | [] => rfl
  | item :: rest => by simp [sameItems, same_self item, sameItems_self rest]

theorem sameMembers_self : ∀ members : List (String × Json), sameMembers members members = true
  | [] => rfl
  | (_, value) :: rest => by simp [sameMembers, same_self value, sameMembers_self rest]

end

mutual

theorem same_comm : ∀ value other : Json, value.same other = other.same value
  | null, other => by cases other <;> rfl
  | bool a, other => by cases other <;> simp [same, Bool.beq_comm]
  | number m, other => by cases other <;> simp [same, Number.same_comm m]
  | string a, other => by cases other <;> simp [same, Bool.beq_comm]
  | array items, other => by cases other <;> simp [same, sameItems_comm items]
  | object members, other => by cases other <;> simp [same, sameMembers_comm members]

theorem sameItems_comm : ∀ items others : List Json, sameItems items others = sameItems others items
  | [], [] => rfl
  | [], _ :: _ => rfl
  | _ :: _, [] => rfl
  | item :: rest, other :: others => by
      simp [sameItems, same_comm item other, sameItems_comm rest others]

theorem sameMembers_comm : ∀ members others : List (String × Json),
    sameMembers members others = sameMembers others members
  | [], [] => rfl
  | [], _ :: _ => rfl
  | _ :: _, [] => rfl
  | (key, value) :: rest, (other, otherValue) :: others => by
      simp [sameMembers, same_comm value otherValue, sameMembers_comm rest others, Bool.beq_comm]

end

mutual

theorem same_trans : ∀ {value other third : Json}, value.same other = true →
    other.same third = true → value.same third = true
  | null, other, third, hfirst, hsecond => by cases other <;> cases third <;> simp_all [same]
  | bool _, other, third, hfirst, hsecond => by cases other <;> cases third <;> simp_all [same]
  | number m, other, third, hfirst, hsecond => by
      cases other <;> cases third <;> simp_all [same]
      exact Number.same_trans hfirst hsecond
  | string _, other, third, hfirst, hsecond => by cases other <;> cases third <;> simp_all [same]
  | array items, other, third, hfirst, hsecond => by
      cases other <;> cases third <;> simp_all [same]
      exact sameItems_trans hfirst hsecond
  | object members, other, third, hfirst, hsecond => by
      cases other <;> cases third <;> simp_all [same]
      exact sameMembers_trans hfirst hsecond

theorem sameItems_trans : ∀ {items others thirds : List Json}, sameItems items others = true →
    sameItems others thirds = true → sameItems items thirds = true
  | [], [], [], _, _ => rfl
  | item :: rest, other :: others, third :: thirds, hfirst, hsecond => by
      simp only [sameItems, Bool.and_eq_true] at hfirst hsecond ⊢
      exact ⟨same_trans hfirst.1 hsecond.1, sameItems_trans hfirst.2 hsecond.2⟩

theorem sameMembers_trans : ∀ {members others thirds : List (String × Json)},
    sameMembers members others = true → sameMembers others thirds = true →
    sameMembers members thirds = true
  | [], [], [], _, _ => rfl
  | (_, value) :: rest, (_, other) :: others, (_, third) :: thirds, hfirst, hsecond => by
      simp only [sameMembers, Bool.and_eq_true, beq_iff_eq] at hfirst hsecond ⊢
      exact ⟨⟨hfirst.1.1.trans hsecond.1.1, same_trans hfirst.1.2 hsecond.1.2⟩,
        sameMembers_trans hfirst.2 hsecond.2⟩

end

end Json

end DecisionTables
