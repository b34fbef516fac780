import DecisionTables.Definition.Defect
import Mathlib.Data.List.Forall2

/-!
# Values and defects of readings

A reading comes to a value and to the defects found on the way.  Readings one after another join
their defects, so that a whole is without a defect just where each of its parts is.
-/

namespace DecisionTables.Reading

variable {α β : Type}

theorem pure_bind (a : α) (next : α → Reading β) : pure a >>= next = next a :=
  rfl

@[simp] theorem value_pure (a : α) : (pure a : Reading α).value = a := rfl

@[simp] theorem defects_pure (a : α) : (pure a : Reading α).defects = [] := rfl

@[simp] theorem value_bind (first : Reading α) (next : α → Reading β) :
    (first >>= next).value = (next first.value).value := rfl

@[simp] theorem defects_bind (first : Reading α) (next : α → Reading β) :
    (first >>= next).defects = first.defects ++ (next first.value).defects := rfl

@[simp] theorem value_report (defect : Defect) (a : α) : (report defect a).value = a := rfl

@[simp] theorem defects_report (defect : Defect) (a : α) :
    (report defect a).defects = [defect] := rfl

@[simp] theorem value_all (readings : List (Reading α)) :
    (all readings).value = readings.map value := rfl

@[simp] theorem defects_all (readings : List (Reading α)) :
    (all readings).defects = readings.flatMap defects := rfl

theorem defects_all_cons_eq_nil_iff {first : Reading α} {rest : List (Reading α)} :
    (all (first :: rest)).defects = [] ↔ first.defects = [] ∧ (all rest).defects = [] := by
  simp

theorem forall₂_value_of_all {R : α → β → Prop} {read : α → Reading β} {items : List α}
    (hread : ∀ item ∈ items, (read item).defects = [] → R item (read item).value)
    (hdefects : (all (items.map read)).defects = []) :
    List.Forall₂ R items (all (items.map read)).value := by
  induction items with
  | nil => exact .nil
  | cons item rest ih =>
      obtain ⟨hitem, hrest⟩ := defects_all_cons_eq_nil_iff.mp hdefects
      obtain ⟨hhead, htail⟩ := List.forall_mem_cons.mp hread
      exact .cons (hhead hitem) (ih htail hrest)

theorem forall₂_filterMap_of_all {R : α → β → Prop} {read : α → Reading (Option β)}
    {items : List α}
    (hread : ∀ item ∈ items, (read item).defects = [] →
      ∃ b, (read item).value = some b ∧ R item b)
    (hdefects : (all (items.map read)).defects = []) :
    List.Forall₂ R items ((all (items.map read)).value.filterMap id) := by
  induction items with
  | nil => exact .nil
  | cons item rest ih =>
      obtain ⟨hitem, hrest⟩ := defects_all_cons_eq_nil_iff.mp hdefects
      obtain ⟨hhead, htail⟩ := List.forall_mem_cons.mp hread
      obtain ⟨b, hvalue, hb⟩ := hhead hitem
      have hall := List.Forall₂.cons hb (ih htail hrest)
      simpa [hvalue] using hall

end DecisionTables.Reading
