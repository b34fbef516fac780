import DecisionTables.Proofs.Json.Sameness
import DecisionTables.Table.Conflict
import Mathlib.Data.List.Induction

/-!
# Leaving out repeats

Joined arrays lose their repeats item by item: an item is left out if the items kept so far hold the
same one.  As sameness is an equivalence, this is to say that an item is left out just where an
earlier one is the same, kept or not, so that the first of every group of same items is kept.
-/

namespace DecisionTables.Table

/-- The items that no item before them is the same as. -/
def firstOccurrences (items : List Json) : List Json :=
  (items.zipIdx.filter fun entry => !(items.take entry.2).any entry.1.same).map Prod.fst

theorem withoutRepeats_append_singleton (items : List Json) (item : Json) :
    withoutRepeats (items ++ [item]) =
      if (withoutRepeats items).any item.same then withoutRepeats items
      else withoutRepeats items ++ [item] := by
  simp [withoutRepeats, List.foldl_append]

theorem firstOccurrences_append_singleton (items : List Json) (item : Json) :
    firstOccurrences (items ++ [item]) =
      if items.any item.same then firstOccurrences items
      else firstOccurrences items ++ [item] := by
  have hbefore : ∀ entry ∈ items.zipIdx, (items ++ [item]).take entry.2 = items.take entry.2 := by
    intro entry hentry
    have hlt : entry.2 < items.length := (List.mem_zipIdx' hentry).1
    exact List.take_append_of_le_length (Nat.le_of_lt hlt)
  have hfilter : items.zipIdx.filter
        (fun entry => !((items ++ [item]).take entry.2).any entry.1.same) =
      items.zipIdx.filter fun entry => !(items.take entry.2).any entry.1.same :=
    List.filter_congr fun entry hentry => by rw [hbefore entry hentry]
  unfold firstOccurrences
  rw [List.zipIdx_append, List.filter_append, List.map_append, hfilter]
  cases hrepeat : items.any item.same <;> simp [hrepeat]

/-- What is kept holds the same items as the whole list. -/
theorem any_withoutRepeats (items : List Json) (item : Json) :
    (withoutRepeats items).any item.same = items.any item.same := by
  induction items using List.reverseRecOn with
  | nil => rfl
  | append_singleton items last ih =>
      rw [withoutRepeats_append_singleton]
      split_ifs with hrepeat
      · have hlast : item.same last = true → items.any item.same = true := by
          intro hsame
          obtain ⟨first, hfirst, hfirstSame⟩ := List.any_eq_true.mp hrepeat
          rw [← ih]
          exact List.any_eq_true.mpr ⟨first, hfirst, Json.same_trans hsame hfirstSame⟩
        rw [ih, List.any_append]
        cases hitem : item.same last with
        | false => simp [hitem]
        | true => simp [hlast hitem]
      · rw [List.any_append, ih, List.any_append]

/-- What is kept of a list: the first of each group of same items, in the order of the list. -/
structure KeepsFirst (kept items : List Json) : Prop where
  eq_firstOccurrences : kept = firstOccurrences items
  sublist : kept.Sublist items
  different : kept.Pairwise fun first second => first.same second = false
  represents : ∀ item ∈ items, ∃ first ∈ kept, first.same item = true

theorem withoutRepeats_eq (items : List Json) : withoutRepeats items = firstOccurrences items := by
  induction items using List.reverseRecOn with
  | nil => rfl
  | append_singleton items item ih =>
      rw [withoutRepeats_append_singleton, firstOccurrences_append_singleton, any_withoutRepeats,
        ih]

theorem withoutRepeats_sublist (items : List Json) : (withoutRepeats items).Sublist items := by
  induction items using List.reverseRecOn with
  | nil => exact .slnil
  | append_singleton items item ih =>
      rw [withoutRepeats_append_singleton]
      split_ifs with hrepeat
      · exact ih.trans (List.sublist_append_left items [item])
      · exact ih.append (.refl [item])

theorem pairwise_withoutRepeats (items : List Json) :
    (withoutRepeats items).Pairwise fun first second => first.same second = false := by
  induction items using List.reverseRecOn with
  | nil => exact .nil
  | append_singleton items item ih =>
      rw [withoutRepeats_append_singleton]
      split_ifs with hrepeat
      · exact ih
      · refine List.pairwise_append.mpr ⟨ih, List.pairwise_singleton _ _, ?_⟩
        intro first hfirst second hsecond
        obtain rfl := List.mem_singleton.mp hsecond
        rw [Json.same_comm, Bool.eq_false_iff]
        exact fun hsame => hrepeat (List.any_eq_true.mpr ⟨first, hfirst, hsame⟩)

theorem keepsFirst_withoutRepeats (items : List Json) :
    KeepsFirst (withoutRepeats items) items where
  eq_firstOccurrences := withoutRepeats_eq items
  sublist := withoutRepeats_sublist items
  different := pairwise_withoutRepeats items
  represents := by
    intro item hitem
    have hany : items.any item.same = true :=
      List.any_eq_true.mpr ⟨item, hitem, Json.same_self item⟩
    rw [← any_withoutRepeats] at hany
    obtain ⟨first, hfirst, hsame⟩ := List.any_eq_true.mp hany
    exact ⟨first, hfirst, Json.same_comm item first ▸ hsame⟩

end DecisionTables.Table
