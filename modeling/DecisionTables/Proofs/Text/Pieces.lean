import DecisionTables.Text.Basic
import Mathlib.Data.List.Infix

/-!
# Parts of a text

The pieces of a text between separators are those of the list of its characters.  A part that is
found for the first time leaves at least as much of the text behind it as any other occurrence does.
-/

namespace DecisionTables.Text

theorem splitAt_eq_splitOn (separator : Char) (cs : List Char) :
    splitAt separator cs = cs.splitOn separator := by
  induction cs with
  | nil => rfl
  | cons c cs ih =>
      rw [List.splitOn_cons_eq_if_modifyHead, splitAt, ih]
      by_cases hc : c = separator
      · simp [hc]
      · cases hpieces : cs.splitOn separator with
        | nil => exact absurd hpieces (List.splitOn_ne_nil separator cs)
        | cons piece rest => simp [hc]

theorem after?_eq_some_iff {part cs rest : List Char} :
    after? part cs = some rest ↔ cs = part ++ rest := by
  induction part generalizing cs with
  | nil => simp [after?]
  | cons p part ih =>
      cases cs with
      | nil => simp [after?]
      | cons c cs =>
          by_cases hc : p = c
          · simp [after?, hc, ih]
          · simp [after?, hc, Ne.symm hc]

theorem exists_before_of_afterFirst? {part cs rest : List Char}
    (hfirst : afterFirst? part cs = some rest) : ∃ before, cs = before ++ (part ++ rest) := by
  induction cs with
  | nil =>
      have hsplit := after?_eq_some_iff.mp hfirst
      exact ⟨[], hsplit⟩
  | cons c cs ih =>
      cases hafter : after? part (c :: cs) with
      | some found =>
          have hrest : found = rest := by simpa [afterFirst?, hafter] using hfirst
          have hsplit := after?_eq_some_iff.mp hafter
          rw [hrest] at hsplit
          exact ⟨[], hsplit⟩
      | none =>
          rcases ih (by simpa [afterFirst?, hafter] using hfirst) with ⟨before, hbefore⟩
          exact ⟨c :: before, by rw [hbefore, List.cons_append]⟩

/-- What stands behind any occurrence of a part stands behind the first one. -/
theorem suffix_of_afterFirst? (before part tail : List Char) :
    ∃ rest, afterFirst? part (before ++ (part ++ tail)) = some rest ∧ tail <:+ rest := by
  induction before with
  | nil =>
      have hafter : after? part (part ++ tail) = some tail := after?_eq_some_iff.mpr rfl
      refine ⟨tail, ?_, List.suffix_rfl⟩
      cases hcs : part ++ tail with
      | nil => rwa [hcs] at hafter
      | cons c cs =>
          rw [hcs] at hafter
          simp [afterFirst?, hafter]
  | cons b before ih =>
      cases hafter : after? part (b :: (before ++ (part ++ tail))) with
      | none =>
          rcases ih with ⟨rest, hfirst, hsuffix⟩
          exact ⟨rest, by simpa [afterFirst?, hafter] using hfirst, hsuffix⟩
      | some rest =>
          have hsplit := after?_eq_some_iff.mp hafter
          have hlonger : tail.length ≤ rest.length := by
            have hlength := congrArg List.length hsplit
            simp only [List.length_cons, List.length_append] at hlength
            omega
          have htail : tail <:+ b :: (before ++ (part ++ tail)) :=
            ⟨b :: (before ++ part), by simp⟩
          have hrest : rest <:+ b :: (before ++ (part ++ tail)) := ⟨part, hsplit.symm⟩
          exact ⟨rest, by simp [afterFirst?, hafter],
            List.suffix_of_suffix_length_le htail hrest hlonger⟩

end DecisionTables.Text
