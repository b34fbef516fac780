import DecisionTables.Call.Result
import Mathlib

/-!
# The configured form of result values

A configured result is an escaped text, a call, or a value that stands for itself, and no value is
two of these.  Writing puts a mark before every text that begins with one, so what is fixed is
written as an escaped text or as itself, and is never taken for a call.
-/

namespace DecisionTables

namespace ResultValue

/-- The result that a configured value stands for. -/
inductive IsConfigured : Json → ResultValue → Prop where
  | escaped (rest : List Char) :
      IsConfigured (.string (String.ofList ('#' :: '#' :: rest)))
        (fixed (.string (String.ofList ('#' :: rest))))
  | call {source : String} {c : Call} (hlike : looksLikeCall source.toList = true)
      (hparse : Call.parse source = .ok c) : IsConfigured (.string source) (computed source c)
  | itself {value : Json}
      (hplain : ∀ text, value = .string text →
        ¬ ['#', '#'] <+: text.toList ∧ looksLikeCall text.toList = false) :
      IsConfigured value (fixed value)

theorem looksLikeCall_escaped (rest : List Char) :
    looksLikeCall ('#' :: '#' :: rest) = false := by
  have hmark : Call.isNameChar '#' = false := by decide
  simp [looksLikeCall, hmark]

theorem looksLikeCall_of_head?_ne {cs : List Char} (hhead : cs.head? ≠ some '#') :
    looksLikeCall cs = false := by
  unfold looksLikeCall
  split
  · simp at hhead
  · rfl

/-- A text that is not escaped is a call if it looks like one. -/
theorem ofJson_unescaped {text : String} (hunescaped : ¬ ['#', '#'] <+: text.toList) :
    ofJson (.string text) =
      if looksLikeCall text.toList then (Call.parse text).map (computed text)
      else .ok (fixed (.string text)) := by
  unfold ofJson
  simp only
  split
  · rename_i rest heq
    rw [heq] at hunescaped
    exact absurd ⟨rest, rfl⟩ hunescaped
  · rfl

theorem ofJson_escaped (rest : List Char) :
    ofJson (.string (String.ofList ('#' :: '#' :: rest))) =
      .ok (fixed (.string (String.ofList ('#' :: rest)))) := by
  simp [ofJson]

theorem ofJson_eq_ok_iff {value : Json} {result : ResultValue} :
    ofJson value = .ok result ↔ IsConfigured value result := by
  constructor
  · intro hread
    cases value with
    | string text =>
        by_cases hescaped : ['#', '#'] <+: text.toList
        · obtain ⟨rest, htext⟩ := hescaped
          obtain rfl : String.ofList ('#' :: '#' :: rest) = text := by
            rw [← String.ofList_toList (s := text), ← htext]
            rfl
          rw [ofJson_escaped] at hread
          cases hread
          exact .escaped rest
        · rw [ofJson_unescaped hescaped] at hread
          split at hread
          · rename_i hlike
            cases hparse : Call.parse text with
            | error fault => simp [hparse, Except.map] at hread
            | ok c =>
                obtain rfl : computed text c = result := by
                  simpa [hparse, Except.map] using hread
                exact .call hlike hparse
          · rename_i hlike
            cases hread
            refine .itself fun other hother => ?_
            cases hother
            exact ⟨hescaped, by simpa using hlike⟩
    | _ =>
        cases hread
        exact .itself (by simp)
  · rintro (⟨rest⟩ | ⟨hlike, hparse⟩ | hplain)
    · exact ofJson_escaped rest
    · rename_i source c
      have hunescaped : ¬ ['#', '#'] <+: source.toList := by
        rintro ⟨rest, hsource⟩
        rw [← hsource] at hlike
        have hnone := looksLikeCall_escaped rest
        simp_all
      rw [ofJson_unescaped hunescaped, if_pos hlike, hparse]
      rfl
    · cases value with
      | string text =>
          obtain ⟨hunescaped, hlike⟩ := hplain text rfl
          rw [ofJson_unescaped hunescaped, hlike]
          rfl
      | _ => rfl

theorem toJson_fixed_marked (rest : List Char) :
    (fixed (.string (String.ofList ('#' :: rest)))).toJson =
      .string (String.ofList ('#' :: '#' :: rest)) := by
  have hmarked : "#" ++ String.ofList ('#' :: rest) = String.ofList ('#' :: '#' :: rest) := by
    rw [← String.toList_inj]
    simp
  simp only [toJson, String.toList_ofList, hmarked]

theorem toJson_fixed_unmarked {text : String} (hhead : text.toList.head? ≠ some '#') :
    (fixed (.string text)).toJson = .string text := by
  simp only [toJson]
  split
  · rename_i hcons
    simp [hcons] at hhead
  · rfl

theorem isConfigured_toJson_fixed (value : Json) :
    IsConfigured (fixed value).toJson (fixed value) := by
  cases value with
  | string text =>
      by_cases hhead : text.toList.head? = some '#'
      · obtain ⟨rest, htext⟩ := List.head?_eq_some_iff.mp hhead
        obtain rfl : String.ofList ('#' :: rest) = text := by
          rw [← htext, String.ofList_toList]
        rw [toJson_fixed_marked]
        exact .escaped rest
      · rw [toJson_fixed_unmarked hhead]
        refine .itself fun other hother => ?_
        cases hother
        refine ⟨?_, looksLikeCall_of_head?_ne hhead⟩
        rintro ⟨rest, htext⟩
        simp [← htext] at hhead
  | _ => exact .itself (by simp [toJson])

/--
Every fixed value is read back from its configured form as itself, and so is every result that was
read.  The source of a call is written as it was configured.
-/
theorem ofJson_written :
    (∀ value, ofJson (fixed value).toJson = .ok (fixed value)) ∧
    ∀ configured result, ofJson configured = .ok result →
      ofJson result.toJson = .ok result ∧
        ∀ c, result.call? = some c → result.toJson = configured := by
  have hfixed : ∀ value, ofJson (fixed value).toJson = .ok (fixed value) :=
    fun value => ofJson_eq_ok_iff.mpr (isConfigured_toJson_fixed value)
  refine ⟨hfixed, fun configured result hread => ?_⟩
  cases ofJson_eq_ok_iff.mp hread with
  | escaped rest => exact ⟨hfixed _, by simp [call?]⟩
  | call hlike hparse => exact ⟨hread, fun _ _ => rfl⟩
  | itself hplain => exact ⟨hfixed _, by simp [call?]⟩

theorem ofJson_written_identifier :
    let configured := Json.string "#Concat('##', #guid())"
    let result := computed "#Concat('##', #guid())"
      ⟨"concat", [.literal (.string "##"), .call "guid" []]⟩
    ofJson configured = .ok result ∧ ofJson result.toJson = .ok result ∧
      result.toJson = configured ∧
      ofJson (fixed configured).toJson = .ok (fixed configured) := by
  intro configured result
  obtain ⟨hfixed, hresults⟩ := ofJson_written
  have hread : ofJson configured = .ok result := by cbv
  obtain ⟨hagain, hsource⟩ := hresults configured result hread
  exact ⟨hread, hagain, hsource _ rfl, hfixed configured⟩

end ResultValue

end DecisionTables
