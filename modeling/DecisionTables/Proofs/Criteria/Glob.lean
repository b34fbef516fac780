import DecisionTables.Criteria.Glob
import DecisionTables.Proofs.Text.Pieces

/-!
# Matching wildcard patterns

Every piece of a pattern is taken where it first occurs, and no choice is ever undone.  That misses
no match: what stands behind the first occurrence of a piece ends with what stands behind any other
one, and the star before the next piece stands for the difference.  So a text matches a pattern just
where some texts in the places of the stars make it up from the pieces.

A pattern and a text can also be compared from left to right, where a star takes in any number of
characters.  This is the form in which a match is followed through a change of its characters.
-/

namespace DecisionTables.Glob

/-- The pieces in order, each behind the text that stands for the star before it. -/
def weave (fills pieces : List (List Char)) : List Char :=
  (List.zipWith (· ++ ·) fills pieces).flatten

@[simp] theorem weave_nil (fills : List (List Char)) : weave fills [] = [] := by
  simp [weave]

@[simp] theorem weave_cons (fill piece : List Char) (fills pieces : List (List Char)) :
    weave (fill :: fills) (piece :: pieces) = fill ++ (piece ++ weave fills pieces) := by
  simp [weave]

/-- The first star takes in whatever more stands before a match. -/
theorem exists_weave_append {fills pieces : List (List Char)} (more : List Char)
    (hne : pieces ≠ []) (hlength : fills.length = pieces.length) :
    ∃ longer, longer.length = pieces.length ∧ weave longer pieces = more ++ weave fills pieces := by
  cases pieces with
  | nil => contradiction
  | cons piece pieces =>
      cases fills with
      | nil => simp at hlength
      | cons fill fills => exact ⟨(more ++ fill) :: fills, hlength, by simp⟩

/-- The search for the first occurrences finds a match where there is one. -/
theorem matchPieces_iff {pieces : List (List Char)} {cs : List Char} :
    matchPieces pieces cs = true ↔
      ∃ fills, fills.length = pieces.length ∧ cs = weave fills pieces := by
  induction pieces generalizing cs with
  | nil => simp [matchPieces]
  | cons piece rest ih =>
      cases rest with
      | nil =>
          rw [matchPieces, List.isSuffixOf_iff_suffix]
          constructor
          · rintro ⟨fill, rfl⟩
            exact ⟨[fill], rfl, by simp⟩
          · rintro ⟨fills, hlength, rfl⟩
            cases fills with
            | nil => simp at hlength
            | cons fill fills => exact ⟨fill, by simp⟩
      | cons next rest =>
          constructor
          · intro hmatch
            cases hfirst : Text.afterFirst? piece cs with
            | none => simp [matchPieces, hfirst] at hmatch
            | some remaining =>
                have hrest : matchPieces (next :: rest) remaining = true := by
                  simpa [matchPieces, hfirst] using hmatch
                rcases ih.mp hrest with ⟨fills, hlength, hremaining⟩
                rcases Text.exists_before_of_afterFirst? hfirst with ⟨fill, hcs⟩
                refine ⟨fill :: fills, by simp [hlength], ?_⟩
                rw [hcs, hremaining, weave_cons]
          · rintro ⟨fills, hlength, rfl⟩
            cases fills with
            | nil => simp at hlength
            | cons fill fills =>
                have htail : fills.length = (next :: rest).length := by simpa using hlength
                rcases Text.suffix_of_afterFirst? fill piece (weave fills (next :: rest)) with
                  ⟨remaining, hfirst, more, hremaining⟩
                rcases exists_weave_append more (by simp) htail with ⟨longer, hlonger, hweave⟩
                simp only [weave_cons, matchPieces, hfirst]
                exact ih.mpr ⟨longer, hlonger, by rw [hweave, hremaining]⟩

theorem matchExactly_iff {pattern text : List Char} :
    matchExactly pattern text = true ↔
      ∃ first rest fills, pattern.splitOn '*' = first :: rest ∧ fills.length = rest.length ∧
        text = first ++ weave fills rest := by
  rw [matchExactly, Text.splitAt_eq_splitOn]
  cases hpieces : pattern.splitOn '*' with
  | nil => exact absurd hpieces (List.splitOn_ne_nil '*' pattern)
  | cons first rest =>
      constructor
      · intro hmatch
        cases hafter : Text.after? first text with
        | none => simp [hafter] at hmatch
        | some remaining =>
            rcases matchPieces_iff.mp (by simpa [hafter] using hmatch) with
              ⟨fills, hlength, hremaining⟩
            refine ⟨first, rest, fills, rfl, hlength, ?_⟩
            rw [← hremaining]
            exact Text.after?_eq_some_iff.mp hafter
      · rintro ⟨_, _, fills, hsplit, hlength, rfl⟩
        obtain ⟨rfl, rfl⟩ := List.cons.inj hsplit
        have hafter : Text.after? first (first ++ weave fills rest) = some (weave fills rest) :=
          Text.after?_eq_some_iff.mpr rfl
        simp only [hafter]
        exact matchPieces_iff.mpr ⟨fills, hlength, rfl⟩

/-- A text matches just where texts in the places of the stars make it up from the pieces. -/
theorem fits_iff_exists_fills (pattern text : String) :
    fits pattern text true = true ↔
      ∃ first rest fills, pattern.toList.splitOn '*' = first :: rest ∧
        fills.length = rest.length ∧ text.toList = first ++ weave fills rest :=
  matchExactly_iff

/-- The two ends of a pattern do not overlap in the text. -/
example : fits "aba*ab" "abab" true = false := by decide

/-! ## From left to right -/

/-- A pattern covers a text character by character, where a star takes in any number of them. -/
inductive Covers : List Char → List Char → Prop where
  | nothing : Covers [] []
  | same (c : Char) {pattern text : List Char} (hrest : Covers pattern text) :
      Covers (c :: pattern) (c :: text)
  | pass {pattern text : List Char} (hrest : Covers pattern text) : Covers ('*' :: pattern) text
  | take (c : Char) {pattern text : List Char} (hrest : Covers ('*' :: pattern) text) :
      Covers ('*' :: pattern) (c :: text)

theorem Covers.takeAll {pattern text : List Char} (hrest : Covers ('*' :: pattern) text)
    (more : List Char) : Covers ('*' :: pattern) (more ++ text) := by
  induction more with
  | nil => exact hrest
  | cons c more ih => exact .take c ih

theorem covers_of_weave {pattern first : List Char} {rest fills : List (List Char)}
    (hpieces : pattern.splitOn '*' = first :: rest) (hlength : fills.length = rest.length) :
    Covers pattern (first ++ weave fills rest) := by
  induction pattern generalizing first rest fills with
  | nil =>
      obtain ⟨rfl, rfl⟩ : [] = first ∧ [] = rest := by simpa using hpieces
      simpa using Covers.nothing
  | cons c pattern ih =>
      rw [List.splitOn_cons_eq_if_modifyHead] at hpieces
      cases hsplit : pattern.splitOn '*' with
      | nil => exact absurd hsplit (List.splitOn_ne_nil '*' pattern)
      | cons piece pieces =>
          rw [hsplit] at hpieces
          by_cases hc : c = '*'
          · obtain ⟨rfl, rfl⟩ : [] = first ∧ piece :: pieces = rest := by simpa [hc] using hpieces
            cases fills with
            | nil => simp at hlength
            | cons fill fills =>
                have hcovers := ih hsplit (by simpa using hlength)
                rw [hc, List.nil_append, weave_cons]
                exact (Covers.pass hcovers).takeAll fill
          · obtain ⟨rfl, rfl⟩ : c :: piece = first ∧ pieces = rest := by simpa [hc] using hpieces
            exact .same c (ih hsplit hlength)

theorem exists_weave_of_covers {pattern text : List Char} (hcovers : Covers pattern text) :
    ∃ first rest fills, pattern.splitOn '*' = first :: rest ∧ fills.length = rest.length ∧
      text = first ++ weave fills rest := by
  induction hcovers with
  | nothing => exact ⟨[], [], [], by simp⟩
  | same c _ ih =>
      rcases ih with ⟨first, rest, fills, hsplit, hlength, rfl⟩
      rw [List.splitOn_cons_eq_if_modifyHead, hsplit]
      by_cases hc : c = '*'
      · exact ⟨[], first :: rest, [c] :: fills, by simp [hc], by simp [hlength], by simp⟩
      · exact ⟨c :: first, rest, fills, by simp [hc], hlength, by simp⟩
  | pass _ ih =>
      rcases ih with ⟨first, rest, fills, hsplit, hlength, rfl⟩
      rw [List.splitOn_cons_eq_if_modifyHead, hsplit]
      exact ⟨[], first :: rest, [] :: fills, by simp, by simp [hlength], by simp⟩
  | @take c pattern text _ ih =>
      rcases ih with ⟨first, rest, fills, hsplit, hlength, rfl⟩
      rw [List.splitOn_cons_eq_if_modifyHead] at hsplit ⊢
      obtain ⟨rfl, rfl⟩ : [] = first ∧ pattern.splitOn '*' = rest := by simpa using hsplit
      have hne : pattern.splitOn '*' ≠ [] := List.splitOn_ne_nil '*' pattern
      rcases exists_weave_append [c] hne hlength with ⟨longer, hlonger, hweave⟩
      exact ⟨[], pattern.splitOn '*', longer, by simp, hlonger, by simp [hweave]⟩

theorem matchExactly_iff_covers {pattern text : List Char} :
    matchExactly pattern text = true ↔ Covers pattern text := by
  rw [matchExactly_iff]
  constructor
  · rintro ⟨first, rest, fills, hsplit, hlength, rfl⟩
    exact covers_of_weave hsplit hlength
  · exact exists_weave_of_covers

end DecisionTables.Glob
