import DecisionTables.Text.Lowercase

/-!
# Letters around a capital sigma

Only a capital sigma is lowercased by what stands around it, and of that it sees no more than
whether a cased character comes first on either side, those that ignore case aside.  A character
that does not ignore case hides what stands behind it.
-/

namespace DecisionTables.Text

/-- A character that ends the search for a cased one, whether it is cased itself or not. -/
def Stops (c : Char) : Prop :=
  inRanges caseIgnorableRanges c = false

instance (c : Char) : Decidable (Stops c) :=
  inferInstanceAs (Decidable (_ = _))

theorem meetsCased_cons_of_stops {c : Char} (hc : Stops c) (rest : List Char) :
    meetsCased (c :: rest) = inRanges casedRanges c := by
  rw [meetsCased, hc]
  rfl

theorem meetsCased_cons_of_not_stops {c : Char} (hc : ¬ Stops c) (rest : List Char) :
    meetsCased (c :: rest) = meetsCased rest := by
  have hignorable : inRanges caseIgnorableRanges c = true := by simpa [Stops] using hc
  rw [meetsCased, hignorable]
  rfl

theorem meetsCased_cons_congr (c : Char) {first second : List Char}
    (hsame : meetsCased first = meetsCased second) :
    meetsCased (c :: first) = meetsCased (c :: second) := by
  rw [meetsCased, meetsCased, hsame]

theorem meetsCased_append_congr (text : List Char) {first second : List Char}
    (hsame : meetsCased first = meetsCased second) :
    meetsCased (text ++ first) = meetsCased (text ++ second) := by
  induction text with
  | nil => exact hsame
  | cons c text ih => exact meetsCased_cons_congr c ih

theorem lowercaseIn_of_ne {c : Char} (hc : c ≠ 'Σ') (before after other behind : List Char) :
    lowercaseIn before c after = lowercaseIn other c behind := by
  rw [lowercaseIn, lowercaseIn, if_neg hc, if_neg hc]

theorem lowercaseIn_congr (c : Char) {before after other behind : List Char}
    (hbefore : meetsCased before = meetsCased other)
    (hafter : meetsCased after = meetsCased behind) :
    lowercaseIn before c after = lowercaseIn other c behind := by
  rw [lowercaseIn, lowercaseIn, hbefore, hafter]

theorem lowercaseFrom_congr {before other : List Char}
    (hsame : meetsCased before = meetsCased other) (cs : List Char) :
    lowercaseFrom before cs = lowercaseFrom other cs := by
  induction cs generalizing before other with
  | nil => rfl
  | cons c after ih =>
      have hin := lowercaseIn_congr c hsame (rfl : meetsCased after = meetsCased after)
      have hfrom := ih (meetsCased_cons_congr c hsame)
      rw [lowercaseFrom, lowercaseFrom, hin, hfrom]

/-- A text is lowercased the same before any two texts that start alike in case. -/
theorem exists_lowercaseFrom_append (before text : List Char) {first second : List Char}
    (hsame : meetsCased first = meetsCased second) :
    ∃ lowered,
      lowercaseFrom before (text ++ first) =
        lowered ++ lowercaseFrom (text.reverse ++ before) first ∧
      lowercaseFrom before (text ++ second) =
        lowered ++ lowercaseFrom (text.reverse ++ before) second := by
  induction text generalizing before with
  | nil => exact ⟨[], rfl, rfl⟩
  | cons c text ih =>
      rcases ih (c :: before) with ⟨lowered, hfirst, hsecond⟩
      have hin := lowercaseIn_congr c (rfl : meetsCased before = meetsCased before)
        (meetsCased_append_congr text hsame)
      refine ⟨lowercaseIn before c (text ++ first) ++ lowered, ?_, ?_⟩
      · simp [lowercaseFrom, hfirst]
      · simp [lowercaseFrom, hsecond, hin]

/-- A text without a capital sigma is lowercased the same in all places. -/
theorem exists_lowercaseFrom_append_of_notMem {text : List Char} (htext : 'Σ' ∉ text) :
    ∃ lowered, ∀ before after, lowercaseFrom before (text ++ after) =
      lowered ++ lowercaseFrom (text.reverse ++ before) after := by
  induction text with
  | nil => exact ⟨[], fun _ _ => rfl⟩
  | cons c text ih =>
      have hc : c ≠ 'Σ' := fun h => htext (by simp [h])
      rcases ih fun h => htext (List.mem_cons_of_mem c h) with ⟨lowered, hlowered⟩
      refine ⟨lowercaseIn [] c [] ++ lowered, fun before after => ?_⟩
      have hin := lowercaseIn_of_ne hc before (text ++ after) [] []
      simp [lowercaseFrom, hlowered, hin]

end DecisionTables.Text
