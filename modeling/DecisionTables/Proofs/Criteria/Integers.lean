import DecisionTables.Proofs.Criteria.Single

/-!
# Criteria on integers

A criteria that is an operator with an integer compares binary64 numbers, the one nearest to the
integer and the one nearest to the tested integer.  It agrees with the order of the integers where
these two numbers differ, and where they are one number it holds as if the integers were equal.
-/

namespace DecisionTables

namespace Operator

/-- The relation of integers that an operator stands for. -/
def Relates : Operator → Int → Int → Prop
  | equal, n, t => n = t
  | notEqual, n, t => n ≠ t
  | greater, n, t => n > t
  | atLeast, n, t => n ≥ t
  | less, n, t => n < t
  | atMost, n, t => n ≤ t

theorem holds_compare_iff (operator : Operator) (n t : Int) :
    operator.holds (compare n t) = true ↔ operator.Relates n t := by
  rcases lt_trichotomy n t with hlt | rfl | hgt
  · rw [Int.compare_eq_lt.mpr hlt]
    cases operator <;> simp [holds, Relates] <;> omega
  · rw [Int.compare_eq_eq.mpr rfl]
    cases operator <;> simp [holds, Relates]
  · rw [Int.compare_eq_gt.mpr hgt]
    cases operator <;> simp [holds, Relates] <;> omega

end Operator

namespace Comparison

/-- A number is tested by its place in the order of the binary64 numbers. -/
theorem testHolds_number (operator : Operator) (x : Binary64) (written : String) {value : Json}
    {tested : Binary64} (hvalue : value.asNumber? = some tested) (options : CriteriaOptions) :
    testHolds operator (.number x written) (some value) options =
      operator.holds (tested.order x) := by
  cases operator <;>
    simp [testHolds, Literal.equals, Literal.order?, Operator.holds, hvalue,
      Binary64.sameValue_eq_order, bne]

end Comparison

namespace Criteria

theorem parse_integerText (operator : Operator) {t : Int} (ht : IsWord t) :
    parse (operator.symbol ++ toString t) =
      expression [[.test operator (.number (.ofInt t) (toString t))]] := by
  have hplain : IsPlainText (integerText t) :=
    isPlainText_of_isMark (integerText_ne_nil t) (Decimal.all_isMark_integerText t)
  have hliteral : Literal.ofText (integerText t) = .number (.ofInt t) (toString t) := by
    rw [Literal.ofText_number hplain (readNumber?_integerText ht), ← toList_toString,
      String.ofList_toList]
  have hequals : ∀ rest, integerText t ≠ '=' :: rest := by
    intro rest heq
    have hmark := Decimal.all_isMark_integerText t
    rw [heq, List.all_cons] at hmark
    contradiction
  have hread := Comparison.read_symbol_append operator hequals (Comparison.read_plainText hplain)
  rw [hliteral, ← toList_toString, ← String.toList_append] at hread
  rw [parse_eq_single_iff.mpr hread]
  cases operator <;> rfl

/-- A criteria on integers compares the numbers nearest to them. -/
theorem holds_integerText (operator : Operator) (options : CriteriaOptions) {n t : Int}
    (hn : IsWord n) (ht : IsWord t) :
    (parse (operator.symbol ++ toString t)).holds (some (.number (.integer n hn.1 hn.2))) options =
      operator.holds ((Binary64.ofInt n).order (Binary64.ofInt t)) := by
  have hpresent : present? (some (.number (.integer n hn.1 hn.2))) =
      some (.number (.integer n hn.1 hn.2)) := rfl
  have hvalue : (Json.number (.integer n hn.1 hn.2)).asNumber? = some (.ofInt n) := rfl
  rw [parse_integerText operator ht, holds_expression, hpresent]
  simp [Comparison.holds, Comparison.testHolds_number operator _ _ hvalue]

/--
A criteria on integers agrees with their order unless two different ones have the same nearest
binary64 number, which takes both to be `2 ^ 53` or more in absolute value; then it holds as if they
were equal.
-/
theorem integer_criteria_iff (operator : Operator) (options : CriteriaOptions) {n t : Int}
    (hn : IsWord n) (ht : IsWord t) :
    (n = t ∨ Binary64.ofInt n ≠ Binary64.ofInt t →
      ((parse (operator.symbol ++ toString t)).holds
          (some (.number (.integer n hn.1 hn.2))) options = true ↔ operator.Relates n t)) ∧
    (Binary64.ofInt n = Binary64.ofInt t →
      ((parse (operator.symbol ++ toString t)).holds
          (some (.number (.integer n hn.1 hn.2))) options = true ↔ operator.Relates t t)) ∧
    (n.natAbs < 2 ^ 53 ∨ t.natAbs < 2 ^ 53 → n = t ∨ Binary64.ofInt n ≠ Binary64.ofInt t) := by
  rw [holds_integerText operator options hn ht, Binary64.order_ofInt hn ht]
  have hequal : operator.holds .eq = true ↔ operator.Relates t t := by
    rw [← Operator.holds_compare_iff, Int.compare_eq_eq.mpr rfl]
  refine ⟨?_, ?_, ?_⟩
  · rintro (rfl | hne)
    · rw [if_pos rfl]
      exact hequal
    · rw [if_neg hne]
      exact operator.holds_compare_iff n t
  · intro hsame
    rw [if_pos hsame]
    exact hequal
  · intro hsmall
    rw [← Binary64.ofInt_inj hn ht hsmall]
    exact em _

/-- An integer beyond `2 ^ 53`, where neighbours merge, against one below it. -/
theorem integer_criteria_neighbours :
    IsWord 9007199254740993 ∧ IsWord 9007199254740991 ∧
      (parse (Operator.greater.symbol ++ toString (9007199254740991 : Int))).holds
          (some (.number (.integer 9007199254740993 (by decide) (by decide)))) {} = true := by
  have hn : IsWord 9007199254740993 := ⟨by decide, by decide⟩
  have ht : IsWord 9007199254740991 := ⟨by decide, by decide⟩
  have hcriteria := integer_criteria_iff .greater {} hn ht
  refine ⟨hn, ht, (hcriteria.1 (hcriteria.2.2 (.inr (by decide)))).mpr ?_⟩
  exact (by decide : (9007199254740993 : Int) > 9007199254740991)

/-- The least two natural numbers that count as one. -/
theorem integer_criteria_merges_neighbours :
    ¬ ∀ (operator : Operator) (options : CriteriaOptions) {n t : Int} (hn : IsWord n)
        (_ : IsWord t),
      ((parse (operator.symbol ++ toString t)).holds
          (some (.number (.integer n hn.1 hn.2))) options = true ↔ operator.Relates n t) := by
  intro hagrees
  have hn : IsWord 9007199254740993 := ⟨by decide, by decide⟩
  have ht : IsWord 9007199254740992 := ⟨by decide, by decide⟩
  have hgreater := hagrees .greater {} hn ht
  have horder : (Binary64.ofInt 9007199254740993).order (Binary64.ofInt 9007199254740992) = .eq := by
    decide +kernel
  rw [holds_integerText .greater {} hn ht, horder] at hgreater
  exact absurd (hgreater.mpr (by decide : (9007199254740993 : Int) > 9007199254740992)) (by decide)

end Criteria

end DecisionTables
