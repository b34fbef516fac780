import DecisionTables.Proofs.Criteria.Operators

/-!
# Membership in a list

A list of values as a criteria asks whether the tested value equals one of them.  A scalar on its
own is read as the text of a comparison, and where no part of that text has another meaning the
comparison is an equality with the text as a whole.  Both then compare by number if the two sides
stand for numbers, and otherwise by text.
-/

namespace DecisionTables

namespace Criteria

/-- A scalar whose text is plain, or null. -/
def IsPlain : Json → Prop
  | .null | .bool _ | .number _ => True
  | .string s => IsPlainText s.toList
  | .array _ | .object _ => False

theorem isPlainText_number (n : Number) : IsPlainText n.text := by
  apply isPlainText_of_isMark _ n.all_isMark_text
  intro hnil
  have hread := n.readNumber?_text
  rw [hnil] at hread
  contradiction

theorem isPlainText_bool (b : Bool) : IsPlainText (Json.bool b).chars := by
  cases b <;>
    exact ⟨by decide, by decide, by intro operator; cases operator <;> decide, by decide,
      by decide, ⟨by decide, by decide⟩⟩

theorem isPlainText_of_textForm? {item : Json} (hplain : IsPlain item) {text : String}
    (htext : item.textForm? = some text) : IsPlainText text.toList := by
  cases item with
  | null => contradiction
  | bool b =>
      obtain rfl := Option.some.inj htext
      rw [Json.text, String.toList_ofList]
      exact isPlainText_bool b
  | number n =>
      obtain rfl := Option.some.inj htext
      rw [Json.text, String.toList_ofList]
      exact isPlainText_number n
  | string s =>
      obtain rfl := Option.some.inj htext
      exact hplain
  | array items => exact hplain.elim
  | object members => exact hplain.elim

/-- A plain scalar on its own is an equality with its text. -/
theorem ofJson_of_textForm? {item : Json} (hplain : IsPlain item) {text : String}
    (htext : item.textForm? = some text) :
    ofJson item = expression [[.test .equal (.ofText text.toList)]] := by
  have hparse : ofJson item = parse text := by
    cases item with
    | null => contradiction
    | array items => exact hplain.elim
    | object members => exact hplain.elim
    | _ => exact congrArg parse (Option.some.inj htext)
  rw [hparse, parse_plainText (isPlainText_of_textForm? hplain htext)]

end Criteria

open Criteria (IsPlainText IsPlain)

theorem Literal.isConcrete_ofText {cs : List Char} (hplain : IsPlainText cs) :
    (ofText cs).isConcrete = true := by
  rw [ofText, if_neg hplain.nonempty, if_neg hplain.starless]
  split <;> rfl

namespace Binary64

theorem sameValue_comm (x y : Binary64) : x.sameValue y = y.sameValue x :=
  Bool.beq_comm

end Binary64

/-- A plain scalar as a member equals just the values that a literal of its text does. -/
theorem memberEquals_eq_equals {item : Json} (hplain : IsPlain item) {text : String}
    (htext : item.textForm? = some text) (value : Json) :
    memberEquals item value = (Literal.ofText text.toList).equals value := by
  have hcs := Criteria.isPlainText_of_textForm? hplain htext
  have hitem := item.asNumber?_eq
  rw [htext, Option.bind_some] at hitem
  cases item with
  | null => contradiction
  | bool b =>
      rw [Literal.ofText_text hcs hitem.symm, String.ofList_toList]
      simp only [memberEquals, Literal.equals, htext, Bool.beq_comm]
  | number n =>
      have hread := Literal.isWellRead_ofText text.toList
      rw [Literal.ofText_number hcs hitem.symm] at hread ⊢
      rw [Literal.equals_eq_order? hread]
      cases hvalue : value.asNumber? with
      | none => simp [memberEquals, Literal.order?, hvalue]
      | some tested =>
          simp [memberEquals, Literal.order?, hvalue, Binary64.sameValue_comm n.toBinary64,
            Binary64.sameValue_eq_order]
  | string s =>
      obtain rfl : s = text := Option.some.inj htext
      cases hs : readNumber? s.toList with
      | none =>
          rw [Literal.ofText_text hcs hs, String.ofList_toList]
          simp [memberEquals, Literal.equals, hs]
      | some x =>
          rw [Literal.ofText_number hcs hs, String.ofList_toList]
          cases hvalue : value.asNumber? <;>
            simp [memberEquals, Literal.equals, hs, hvalue, Binary64.sameValue_comm x]
  | array items => exact hplain.elim
  | object members => exact hplain.elim

namespace Criteria

/-- A list of one plain element asks for what the element asks for on its own. -/
theorem holds_single {item : Json} (hplain : IsPlain item) (tested : Option Json)
    (options : CriteriaOptions) :
    (ofJson (.array [item])).holds tested options = (ofJson item).holds tested options := by
  cases htext : item.textForm? with
  | none =>
      obtain rfl : item = .null := by
        cases item <;> first | rfl | contradiction
      cases hpresent : present? tested <;> simp [ofJson, holds, hpresent, Json.isNull, memberEquals]
  | some text =>
      have hnull : item.isNull = false := by
        cases item <;> first | rfl | contradiction
      have hconcrete := Literal.isConcrete_ofText (isPlainText_of_textForm? hplain htext)
      rw [ofJson_of_textForm? hplain htext]
      cases hpresent : present? tested with
      | none =>
          simp [ofJson, holds, hpresent, hnull, Comparison.holds,
            Comparison.testHolds_absent .equal hconcrete]
      | some value =>
          simp [ofJson, holds, hpresent, Comparison.holds, memberEquals_eq_equals hplain htext,
            Comparison.testHolds_equal hconcrete]

theorem holds_ofJson_array (items : List Json) (tested : Option Json) (options : CriteriaOptions) :
    (ofJson (.array items)).holds tested options =
      items.any fun item => (ofJson (.array [item])).holds tested options := by
  simp [ofJson, holds]

/--
Membership agrees with the criteria of the elements, each on its own, where these are plain: for a
list of one element, and so for the list of all of them.
-/
theorem membership_agrees_with_scalars :
    (∀ item : Json, IsPlain item → ∀ (tested : Option Json) (options : CriteriaOptions),
      (ofJson (.array [item])).holds tested options = (ofJson item).holds tested options) ∧
    ∀ items : List Json, (∀ item ∈ items, IsPlain item) →
      ∀ (tested : Option Json) (options : CriteriaOptions),
        (ofJson (.array items)).holds tested options =
          items.any fun item => (ofJson item).holds tested options := by
  refine ⟨fun item hplain => holds_single hplain, fun items hplain tested options => ?_⟩
  rw [holds_ofJson_array, Bool.eq_iff_iff, List.any_eq_true, List.any_eq_true]
  refine exists_congr fun item => and_congr_right fun hitem => ?_
  rw [holds_single (hplain item hitem)]

/-- Of a truth value, a number and a text with an equals sign the number is found. -/
theorem membership_agrees_with_scalars_mixed :
    (∀ item ∈ [Json.bool true, .number (.ofInt64 5), .string "= 5"], IsPlain item) ∧
    (ofJson (.array [.bool true, .number (.ofInt64 5), .string "= 5"])).holds
        (some (.string " 5.0 ")) {} =
      ([Json.bool true, .number (.ofInt64 5), .string "= 5"].any fun item =>
        (ofJson item).holds (some (.string " 5.0 ")) {}) ∧
    (ofJson (.array [.bool true, .number (.ofInt64 5), .string "= 5"])).holds
        (some (.string " 5.0 ")) {} = true := by
  have htext : IsPlainText "= 5".toList :=
    ⟨by decide, by decide, by intro operator; cases operator <;> decide, by decide, by decide,
      by decide, by decide⟩
  have hplain : ∀ item ∈ [Json.bool true, .number (.ofInt64 5), .string "= 5"], IsPlain item := by
    simpa [IsPlain] using htext
  have hagrees := membership_agrees_with_scalars.2 _ hplain (some (.string " 5.0 ")) {}
  have hfive : (ofJson (.number (.ofInt64 5))).holds (some (.string " 5.0 ")) {} = true := by
    decide +kernel
  refine ⟨hplain, hagrees, ?_⟩
  rw [hagrees]
  exact List.any_eq_true.mpr ⟨_, by simp, hfive⟩

end Criteria

end DecisionTables
