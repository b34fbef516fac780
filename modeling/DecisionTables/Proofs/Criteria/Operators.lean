import DecisionTables.Proofs.Criteria.Coercion

/-!
# Operators before one literal

An operator that is written before the text of a lone literal is read off again, unless the text
starts with the sign that would extend it.  The literal that follows is then the same, so the six
criteria of one literal all depend on how the tested value compares with it.  Where the two do not
compare, the value differs from the literal, which only the inequality asks for.
-/

namespace DecisionTables

namespace Operator

/-- What an operator comes to where the tested value and the literal may be incomparable. -/
def holdsFor (operator : Operator) (order? : Option Ordering) : Bool :=
  order?.elim (operator == .notEqual) operator.holds

theorem notEqual_holdsFor (order? : Option Ordering) :
    notEqual.holdsFor order? = !equal.holdsFor order? := by
  cases order? <;> simp [holdsFor, holds, bne]

theorem atLeast_holdsFor (order? : Option Ordering) :
    atLeast.holdsFor order? = (greater.holdsFor order? || equal.holdsFor order?) := by
  rcases order? with _ | _ | _ | _ <;> rfl

theorem atMost_holdsFor (order? : Option Ordering) :
    atMost.holdsFor order? = (less.holdsFor order? || equal.holdsFor order?) := by
  rcases order? with _ | _ | _ | _ <;> rfl

/-- A tested value is less than a literal, equal to it or greater, if it compares with it at all. -/
theorem countP_holdsFor (order? : Option Ordering) :
    [less, equal, greater].countP (holdsFor · order?) = order?.toList.length := by
  rcases order? with _ | _ | _ | _ <;> rfl

end Operator

/-! ## One literal -/

namespace Literal

/-- A number or a text, also a quoted one. -/
def isConcrete : Literal → Bool
  | number _ _ | text _ | quoted _ => true
  | wildcard _ | empty => false

def isNumber : Literal → Bool
  | number _ _ => true
  | _ => false

/-- The text of a number literal is read as the number. -/
def IsWellRead : Literal → Prop
  | number x written => readNumber? written.toList = some x
  | _ => True

theorem isWellRead_ofText (cs : List Char) : (ofText cs).IsWellRead := by
  unfold ofText
  split_ifs
  · trivial
  · trivial
  · split
    · next x hread => simpa [IsWellRead] using hread
    · trivial

theorem isWellRead_read (cs : List Char) : (read cs).1.IsWellRead := by
  unfold read
  split
  · next result hquoted =>
    unfold readQuoted? at hquoted
    split at hquoted
    · obtain ⟨_, -, rfl⟩ := Option.map_eq_some_iff.mp hquoted
      trivial
    · contradiction
  · exact isWellRead_ofText _

/-- A value that is not comparable with a literal does not equal it. -/
theorem equals_eq_order? {literal : Literal} (hread : literal.IsWellRead) (value : Json) :
    literal.equals value = (literal.order? value == some .eq) := by
  have htext : ∀ t : String, (value.textForm? == some t) =
      ((value.textForm?.map fun tested => compare tested t) == some .eq) := by
    intro t
    cases value.textForm? with
    | none => rfl
    | some tested => rw [Bool.eq_iff_iff]; simp
  cases literal with
  | number x written =>
      cases hvalue : value.asNumber? with
      | some tested => simp [equals, order?, hvalue, Binary64.sameValue_eq_order]
      | none =>
          have hne : value.textForm? ≠ some written := by
            intro hsame
            rw [Json.asNumber?_eq, hsame, Option.bind_some, hread] at hvalue
            contradiction
          simp [equals, order?, hvalue, hne]
  | text t => exact htext t
  | quoted t => exact htext t
  | wildcard pattern => rfl
  | empty => rfl

theorem isSome_order? {literal : Literal} (hconcrete : literal.isConcrete = true) {value : Json}
    (hnull : value.isNull = false)
    (hview : literal.isNumber = false ∨ value.asNumber?.isSome = true) :
    (literal.order? value).isSome = true := by
  have htext : value.textForm?.isSome = true := by
    cases value <;> first | rfl | contradiction
  cases literal with
  | number x written => simpa [order?, isNumber] using hview
  | text t => simpa [order?] using htext
  | quoted t => simpa [order?] using htext
  | wildcard pattern => contradiction
  | empty => contradiction

theorem order?_eq_none {literal : Literal} (hnumber : literal.isNumber = true) {value : Json}
    (hview : value.asNumber? = none) : literal.order? value = none := by
  cases literal with
  | number x written => simp [order?, hview]
  | _ => contradiction

end Literal

theorem isNull_of_present? {tested : Option Json} {value : Json}
    (hpresent : present? tested = some value) : value.isNull = false := by
  simpa using (Option.filter_eq_some_iff.mp hpresent).2

namespace Comparison

theorem testHolds_absent (operator : Operator) {literal : Literal}
    (hconcrete : literal.isConcrete = true) (options : CriteriaOptions) :
    testHolds operator literal none options = false := by
  cases literal <;> first | rfl | contradiction

theorem testHolds_equal {literal : Literal} (hconcrete : literal.isConcrete = true)
    (value : Json) (options : CriteriaOptions) :
    testHolds .equal literal (some value) options = literal.equals value := by
  cases literal <;> first | rfl | contradiction

theorem testHolds_notEqual {literal : Literal} (hconcrete : literal.isConcrete = true)
    (value : Json) (options : CriteriaOptions) :
    testHolds .notEqual literal (some value) options = !literal.equals value := by
  cases literal <;> first | rfl | contradiction

theorem testHolds_relational {operator : Operator} (hrelational : operator.isRelational = true)
    {literal : Literal} (hconcrete : literal.isConcrete = true) (value : Json)
    (options : CriteriaOptions) :
    testHolds operator literal (some value) options =
      (literal.order? value).any operator.holds := by
  cases literal <;> cases operator <;> first | rfl | contradiction

theorem testHolds_concrete (operator : Operator) {literal : Literal}
    (hconcrete : literal.isConcrete = true) (hread : literal.IsWellRead) (value : Json)
    (options : CriteriaOptions) :
    testHolds operator literal (some value) options =
      operator.holdsFor (literal.order? value) := by
  cases operator with
  | equal =>
      rw [testHolds_equal hconcrete, literal.equals_eq_order? hread]
      cases literal.order? value <;> rfl
  | notEqual =>
      rw [testHolds_notEqual hconcrete, literal.equals_eq_order? hread]
      cases literal.order? value <;> rfl
  | _ =>
      rw [testHolds_relational rfl hconcrete]
      cases literal.order? value <;> rfl

/-- A comparison that is malformed could not have held. -/
theorem holds_ofParts (operator : Operator) (literal : Literal) (tested : Option Json)
    (options : CriteriaOptions) :
    (ofParts operator literal).holds tested options =
      testHolds operator literal tested options := by
  cases operator <;> cases literal <;> rfl

theorem isWellRead_of_read {cs rest : List Char} {operator : Operator} {literal : Literal}
    (hread : read cs = (test operator literal, rest)) : literal.IsWellRead := by
  rw [read] at hread
  simp only [Prod.mk.injEq] at hread
  rw [← (eq_of_ofParts_eq_test hread.1).2]
  exact Literal.isWellRead_read _

end Comparison

namespace Criteria

/-- The criteria of an operator that is written before a text.  Equality is not written. -/
def holdsWith (source : String) (tested : Option Json) (options : CriteriaOptions)
    (operator : Operator) : Bool :=
  (parse (operator.symbol ++ source)).holds tested options

theorem holdsWith_eq {source : String} {literal : Literal}
    (hstart : source.toList.head? ≠ some '=')
    (hparse : parse source = expression [[.test .equal literal]]) (tested : Option Json)
    (options : CriteriaOptions) (operator : Operator) :
    holdsWith source tested options operator =
      Comparison.testHolds operator literal (present? tested) options := by
  have hcs : ∀ rest, source.toList ≠ '=' :: rest := by
    intro rest hrest
    simp [hrest] at hstart
  have hread := Comparison.read_symbol_append operator hcs (parse_eq_single_iff.mp hparse)
  rw [← String.toList_append] at hread
  rw [holdsWith, parse_eq_single_iff.mpr hread, holds_expression]
  simp [Comparison.holds_ofParts]

/--
The criteria of one literal behind each of the operators.  Of those of a number or a text none holds
for an absent value.  For any other value the inequality is the negation of the equality, `>=` and
`<=` each hold where one of their two signs does, and exactly one of less, equal and greater holds,
unless the literal is a number and the value stands for none, where only the inequality holds.  With
a wildcard or an empty literal a value is only equal or unequal, whether present or absent.
-/
theorem operators_on_literal {source : String} {literal : Literal}
    (hstart : source.toList.head? ≠ some '=')
    (hparse : parse source = expression [[.test .equal literal]]) (tested : Option Json)
    (options : CriteriaOptions) :
    let holds := holdsWith source tested options
    holds .equal = (parse source).holds tested options ∧
    (literal.isConcrete = true →
      (present? tested = none → ∀ operator, holds operator = false) ∧
      ∀ value, present? tested = some value →
        holds .notEqual = !holds .equal ∧
        holds .atLeast = (holds .greater || holds .equal) ∧
        holds .atMost = (holds .less || holds .equal) ∧
        [Operator.less, .equal, .greater].countP holds ≤ 1 ∧
        (literal.isNumber = false ∨ value.asNumber?.isSome = true →
          [Operator.less, .equal, .greater].countP holds = 1) ∧
        (literal.isNumber = true → value.asNumber? = none →
          ∀ operator, operator ≠ .notEqual → holds operator = false)) ∧
    (literal.isConcrete = false →
      holds .notEqual = !holds .equal ∧
      ∀ operator : Operator, operator.isRelational = true → holds operator = false) := by
  intro holds
  have hholds : ∀ operator, holds operator =
      Comparison.testHolds operator literal (present? tested) options :=
    holdsWith_eq hstart hparse tested options
  have hread := Comparison.isWellRead_of_read (parse_eq_single_iff.mp hparse)
  refine ⟨?_, fun hconcrete => ⟨fun habsent operator => ?_, fun value hpresent => ?_⟩,
    fun hpattern => ?_⟩
  · rfl
  · rw [hholds, habsent, Comparison.testHolds_absent operator hconcrete]
  · have hnull := isNull_of_present? hpresent
    have hall : holds = (Operator.holdsFor · (literal.order? value)) := by
      funext operator
      rw [hholds, hpresent, Comparison.testHolds_concrete operator hconcrete hread]
    rw [hall, Operator.countP_holdsFor]
    refine ⟨Operator.notEqual_holdsFor _, Operator.atLeast_holdsFor _, Operator.atMost_holdsFor _,
      ?_, fun hview => ?_, fun hnumber hview operator hoperator => ?_⟩
    · cases literal.order? value <;> simp
    · obtain ⟨order, horder⟩ :=
        Option.isSome_iff_exists.mp (Literal.isSome_order? hconcrete hnull hview)
      simp [horder]
    · simp [Literal.order?_eq_none hnumber hview, Operator.holdsFor, hoperator]
  · simp only [hholds]
    refine ⟨?_, fun operator hrelational => ?_⟩
    · cases literal <;> first | rfl | contradiction
    · cases literal <;> cases operator <;> first | rfl | contradiction

/-- The criteria of a number, for a number. -/
theorem operators_on_literal_ten :
    "10".toList.head? ≠ some '=' ∧
    parse "10" = expression [[.test .equal (.number (.ofInt 10) "10")]] ∧
    [Operator.less, .equal, .greater].countP
        (holdsWith "10" (some (.number (.ofInt64 12))) {}) = 1 := by
  have hstart : "10".toList.head? ≠ some '=' := by decide
  have hparse : parse "10" = expression [[.test .equal (.number (.ofInt 10) "10")]] :=
    parse_integerText .equal (t := 10) ⟨by decide, by decide⟩
  have hlaws := operators_on_literal hstart hparse (some (.number (.ofInt64 12))) {}
  exact ⟨hstart, hparse, (hlaws.2.1 rfl).2 _ rfl |>.2.2.2.2.1 (.inr rfl)⟩

end Criteria

end DecisionTables
