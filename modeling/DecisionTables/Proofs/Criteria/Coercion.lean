import DecisionTables.Definition.Basic
import DecisionTables.Proofs.Criteria.Integers

/-!
# Type hints

Criteria see no more of a tested value than its text, and whether it is a list or an object.  The
number that a value stands for is the one that its text is read as, as numbers are written in a form
that is read back.  Converting a value to text keeps its text, and converting it to a number keeps
the number that it stands for, so neither conversion changes what criteria hold for the value.
-/

namespace DecisionTables

/-! ## The number of a text -/

/-- A number starts with a digit, a point or a sign. -/
theorem readNumber?_eq_none {c : Char} (hblank : Text.isBlank c = false)
    (hdigit : c.isDigit = false) (hmark : c ∉ ['.', '-', '+']) (rest : List Char) :
    readNumber? (c :: rest) = none := by
  simp only [List.mem_cons, List.not_mem_nil, or_false, not_or] at hmark
  rw [readNumber?, Text.trim_cons_of_not_isBlank hblank]
  split
  · next heq => exact absurd (List.cons.inj heq).1 hmark.2.1
  · next heq => exact absurd (List.cons.inj heq).1 hmark.2.2
  · rw [readUnsigned?_eq_none hdigit hmark.1, Option.bind_none]

namespace Json

/-- A value stands for the number that its text is read as. -/
theorem asNumber?_eq (value : Json) :
    value.asNumber? = value.textForm?.bind fun text => readNumber? text.toList := by
  cases value with
  | null => rfl
  | bool b => cases b <;> decide
  | number n =>
      have hread := Number.readNumber?_text n
      simp [asNumber?, textForm?, text, chars, hread]
  | string s => rfl
  | array items =>
      have hread := readNumber?_eq_none (c := '[') (by decide) (by decide) (by decide)
        (itemChars items ++ [']'])
      simp [asNumber?, textForm?, text, chars, hread]
  | object members =>
      have hread := readNumber?_eq_none (c := '\x7b') (by decide) (by decide) (by decide)
        (memberChars members ++ ['\x7d'])
      simp [asNumber?, textForm?, text, chars, hread]

end Json

/-! ## Whole numbers as integers -/

namespace Binary64

theorem exists_whole_of_toInt? {x : Binary64} {n : Int} (hx : x.toInt? = some n) :
    ∃ whole : Nat, scaled x.magnitude = whole <<< 1074 ∧
      n = if x.negative then -(whole : Int) else whole := by
  unfold toInt? at hx
  by_cases hwhole : scaled x.magnitude % 1 <<< 1074 = 0
  · rw [if_pos hwhole] at hx
    refine ⟨scaled x.magnitude >>> 1074, ?_, (Option.some.inj hx).symm⟩
    rw [Nat.one_shiftLeft] at hwhole
    rw [Nat.shiftRight_eq_div_pow, Nat.shiftLeft_eq]
    exact (Nat.div_mul_cancel (Nat.dvd_of_mod_eq_zero hwhole)).symm
  · rw [if_neg hwhole] at hx
    contradiction

/-- A whole number is the one nearest to its integer, unless it is the negative zero. -/
theorem ofInt_of_toInt? {x : Binary64} {n : Int} (hx : x.toInt? = some n) (hn : IsWord n)
    (hzero : x ≠ .zero true) : ofInt n = x := by
  rcases exists_whole_of_toInt? hx with ⟨whole, hwhole, hsign⟩
  have habs : n.natAbs = whole := by
    rw [hsign]
    split_ifs <;> simp
  have hmagnitude : nearestMagnitude n.natAbs 1 = x.magnitude := by
    rw [habs]
    exact nearestMagnitude_of_scaled hwhole
  have hnegative : decide (n < 0) = x.negative := by
    cases hneg : x.negative with
    | false => simp [hsign, hneg]
    | true =>
        have hpos : whole ≠ 0 := by
          rintro rfl
          rw [habs, nearestMagnitude_zero] at hmagnitude
          apply hzero
          cases x
          simp_all [zero]
        simp only [hsign, hneg, if_true, decide_eq_true_eq]
        omega
  rw [ofInt_of_isWord hn]
  cases x
  simp_all

/-- The greatest signed word is rounded to the number one above it. -/
theorem ofInt_greatest_word : ofInt 9223372036854775807 = ofInt 9223372036854775808 := by
  decide +kernel

end Binary64

namespace Number

theorem toBinary64_ofBinary64 {x : Binary64} (hx : x ≠ .zero true) :
    (ofBinary64 x).toBinary64 = x := by
  unfold ofBinary64
  split
  · next n hint =>
    split_ifs with hrange
    · have hword : Binary64.ofInt n = x :=
        Binary64.ofInt_of_toInt? hint ⟨hrange.1, by omega⟩ hx
      -- The range ends one above the greatest word, which stands for that end as well.
      by_cases htop : n = 9223372036854775808
      · subst htop
        exact Binary64.ofInt_greatest_word.trans hword
      · have hmin : min n 9223372036854775807 = n := by omega
        simpa [toBinary64, hmin] using hword
    · rfl
  · rfl

theorem toBinary64_ofBinary64_zero :
    (ofBinary64 (.zero true)).toBinary64 = .zero false := by
  decide +kernel

end Number

/-! ## Converted values -/

namespace Json

theorem textForm?_apply_string (value : Json) :
    (InputType.string.apply value).textForm? = value.textForm? := by
  cases value with
  | bool b => cases b <;> rfl
  | _ => rfl

theorem asNumber?_apply_string (value : Json) :
    (InputType.string.apply value).asNumber? = value.asNumber? := by
  rw [asNumber?_eq, asNumber?_eq, textForm?_apply_string]

theorem memberEquals_apply_string (item value : Json) :
    memberEquals item (InputType.string.apply value) = memberEquals item value := by
  cases item with
  | array items => cases value <;> rfl
  | object members => cases value <;> rfl
  | _ => simp only [memberEquals, asNumber?_apply_string, textForm?_apply_string]

theorem isNull_apply (type : InputType) (value : Json) :
    (type.apply value).isNull = value.isNull := by
  cases value with
  | string s =>
      cases type with
      | number => cases hs : readNumber? s.toList <;> simp [InputType.apply, hs, isNull]
      | string => rfl
      | boolean =>
          simp only [InputType.apply]
          split_ifs <;> rfl
  | _ => cases type <;> rfl

theorem present?_apply (type : InputType) (value : Json) :
    present? (some (type.apply value)) = (present? (some value)).map type.apply := by
  cases hnull : value.isNull <;> simp [present?, Option.filter, isNull_apply, hnull]

/-- The number is kept, except that of the zeros only the positive one is. -/
theorem asNumber?_apply_number (value : Json) :
    (InputType.number.apply value).asNumber? = value.asNumber? ∨
      value.asNumber? = some (.zero true) ∧
        (InputType.number.apply value).asNumber? = some (.zero false) := by
  cases value with
  | string s =>
      cases hs : readNumber? s.toList with
      | none =>
          left
          simp [InputType.apply, hs]
      | some x =>
          by_cases hzero : x = .zero true
          · right
            subst hzero
            exact ⟨hs, by simp [InputType.apply, hs, asNumber?, Number.toBinary64_ofBinary64_zero]⟩
          · left
            simp [InputType.apply, asNumber?, hs, Number.toBinary64_ofBinary64 hzero]
  | _ => exact .inl rfl

theorem rel_asNumber?_apply_number (value : Json) :
    Option.Rel (fun x y => x.sameValue y = true) (InputType.number.apply value).asNumber?
      value.asNumber? := by
  rcases asNumber?_apply_number value with hsame | ⟨hvalue, hconverted⟩
  · rw [hsame]
    cases value.asNumber? with
    | none => exact .none
    | some x => exact .some (by simp [Binary64.sameValue])
  · rw [hvalue, hconverted]
    exact .some rfl

theorem apply_number_of_asNumber? {value : Json} (hvalue : value.asNumber? = none) :
    InputType.number.apply value = value := by
  cases value with
  | string s =>
      have hs : readNumber? s.toList = none := hvalue
      simp [InputType.apply, hs]
  | _ => rfl

end Json

namespace Comparison

theorem holds_apply_string (comparison : Comparison) (tested : Option Json)
    (options : CriteriaOptions) :
    comparison.holds (tested.map InputType.string.apply) options =
      comparison.holds tested options := by
  cases tested with
  | none => rfl
  | some value =>
      cases comparison with
      | malformed fault => rfl
      | test operator literal =>
          cases literal <;>
            simp [holds, testHolds, Literal.equals, Literal.order?, Json.asNumber?_apply_string,
              Json.textForm?_apply_string]

/-- A comparison with a number, or one that is malformed. -/
def IsNumeric : Comparison → Prop
  | test _ (.number _ _) => True
  | test _ _ => False
  | malformed _ => True

theorem holds_apply_number {comparison : Comparison} (hnumeric : comparison.IsNumeric)
    (tested : Option Json) (options : CriteriaOptions) :
    comparison.holds (tested.map InputType.number.apply) options =
      comparison.holds tested options := by
  cases tested with
  | none => rfl
  | some value =>
      cases comparison with
      | malformed fault => rfl
      | test operator literal =>
          cases literal with
          | number x written =>
              have hrel := value.rel_asNumber?_apply_number
              generalize hconverted : (InputType.number.apply value).asNumber? = converted at hrel
              cases hvalue : value.asNumber? with
              | none => rw [Option.map_some, Json.apply_number_of_asNumber? hvalue]
              | some view =>
                  rw [hvalue] at hrel
                  cases hrel with
                  | some hsame =>
                      have hrank := beq_iff_eq.mp hsame
                      simp only [holds, Option.map_some, testHolds_number _ _ _ hvalue,
                        testHolds_number _ _ _ hconverted, Binary64.order, hrank]
          | _ => exact hnumeric.elim

end Comparison

namespace Criteria

theorem holds_apply_string (criteria : Criteria) (value : Json) (options : CriteriaOptions) :
    criteria.holds (some (InputType.string.apply value)) options =
      criteria.holds (some value) options := by
  simp only [holds, Json.present?_apply]
  cases criteria with
  | expression groups => simp only [Comparison.holds_apply_string]
  | membership items =>
      cases present? (some value) with
      | none => rfl
      | some value => simp only [Option.map_some, Json.memberEquals_apply_string]
  | isNull => exact Option.isNone_map
  | malformed fault => rfl

theorem holds_apply_number {groups : List (List Comparison)}
    (hnumeric : ∀ group ∈ groups, ∀ comparison ∈ group, comparison.IsNumeric) (value : Json)
    (options : CriteriaOptions) :
    (expression groups).holds (some (InputType.number.apply value)) options =
      (expression groups).holds (some value) options := by
  rw [holds_expression, holds_expression, Json.present?_apply, Bool.eq_iff_iff]
  simp only [List.any_eq_true, List.all_eq_true]
  refine exists_congr fun group => and_congr_right fun hgroup => ?_
  refine forall₂_congr fun comparison hcomparison => ?_
  rw [Comparison.holds_apply_number (hnumeric group hgroup comparison hcomparison)]

/--
The conversion to text changes nothing that criteria hold for, and the conversion to a number
nothing that comparisons with numbers do: it keeps the number that the value stands for, but for the
sign of a zero.
-/
theorem coercion_survives_types :
    (∀ (criteria : Criteria) (value : Json) (options : CriteriaOptions),
      criteria.holds (some (InputType.string.apply value)) options =
        criteria.holds (some value) options) ∧
    (∀ value : Json,
      Option.Rel (fun x y => x.sameValue y = true) (InputType.number.apply value).asNumber?
        value.asNumber? ∧
      (value.asNumber? ≠ some (.zero true) →
        (InputType.number.apply value).asNumber? = value.asNumber?)) ∧
    ∀ (groups : List (List Comparison)),
      (∀ group ∈ groups, ∀ comparison ∈ group, comparison.IsNumeric) →
      ∀ (value : Json) (options : CriteriaOptions),
        (expression groups).holds (some (InputType.number.apply value)) options =
          (expression groups).holds (some value) options := by
  refine ⟨holds_apply_string, fun value => ⟨value.rel_asNumber?_apply_number, fun hzero => ?_⟩,
    fun groups hnumeric => holds_apply_number hnumeric⟩
  exact value.asNumber?_apply_number.resolve_right fun h => hzero h.1

/-- The text of a number that is converted to the greatest signed word, one below it. -/
theorem coercion_survives_types_greatest_word :
    (∀ group ∈ [[Comparison.test .atLeast (.number (.ofInt 5) "5")]], ∀ comparison ∈ group,
      comparison.IsNumeric) ∧
    (expression [[.test .atLeast (.number (.ofInt 5) "5")]]).holds
        (some (InputType.number.apply (.string "9223372036854775808"))) {} =
      (expression [[.test .atLeast (.number (.ofInt 5) "5")]]).holds
        (some (.string "9223372036854775808")) {} ∧
    (expression [[.test .atLeast (.number (.ofInt 5) "5")]]).holds
        (some (InputType.number.apply (.string "9223372036854775808"))) {} = true := by
  have hnumeric : ∀ group ∈ [[Comparison.test .atLeast (.number (.ofInt 5) "5")]],
      ∀ comparison ∈ group, comparison.IsNumeric := by
    simp [Comparison.IsNumeric]
  have hsurvives := coercion_survives_types.2.2 _ hnumeric (.string "9223372036854775808") {}
  have hgreater : (expression [[.test .atLeast (.number (.ofInt 5) "5")]]).holds
      (some (.string "9223372036854775808")) {} = true := by
    decide +kernel
  exact ⟨hnumeric, hsurvives, hsurvives.trans hgreater⟩

end Criteria

end DecisionTables
