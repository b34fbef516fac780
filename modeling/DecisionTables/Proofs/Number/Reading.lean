import DecisionTables.Number.Reader
import DecisionTables.Number.Written
import DecisionTables.Proofs.Number.Rounding
import DecisionTables.Proofs.Text.Blank
import Mathlib.Data.List.Induction
import Mathlib.Tactic.IntervalCases

/-!
# Reading written integers

The decimal text of an integer is a sign, if it is negative, and digits.  It is read as a decimal
with no fraction and no exponent, so as the binary64 number nearest to the integer.  Digits without
zeros in front are themselves the text of the number that they stand for.
-/

namespace DecisionTables

theorem toList_toString (n : Int) : (toString n).toList = integerText n := by
  rw [Int.toString_eq_repr, Int.repr_eq_if, integerText]
  by_cases hn : n < 0
  · have hneg : (-n).toNat = n.natAbs := by omega
    rw [if_neg (by omega), if_pos hn, hneg, Nat.repr_eq_ofList_toDigits]
    simp
  · have hpos : n.toNat = n.natAbs := by omega
    rw [if_pos (by omega), if_neg hn, hpos, Nat.repr_eq_ofList_toDigits, String.toList_ofList]

theorem isDigit_of_mem_toDigits {n : Nat} {c : Char} (hc : c ∈ Nat.toDigits 10 n) :
    c.isDigit = true :=
  Nat.isDigit_of_mem_toDigits (by decide) (by decide) hc

theorem isDigit_of_mem_integerText {n : Int} {c : Char} (hc : c ∈ integerText n) :
    c = '-' ∨ c.isDigit = true := by
  unfold integerText at hc
  split_ifs at hc with hn
  · exact (List.mem_cons.mp hc).imp_right isDigit_of_mem_toDigits
  · exact .inr (isDigit_of_mem_toDigits hc)

theorem integerText_ne_nil (n : Int) : integerText n ≠ [] := by
  unfold integerText
  split_ifs
  · simp
  · exact Nat.toDigits_ne_nil

theorem integerText_injective : Function.Injective integerText := by
  have hdigits : ∀ m n, Nat.toDigits 10 m = Nat.toDigits 10 n → m = n := by
    intro m n hsame
    rw [← Nat.ofDigitChars_ten_toDigits (n := m), hsame, Nat.ofDigitChars_ten_toDigits]
  have hminus : ∀ n cs, Nat.toDigits 10 n ≠ '-' :: cs := by
    intro n cs hsame
    have hdigit : '-'.isDigit = true := isDigit_of_mem_toDigits (n := n) (by simp [hsame])
    contradiction
  intro m n hsame
  unfold integerText at hsame
  split_ifs at hsame with hm hn hn
  · have hmagnitude := hdigits _ _ (List.cons.inj hsame).2
    omega
  · exact absurd hsame.symm (hminus _ _)
  · exact absurd hsame (hminus _ _)
  · have hmagnitude := hdigits _ _ hsame
    omega

theorem readUnsigned?_toDigits (n : Nat) : readUnsigned? (Nat.toDigits 10 n) = some ⟨n, 0⟩ := by
  have hwhole : (Nat.toDigits 10 n).takeWhile Char.isDigit = Nat.toDigits 10 n :=
    List.takeWhile_eq_self_iff.mpr fun c hc => isDigit_of_mem_toDigits hc
  have hrest : (Nat.toDigits 10 n).dropWhile Char.isDigit = [] :=
    List.dropWhile_eq_nil_iff.mpr fun c hc => isDigit_of_mem_toDigits hc
  simp [readUnsigned?, hwhole, hrest, readFraction, readExponent?, Nat.toDigits_ne_nil,
    Decimal.ofDigits, Nat.ofDigitChars_ten_toDigits]

theorem Decimal.toBinary64?_natAbs {n : Int} (hn : IsWord n) :
    toBinary64? (n < 0) ⟨n.natAbs, 0⟩ = some (Binary64.ofInt n) := by
  rw [Binary64.ofInt_of_isWord hn]
  by_cases hzero : n = 0
  · subst hzero
    simp [toBinary64?, Binary64.zero, Binary64.nearestMagnitude_zero]
  · have hlength : (Nat.toDigits 10 n.natAbs).length ≤ 20 := by
      rw [Nat.length_toDigits_le_iff (by decide) (by decide)]
      have := hn.1
      have := hn.2
      omega
    have hceiling : ceilingExponent ⟨n.natAbs, 0⟩ = (Nat.toDigits 10 n.natAbs).length :=
      Int.add_zero _
    have hwhole : n.natAbs * Nat.pow 10 0 = n.natAbs := Nat.mul_one _
    have hone : Nat.pow 10 0 = 1 := rfl
    rw [toBinary64?, if_neg (by simpa using hzero), hceiling, if_neg (by omega), if_neg (by omega)]
    simp only [Int.toNat_zero, Int.neg_zero, hwhole, hone, Binary64.nearest?, Binary64.ofMagnitude?]
    rw [dif_pos (Binary64.nearestMagnitude_natAbs_lt hn)]

theorem readFraction_of_ne {c : Char} (hpoint : c ≠ '.') (rest : List Char) :
    readFraction (c :: rest) = ([], c :: rest) := by
  unfold readFraction
  split
  · next heq => exact absurd (List.cons.inj heq).1 hpoint
  · rfl

/-- A number starts with a digit or a point, its sign aside. -/
theorem readUnsigned?_eq_none {c : Char} (hdigit : c.isDigit = false) (hpoint : c ≠ '.')
    (rest : List Char) : readUnsigned? (c :: rest) = none := by
  simp [readUnsigned?, hdigit, readFraction_of_ne hpoint]

theorem readNumber?_signed (negative : Bool) {cs : List Char} {d : Decimal}
    (hblank : ∀ c ∈ cs, Text.isBlank c = false) (hread : readUnsigned? cs = some d) :
    readNumber? ((if negative then ['-'] else []) ++ cs) = d.toBinary64? negative := by
  have htrim : Text.trim ((if negative then ['-'] else []) ++ cs) =
      (if negative then ['-'] else []) ++ cs := by
    apply Text.trim_of_not_isBlank
    intro c hc
    rcases List.mem_append.mp hc with hsign | hc
    · have hminus : c = '-' := by cases negative <;> simp_all
      rw [hminus]
      rfl
    · exact hblank c hc
  rw [readNumber?, htrim]
  cases negative with
  | true => simp [hread]
  | false =>
      have hsign : ∀ sign : Char, sign = '-' ∨ sign = '+' → ∀ rest, cs ≠ sign :: rest := by
        rintro sign hsign rest rfl
        have hnone := readUnsigned?_eq_none (c := sign) (by rcases hsign with rfl | rfl <;> rfl)
          (by rcases hsign with rfl | rfl <;> decide) rest
        rw [hread] at hnone
        contradiction
      simp only [Bool.false_eq_true, if_false, List.nil_append]
      split
      · exact absurd rfl (hsign '-' (.inl rfl) _)
      · exact absurd rfl (hsign '+' (.inr rfl) _)
      · rw [hread, Option.bind_some]

theorem integerText_eq (n : Int) :
    integerText n = (if decide (n < 0) then ['-'] else []) ++ Nat.toDigits 10 n.natAbs := by
  unfold integerText
  by_cases hneg : n < 0 <;> simp [hneg]

theorem readNumber?_integerText {n : Int} (hn : IsWord n) :
    readNumber? (integerText n) = some (Binary64.ofInt n) := by
  have hblank : ∀ c ∈ Nat.toDigits 10 n.natAbs, Text.isBlank c = false :=
    fun c hc => Text.isBlank_of_isDigit (isDigit_of_mem_toDigits hc)
  rw [integerText_eq, readNumber?_signed _ hblank (readUnsigned?_toDigits n.natAbs)]
  exact Decimal.toBinary64?_natAbs hn

theorem toDigits_of_isDigit {c : Char} (hc : c.isDigit = true) :
    Nat.toDigits 10 (c.toNat - 48) = [c] := by
  obtain ⟨hlow, hhigh⟩ := Text.toNat_of_isDigit hc
  have hself := Char.ofNat_toNat c
  generalize c.toNat = n at hlow hhigh hself
  subst hself
  interval_cases n <;> rfl

theorem head?_toDigits_ne_zero {position : Nat} (hposition : position ≠ 0) :
    (Nat.toDigits 10 position).head? ≠ some '0' := by
  induction position using Nat.strongRecOn with
  | ind position ih =>
    rw [Nat.toDigits_eq_if (by decide)]
    split_ifs with hsmall
    · simpa [Nat.digitChar_eq_zero] using hposition
    · have hne : position / 10 ≠ 0 := by omega
      have hhead := ih (position / 10) (by omega) hne
      obtain ⟨c, digits, hdigits⟩ :=
        List.exists_cons_of_ne_nil (Nat.toDigits_ne_nil (n := position / 10) (b := 10))
      rw [hdigits] at hhead ⊢
      exact hhead

/-- Digits are the decimal text of their number, unless there are zeros in front. -/
theorem toDigits_ofDigitChars {digits : List Char} (hdigits : ∀ c ∈ digits, c.isDigit = true)
    (hne : digits ≠ []) (hhead : digits.head? ≠ some '0') :
    Nat.toDigits 10 (Nat.ofDigitChars 10 digits 0) = digits := by
  induction digits using List.reverseRecOn with
  | nil => exact absurd rfl hne
  | append_singleton front c ih =>
      have hc : c.isDigit = true := hdigits c (by simp)
      have hlast : Nat.toDigits 10 (c.toNat - '0'.toNat) = [c] := toDigits_of_isDigit hc
      rw [Nat.ofDigitChars_append, Nat.ofDigitChars_cons, Nat.ofDigitChars_nil]
      by_cases hfront : front = []
      · subst hfront
        simpa using hlast
      · have hfrontHead : front.head? ≠ some '0' := by
          obtain ⟨d, rest, rfl⟩ := List.exists_cons_of_ne_nil hfront
          exact hhead
        have hih := ih (fun d hd => hdigits d (by simp [hd])) hfront hfrontHead
        have hpos : 0 < Nat.ofDigitChars 10 front 0 := by
          rw [Nat.pos_iff_ne_zero]
          intro hzero
          rw [hzero] at hih
          simp [← hih] at hfrontHead
        have hlt : c.toNat - '0'.toNat < 10 := by
          have := (Text.toNat_of_isDigit hc).2
          have hzero : '0'.toNat = 48 := rfl
          omega
        rw [← Nat.toDigits_append_toDigits (by decide) hpos hlt, hih, hlast]

end DecisionTables
