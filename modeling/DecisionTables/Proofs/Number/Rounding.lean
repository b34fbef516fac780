import DecisionTables.Number.Binary64
import Mathlib.Algebra.Group.Nat.Defs
import Mathlib.Order.GaloisConnection.Basic
import Mathlib.Order.Monotone.Basic
import Mathlib.Tactic.SplitIfs

/-!
# Rounding integers

Magnitudes are ordered as the values they stand for, so the nearest one never decreases as a value
grows.  Natural numbers up to `2 ^ 53` are magnitudes exactly, and from there on two neighbours may
round to one magnitude.  The order of two integers is therefore either kept or, where both round to
one number, lost; it is kept as soon as one of the integers is below `2 ^ 53`.
-/

namespace DecisionTables

/-- An integer of at most sixty-four bits, signed or unsigned. -/
def IsWord (n : Int) : Prop :=
  -9223372036854775808 ≤ n ∧ n ≤ 18446744073709551615

namespace Binary64

/-! ## Magnitudes and their values -/

/-- A significand beside its exponent, small only where the exponent is the least one. -/
def IsNormal (significand exponent : Nat) : Prop :=
  exponent = 0 ∨ 2 ^ 52 ≤ significand

theorem scaled_of_isNormal {significand exponent : Nat} (hnormal : IsNormal significand exponent)
    (hle : significand ≤ 2 ^ 53) :
    scaled (exponent * 2 ^ 52 + significand) = significand * 2 ^ exponent := by
  unfold scaled
  rw [Nat.one_shiftLeft, Nat.shiftRight_eq_div_pow, Nat.shiftLeft_eq]
  by_cases hsmall : significand < 2 ^ 52
  · obtain rfl : exponent = 0 := hnormal.resolve_right (by omega)
    rw [if_pos (by omega)]
    omega
  · rw [if_neg (by omega)]
    by_cases htop : significand = 2 ^ 53
    · have hmod : (exponent * 2 ^ 52 + significand) % 2 ^ 52 = 0 := by omega
      have hdiv : (exponent * 2 ^ 52 + significand) / 2 ^ 52 - 1 = exponent + 1 := by omega
      rw [hmod, hdiv, htop, Nat.pow_succ' (m := 2) (n := exponent)]
      omega
    · have hmod : 2 ^ 52 + (exponent * 2 ^ 52 + significand) % 2 ^ 52 = significand := by omega
      have hdiv : (exponent * 2 ^ 52 + significand) / 2 ^ 52 - 1 = exponent := by omega
      rw [hmod, hdiv]

theorem exists_isNormal (magnitude : Nat) :
    ∃ significand exponent, IsNormal significand exponent ∧ significand < 2 ^ 53 ∧
      magnitude = exponent * 2 ^ 52 + significand := by
  refine ⟨magnitude - (magnitude / 2 ^ 52 - 1) * 2 ^ 52, magnitude / 2 ^ 52 - 1, ?_, ?_, ?_⟩
  · unfold IsNormal
    omega
  · omega
  · omega

theorem scaled_strictMono : StrictMono scaled := by
  apply strictMono_nat_of_lt_succ
  intro magnitude
  rcases exists_isNormal magnitude with ⟨significand, exponent, hnormal, hlt, rfl⟩
  have hnext : IsNormal (significand + 1) exponent := hnormal.imp_right (by omega)
  rw [Nat.add_assoc, scaled_of_isNormal hnormal (by omega), scaled_of_isNormal hnext (by omega)]
  exact Nat.mul_lt_mul_of_pos_right (by omega) (Nat.two_pow_pos exponent)

theorem isNormal_shift (value : Nat) :
    IsNormal (value / 2 ^ (value.log2 - 52)) (value.log2 - 52) ∧
      value / 2 ^ (value.log2 - 52) < 2 ^ 53 := by
  by_cases hsmall : value.log2 ≤ 52
  · have hlt : value < 2 ^ 53 :=
      Nat.lt_log2_self.trans_le (Nat.pow_le_pow_right (by decide) (by omega))
    have hshift : value.log2 - 52 = 0 := by omega
    rw [hshift, Nat.pow_zero, Nat.div_one]
    exact ⟨.inl rfl, hlt⟩
  · have hne : value ≠ 0 := by
      rintro rfl
      exact hsmall (by decide)
    have hlow : 2 ^ 52 * 2 ^ (value.log2 - 52) ≤ value := by
      rw [← Nat.pow_add, Nat.add_sub_cancel' (by omega)]
      exact Nat.log2_self_le hne
    have hhigh : value < 2 ^ 53 * 2 ^ (value.log2 - 52) := by
      rw [← Nat.pow_add, show 53 + (value.log2 - 52) = value.log2 + 1 by omega]
      exact Nat.lt_log2_self
    have hpos := Nat.two_pow_pos (value.log2 - 52)
    exact ⟨.inr ((Nat.le_div_iff_mul_le hpos).mpr hlow), (Nat.div_lt_iff_lt_mul hpos).mpr hhigh⟩

theorem floorMagnitude_eq (value : Nat) :
    floorMagnitude value =
      (value.log2 - 52) * 2 ^ 52 + value / 2 ^ (value.log2 - 52) := by
  rw [floorMagnitude, Nat.shiftLeft_eq, Nat.shiftRight_eq_div_pow]

theorem scaled_floorMagnitude_le (value : Nat) : scaled (floorMagnitude value) ≤ value := by
  rcases isNormal_shift value with ⟨hnormal, hlt⟩
  rw [floorMagnitude_eq, scaled_of_isNormal hnormal hlt.le]
  exact Nat.div_mul_le_self _ _

theorem lt_scaled_floorMagnitude_succ (value : Nat) :
    value < scaled (floorMagnitude value + 1) := by
  rcases isNormal_shift value with ⟨hnormal, hlt⟩
  have hnext : IsNormal (value / 2 ^ (value.log2 - 52) + 1) (value.log2 - 52) :=
    hnormal.imp_right (by omega)
  rw [floorMagnitude_eq, Nat.add_assoc, scaled_of_isNormal hnext hlt]
  exact (Nat.div_lt_iff_lt_mul (Nat.two_pow_pos _)).mp (Nat.lt_succ_self _)

theorem gc_scaled_floorMagnitude : GaloisConnection scaled floorMagnitude := by
  intro magnitude value
  constructor
  · intro hle
    have hlt := hle.trans_lt (lt_scaled_floorMagnitude_succ value)
    exact Nat.lt_succ_iff.mp (scaled_strictMono.lt_iff_lt.mp hlt)
  · intro hle
    exact (scaled_strictMono.monotone hle).trans (scaled_floorMagnitude_le value)

theorem floorMagnitude_scaled (magnitude : Nat) : floorMagnitude (scaled magnitude) = magnitude :=
  le_antisymm (scaled_strictMono.le_iff_le.mp (scaled_floorMagnitude_le _))
    (gc_scaled_floorMagnitude.le_u_l magnitude)

/-! ## The nearest magnitude -/

/-- The nearest magnitude lies at the nearer end of a step, where the even end wins in the middle. -/
theorem nearestMagnitude_cases {n below : Nat} (hbelow : floorMagnitude (n <<< 1074) = below) :
    (nearestMagnitude n 1 = below ∧ 2 * n <<< 1074 ≤ scaled below + scaled (below + 1) ∧
        (2 * n <<< 1074 = scaled below + scaled (below + 1) → below % 2 = 0)) ∨
      (nearestMagnitude n 1 = below + 1 ∧ scaled below + scaled (below + 1) ≤ 2 * n <<< 1074 ∧
        (2 * n <<< 1074 = scaled below + scaled (below + 1) → below % 2 = 1)) := by
  simp only [nearestMagnitude, Nat.div_one, Nat.mul_one, hbelow]
  split
  · next hlt =>
    rw [Nat.compare_eq_lt] at hlt
    omega
  · next hgt =>
    rw [Nat.compare_eq_gt] at hgt
    omega
  · next heq =>
    rw [Nat.compare_eq_eq] at heq
    split_ifs <;> omega

/-- No magnitude has a value nearer to a natural number than the one it is rounded to. -/
theorem nearestMagnitude_nearest (n magnitude : Nat) :
    ((scaled (nearestMagnitude n 1) : Int) - (n <<< 1074 : Nat)).natAbs ≤
      ((scaled magnitude : Int) - (n <<< 1074 : Nat)).natAbs := by
  have hbelow := scaled_floorMagnitude_le (n <<< 1074)
  have habove := lt_scaled_floorMagnitude_succ (n <<< 1074)
  have hside : scaled magnitude ≤ scaled (floorMagnitude (n <<< 1074)) ∨
      scaled (floorMagnitude (n <<< 1074) + 1) ≤ scaled magnitude := by
    rw [scaled_strictMono.le_iff_le, scaled_strictMono.le_iff_le]
    omega
  rcases nearestMagnitude_cases (n := n) rfl with ⟨hn, hnear, -⟩ | ⟨hn, hnear, -⟩
  · rw [hn]
    omega
  · rw [hn]
    omega

theorem nearestMagnitude_mono {n m : Nat} (hle : n ≤ m) :
    nearestMagnitude n 1 ≤ nearestMagnitude m 1 := by
  have hvalues : n <<< 1074 ≤ m <<< 1074 := by
    rw [Nat.shiftLeft_eq, Nat.shiftLeft_eq]
    exact Nat.mul_le_mul_right _ hle
  have hbelow := gc_scaled_floorMagnitude.monotone_u hvalues
  rcases nearestMagnitude_cases (n := n) rfl with ⟨hn, hnear, htie⟩ | ⟨hn, hnear, htie⟩
  · rcases nearestMagnitude_cases (n := m) rfl with ⟨hm, -⟩ | ⟨hm, -⟩ <;> omega
  · rcases nearestMagnitude_cases (n := m) rfl with ⟨hm, hnear', htie'⟩ | ⟨hm, -⟩
    · -- Within one step the greater value cannot be the one that is rounded down.
      have hne : floorMagnitude (n <<< 1074) ≠ floorMagnitude (m <<< 1074) := by
        intro heq
        rw [← heq] at hnear' htie'
        omega
      omega
    · omega

theorem nearestMagnitude_of_scaled {n magnitude : Nat} (hscaled : scaled magnitude = n <<< 1074) :
    nearestMagnitude n 1 = magnitude := by
  have hnext : scaled magnitude < scaled (magnitude + 1) := scaled_strictMono (Nat.lt_succ_self _)
  have hbelow : floorMagnitude (n <<< 1074) = magnitude := by
    rw [← hscaled, floorMagnitude_scaled]
  rcases nearestMagnitude_cases hbelow with ⟨hn, -⟩ | ⟨-, hnear, -⟩
  · exact hn
  · omega

/-- Every natural number up to `2 ^ 53` is the value of a magnitude. -/
theorem exists_scaled_eq {n : Nat} (hn : n ≤ 2 ^ 53) : ∃ magnitude, scaled magnitude = n <<< 1074 := by
  by_cases hzero : n = 0
  · exact ⟨0, by rw [hzero, Nat.zero_shiftLeft]; rfl⟩
  · have hlow : 2 ^ n.log2 ≤ n := Nat.log2_self_le hzero
    have hhigh : n < 2 ^ (n.log2 + 1) := Nat.lt_log2_self
    have hlog : n.log2 ≤ 53 := by
      have hpow : 2 ^ n.log2 < 2 ^ 54 := by omega
      have hlt := (Nat.pow_lt_pow_iff_right (by decide)).mp hpow
      omega
    have hnormal : IsNormal (n * 2 ^ (52 - n.log2)) (1074 - (52 - n.log2)) := by
      right
      calc 2 ^ 52 ≤ 2 ^ (n.log2 + (52 - n.log2)) := Nat.pow_le_pow_right (by decide) (by omega)
        _ = 2 ^ n.log2 * 2 ^ (52 - n.log2) := Nat.pow_add _ _ _
        _ ≤ n * 2 ^ (52 - n.log2) := Nat.mul_le_mul_right _ hlow
    have hle : n * 2 ^ (52 - n.log2) ≤ 2 ^ 53 := by
      by_cases htop : n.log2 = 53
      · rw [htop]
        omega
      · calc n * 2 ^ (52 - n.log2) ≤ 2 ^ (n.log2 + 1) * 2 ^ (52 - n.log2) :=
              Nat.mul_le_mul_right _ hhigh.le
          _ = 2 ^ 53 := by rw [← Nat.pow_add, show n.log2 + 1 + (52 - n.log2) = 53 by omega]
    have hshift : 52 - n.log2 + (1074 - (52 - n.log2)) = 1074 := by omega
    refine ⟨_, (scaled_of_isNormal hnormal hle).trans ?_⟩
    rw [Nat.mul_assoc, ← Nat.pow_add, hshift, Nat.shiftLeft_eq]

theorem nearestMagnitude_lt {n m : Nat} (hn : n < 2 ^ 53) (hlt : n < m) :
    nearestMagnitude n 1 < nearestMagnitude m 1 := by
  rcases exists_scaled_eq hn.le with ⟨magnitude, hmagnitude⟩
  rcases exists_scaled_eq (n := n + 1) hn with ⟨next, hnext⟩
  have hscaled : scaled magnitude < scaled next := by
    rw [hmagnitude, hnext, Nat.shiftLeft_eq, Nat.shiftLeft_eq]
    exact (Nat.mul_lt_mul_right (Nat.two_pow_pos 1074)).mpr (Nat.lt_succ_self n)
  calc nearestMagnitude n 1 = magnitude := nearestMagnitude_of_scaled hmagnitude
    _ < next := scaled_strictMono.lt_iff_lt.mp hscaled
    _ = nearestMagnitude (n + 1) 1 := (nearestMagnitude_of_scaled hnext).symm
    _ ≤ nearestMagnitude m 1 := nearestMagnitude_mono hlt

/-! ## The number nearest to an integer -/

theorem nearestMagnitude_natAbs_lt {n : Int} (hn : IsWord n) :
    nearestMagnitude n.natAbs 1 < 0x7FF0000000000000 := by
  have hle : n.natAbs ≤ 2 ^ 64 := by
    have := hn.1
    have := hn.2
    omega
  exact (nearestMagnitude_mono hle).trans_lt (by decide +kernel)

theorem ofInt_of_isWord {n : Int} (hn : IsWord n) :
    ofInt n = ⟨decide (n < 0), nearestMagnitude n.natAbs 1, nearestMagnitude_natAbs_lt hn⟩ := by
  rw [ofInt, nearest?, ofMagnitude?, dif_pos (nearestMagnitude_natAbs_lt hn), Option.getD_some]

/-- An integer that is small enough is the value of the number nearest to it. -/
theorem toInt?_ofInt {n : Int} (hn : n.natAbs ≤ 2 ^ 53) : (ofInt n).toInt? = some n := by
  have hword : IsWord n := ⟨by omega, by omega⟩
  obtain ⟨magnitude, hscaled⟩ := exists_scaled_eq hn
  have hwhole : ∀ places, n.natAbs <<< places % 1 <<< places = 0 := by
    intro places
    rw [Nat.shiftLeft_eq, Nat.one_shiftLeft, Nat.mul_mod_left]
  have hvalue : n.natAbs <<< 1074 >>> 1074 = n.natAbs := Nat.shiftLeft_shiftRight _ _
  rw [ofInt_of_isWord hword, toInt?]
  simp only [nearestMagnitude_of_scaled hscaled, hscaled, hwhole, hvalue, if_true,
    decide_eq_true_eq]
  split_ifs <;> exact congrArg some (by omega)

theorem rank_ofInt {n : Int} (hn : IsWord n) :
    (ofInt n).rank =
      if n < 0 then -(nearestMagnitude n.natAbs 1 : Int) else nearestMagnitude n.natAbs 1 := by
  simp [ofInt_of_isWord hn, rank]

theorem nearestMagnitude_zero : nearestMagnitude 0 1 = 0 :=
  nearestMagnitude_of_scaled rfl

theorem rank_ofInt_mono {n t : Int} (hn : IsWord n) (ht : IsWord t) (hle : n ≤ t) :
    (ofInt n).rank ≤ (ofInt t).rank := by
  rw [rank_ofInt hn, rank_ofInt ht]
  split_ifs with hneg hneg'
  · have := nearestMagnitude_mono (show t.natAbs ≤ n.natAbs by omega)
    omega
  · omega
  · omega
  · have := nearestMagnitude_mono (show n.natAbs ≤ t.natAbs by omega)
    omega

theorem ofInt_eq_of_rank_eq {n t : Int} (hn : IsWord n) (ht : IsWord t)
    (hrank : (ofInt n).rank = (ofInt t).rank) : ofInt n = ofInt t := by
  rw [rank_ofInt hn, rank_ofInt ht] at hrank
  have hpositive : ∀ k : Int, k < 0 → 0 < nearestMagnitude k.natAbs 1 := by
    intro k hk
    rw [← nearestMagnitude_zero]
    exact nearestMagnitude_lt (by decide) (by omega)
  have hsign : n < 0 ↔ t < 0 := by
    have := hpositive n
    have := hpositive t
    split_ifs at hrank <;> omega
  have hmagnitude : nearestMagnitude n.natAbs 1 = nearestMagnitude t.natAbs 1 := by
    split_ifs at hrank <;> omega
  rw [ofInt_of_isWord hn, ofInt_of_isWord ht]
  simp only [hsign, hmagnitude]

theorem sameValue_eq_order (x y : Binary64) : x.sameValue y = (x.order y == .eq) := by
  rw [Bool.eq_iff_iff, sameValue, order, beq_iff_eq, beq_iff_eq, Int.compare_eq_eq]

/-- Two integers compare as their nearest numbers do, unless these are one number. -/
theorem order_ofInt {n t : Int} (hn : IsWord n) (ht : IsWord t) :
    (ofInt n).order (ofInt t) = if ofInt n = ofInt t then .eq else compare n t := by
  split_ifs with hsame
  · rw [hsame, order, Int.compare_eq_eq]
  · have hne : (ofInt n).rank ≠ (ofInt t).rank := fun h => hsame (ofInt_eq_of_rank_eq hn ht h)
    rw [order]
    rcases lt_trichotomy n t with hlt | rfl | hgt
    · have := rank_ofInt_mono hn ht hlt.le
      rw [Int.compare_eq_lt.mpr hlt, Int.compare_eq_lt]
      omega
    · contradiction
    · have := rank_ofInt_mono ht hn hgt.le
      rw [Int.compare_eq_gt.mpr hgt, Int.compare_eq_gt]
      omega

/-- No other integer shares its nearest number with an integer that is small enough to be one. -/
theorem ofInt_inj {n t : Int} (hn : IsWord n) (ht : IsWord t)
    (hsmall : n.natAbs < 2 ^ 53 ∨ t.natAbs < 2 ^ 53) : ofInt n = ofInt t ↔ n = t := by
  constructor
  · intro hsame
    rw [ofInt_of_isWord hn, ofInt_of_isWord ht] at hsame
    simp only [mk.injEq, decide_eq_decide] at hsame
    have habs : n.natAbs = t.natAbs := by
      by_contra hne
      rcases Nat.lt_or_gt_of_ne hne with hlt | hgt
      · have := nearestMagnitude_lt (by omega) hlt
        omega
      · have := nearestMagnitude_lt (by omega) hgt
        omega
    omega
  · rintro rfl
    rfl

end Binary64

end DecisionTables
