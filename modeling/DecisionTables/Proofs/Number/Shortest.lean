import DecisionTables.Number.Shortest
import DecisionTables.Proofs.Number.Rounding

/-!
# Shortest decimals read back

Which number a decimal reads as depends on its value only, so zeros may move between its digits and
its exponent.  The exact digits of a magnitude read back to it, and every coarser decimal is taken
only if it does; the shortest decimal therefore reads back.
-/

namespace DecisionTables

namespace Binary64

theorem nearestMagnitude_mul_right (numerator denominator : Nat) {k : Nat} (hk : 0 < k) :
    nearestMagnitude (numerator * k) (denominator * k) =
      nearestMagnitude numerator denominator := by
  have hvalue : ∀ places : Nat, (numerator * k) <<< places = numerator <<< places * k := by
    intro places
    rw [Nat.shiftLeft_eq, Nat.shiftLeft_eq, Nat.mul_right_comm]
  unfold nearestMagnitude
  rw [hvalue]
  generalize numerator <<< 1074 = value
  have hquotient : value * k / (denominator * k) = value / denominator :=
    Nat.mul_div_mul_right _ _ hk
  have hcompare : ∀ steps : Nat,
      compare (2 * (value * k)) (steps * (denominator * k)) =
        compare (2 * value) (steps * denominator) := by
    intro steps
    rw [← Nat.mul_assoc, ← Nat.mul_assoc]
    rcases lt_trichotomy (2 * value) (steps * denominator) with hlt | heq | hgt
    · rw [Nat.compare_eq_lt.mpr hlt, Nat.compare_eq_lt]
      exact Nat.mul_lt_mul_of_pos_right hlt hk
    · rw [heq, Nat.compare_eq_eq.mpr rfl, eq_comm, Nat.compare_eq_eq]
    · rw [Nat.compare_eq_gt.mpr hgt, Nat.compare_eq_gt]
      exact Nat.mul_lt_mul_of_pos_right hgt hk
  simp only [hquotient, hcompare]

/--
A quotient that is the value of a magnitude is rounded to that magnitude.  The number of places is a
variable, as a power with a fixed one would be computed wherever it is compared.
-/
theorem nearestMagnitude_of_exact {numerator denominator magnitude places : Nat}
    (hplaces : places = 1074) (hpos : 0 < denominator)
    (hexact : numerator <<< places = scaled magnitude * denominator) :
    nearestMagnitude numerator denominator = magnitude := by
  subst hplaces
  have hquotient : scaled magnitude * denominator / denominator = scaled magnitude :=
    Nat.mul_div_cancel _ hpos
  have hnext : scaled magnitude < scaled (magnitude + 1) := scaled_strictMono (Nat.lt_add_one _)
  have hbelow : compare (2 * (scaled magnitude * denominator))
      ((scaled magnitude + scaled (magnitude + 1)) * denominator) = .lt := by
    rw [Nat.compare_eq_lt, ← Nat.mul_assoc]
    exact Nat.mul_lt_mul_of_pos_right (by omega) hpos
  unfold nearestMagnitude
  rw [hexact]
  simp only [hquotient, floorMagnitude_scaled, hbelow]

end Binary64

namespace Decimal

open Binary64

theorem length_toDigits_mul_ten {n : Nat} (hn : n ≠ 0) :
    (Nat.toDigits 10 (n * 10)).length = (Nat.toDigits 10 n).length + 1 := by
  have happend := Nat.toDigits_append_toDigits (b := 10) (d := 0) (by decide)
    (Nat.pos_of_ne_zero hn) (by decide)
  rw [Nat.mul_comm, ← Nat.add_zero (10 * n), ← happend, List.length_append, Nat.toDigits_zero]
  rfl

/-- A zero behind the digits makes up for a smaller exponent. -/
theorem toBinary64?_mul_ten (negative : Bool) (digits : Nat) (exponent : Int) :
    toBinary64? negative ⟨digits * 10, exponent - 1⟩ = toBinary64? negative ⟨digits, exponent⟩ := by
  by_cases hzero : digits = 0
  · simp [toBinary64?, hzero]
  · have hceiling : ceilingExponent ⟨digits * 10, exponent - 1⟩ =
        ceilingExponent ⟨digits, exponent⟩ := by
      simp only [ceilingExponent, length_toDigits_mul_ten hzero]
      omega
    have hnearest :
        nearestMagnitude (digits * 10 * Nat.pow 10 (exponent - 1).toNat)
            (Nat.pow 10 (-(exponent - 1)).toNat) =
          nearestMagnitude (digits * Nat.pow 10 exponent.toNat)
            (Nat.pow 10 (-exponent).toNat) := by
      have hpower : ∀ n : Nat, Nat.pow 10 (n + 1) = Nat.pow 10 n * 10 := fun _ => rfl
      by_cases hpos : 0 < exponent
      · have hsucc : exponent.toNat = (exponent - 1).toNat + 1 := by omega
        have hwhole : (-(exponent - 1)).toNat = (-exponent).toNat := by omega
        rw [hwhole, hsucc, hpower, Nat.mul_assoc, Nat.mul_comm 10]
      · have hsucc : (-(exponent - 1)).toNat = (-exponent).toNat + 1 := by omega
        have hwhole : (exponent - 1).toNat = exponent.toNat := by omega
        rw [hwhole, hsucc, hpower, Nat.mul_right_comm]
        exact nearestMagnitude_mul_right _ _ (by decide)
    have hne : digits * 10 ≠ 0 := by omega
    simp only [toBinary64?, if_neg hzero, if_neg hne, hceiling, nearest?, hnearest]

theorem toBinary64?_mul_pow (negative : Bool) (digits zeros : Nat) (exponent : Int) :
    toBinary64? negative ⟨digits * 10 ^ zeros, exponent - zeros⟩ =
      toBinary64? negative ⟨digits, exponent⟩ := by
  induction zeros with
  | zero => simp
  | succ zeros ih =>
      have hexponent : exponent - (zeros + 1 : Nat) = exponent - zeros - 1 := by omega
      rw [Nat.pow_succ, ← Nat.mul_assoc, hexponent, toBinary64?_mul_ten, ih]

theorem toBinary64?_normalize (negative : Bool) (d : Decimal) :
    toBinary64? negative d.normalize = toBinary64? negative d := by
  induction d using normalize.induct with
  | case1 d hdivides ih =>
      have hdigits : d.digits / 10 * 10 = d.digits :=
        Nat.div_mul_cancel (Nat.dvd_of_mod_eq_zero hdivides.2)
      have hshift := toBinary64?_mul_ten negative (d.digits / 10) (d.exponent + 1)
      rw [hdigits, Int.add_sub_cancel] at hshift
      rw [normalize, if_pos hdivides, ih, ← hshift]
  | case2 d hnot => rw [normalize, if_neg hnot]

end Decimal

namespace Binary64

open Decimal

theorem length_toDigits_of_bounds {n low high : Nat} (hlow : 10 ^ low ≤ n) (hhigh : n < 10 ^ high)
    (hpos : 0 < low) : low < (Nat.toDigits 10 n).length ∧ (Nat.toDigits 10 n).length ≤ high := by
  have hless : low < high := (Nat.pow_lt_pow_iff_right (by decide)).mp (hlow.trans_lt hhigh)
  constructor
  · rw [← Nat.not_le, Nat.length_toDigits_le_iff (by decide) hpos]
    exact Nat.not_lt.mpr hlow
  · rw [Nat.length_toDigits_le_iff (by decide) (hpos.trans hless)]
    exact hhigh

/-- The exact digits of a magnitude lie within the range where decimals are rounded at all. -/
theorem exactDigits_bounds {magnitude : Nat} (hpos : 0 < magnitude)
    (hlt : magnitude < 0x7FF0000000000000) :
    -324 < ceilingExponent ⟨exactDigits magnitude, -1074⟩ ∧
      ceilingExponent ⟨exactDigits magnitude, -1074⟩ < 310 := by
  have hleast : 0 < scaled magnitude := scaled_strictMono hpos
  have hgreatest : scaled magnitude ≤ scaled 0x7FEFFFFFFFFFFFFF :=
    scaled_strictMono.monotone (by omega)
  have hlow : 10 ^ 750 ≤ Nat.pow 5 1074 := by decide +kernel
  have hhigh : scaled 0x7FEFFFFFFFFFFFFF * Nat.pow 5 1074 < 10 ^ 1383 := by decide +kernel
  obtain ⟨hmany, hfew⟩ : 750 < (Nat.toDigits 10 (exactDigits magnitude)).length ∧
      (Nat.toDigits 10 (exactDigits magnitude)).length ≤ 1383 := by
    unfold exactDigits
    generalize Nat.pow 5 1074 = unit at hlow hhigh
    exact length_toDigits_of_bounds (hlow.trans (Nat.le_mul_of_pos_left _ hleast))
      ((Nat.mul_le_mul_right _ hgreatest).trans_lt hhigh) (by decide)
  simp only [ceilingExponent]
  omega

/-- A number with so many binary places has as many decimal ones. -/
theorem mul_pow_five_shiftLeft (n places : Nat) :
    (n * Nat.pow 5 places) <<< places = n * Nat.pow 10 places := by
  have hpower : Nat.pow 10 places = Nat.pow 5 places * 2 ^ places := Nat.mul_pow 5 2 places
  rw [hpower, Nat.shiftLeft_eq, Nat.mul_assoc]

theorem exactDigits_eq : exactDigits = fun magnitude => scaled magnitude * Nat.pow 5 1074 :=
  rfl

theorem nearestMagnitude_exactDigits (magnitude : Nat) {places : Nat} (hplaces : places = 1074) :
    nearestMagnitude (exactDigits magnitude) (Nat.pow 10 places) = magnitude := by
  rw [exactDigits_eq, ← hplaces]
  exact nearestMagnitude_of_exact hplaces (Nat.pow_pos (by decide)) (mul_pow_five_shiftLeft _ places)

theorem readsBack_exactDigits {magnitude : Nat} (hpos : 0 < magnitude)
    (hlt : magnitude < 0x7FF0000000000000) :
    readsBack magnitude ⟨exactDigits magnitude, -1074⟩ = true := by
  obtain ⟨hlow, hhigh⟩ := exactDigits_bounds hpos hlt
  have hdigits : exactDigits magnitude ≠ 0 := by
    intro hzero
    rw [hzero] at hlow
    exact absurd hlow (by decide)
  have hone : Nat.pow 10 (-1074 : Int).toNat = 1 := rfl
  have hplaces : (-(-1074 : Int)).toNat = 1074 := rfl
  have hread : toBinary64? false ⟨exactDigits magnitude, -1074⟩ = some ⟨false, magnitude, hlt⟩ := by
    rw [toBinary64?, if_neg hdigits, if_neg (Int.not_le.mpr hlow), if_neg (Int.not_le.mpr hhigh),
      nearest?, hone, Nat.mul_one, nearestMagnitude_exactDigits magnitude hplaces, ofMagnitude?,
      dif_pos hlt]
  rw [readsBack, hread]
  exact beq_self_eq_true _

theorem nearer_eq_or_eq (exact unit : Nat) (below above : Decimal) :
    nearer exact unit below above = below ∨ nearer exact unit below above = above := by
  unfold nearer
  split
  · exact .inl rfl
  · exact .inr rfl
  · split_ifs
    · exact .inl rfl
    · exact .inr rfl

theorem readsBack_of_onGrid? {magnitude drop : Nat} {d : Decimal}
    (hfound : onGrid? magnitude drop = some d) : readsBack magnitude d = true := by
  unfold onGrid? at hfound
  extract_lets exact unit below above at hfound
  split_ifs at hfound with hbelow habove habove <;> rw [← Option.some.inj hfound]
  · rcases nearer_eq_or_eq exact unit below above with hnearer | hnearer
    · rwa [hnearer]
    · rwa [hnearer]
  · exact hbelow
  · exact habove

theorem readsBack_coarsest {magnitude : Nat} (hpos : 0 < magnitude)
    (hlt : magnitude < 0x7FF0000000000000) (drop : Nat) :
    readsBack magnitude (coarsest magnitude drop) = true := by
  induction drop with
  | zero => exact readsBack_exactDigits hpos hlt
  | succ drop ih =>
      rw [coarsest]
      cases hfound : onGrid? magnitude (drop + 1) with
      | none => exact ih
      | some d => exact readsBack_of_onGrid? hfound

theorem toBinary64?_sign (negative : Bool) (d : Decimal) :
    d.toBinary64? negative =
      (d.toBinary64? false).map fun x => ⟨negative, x.magnitude, x.magnitude_lt⟩ := by
  unfold toBinary64? nearest? ofMagnitude?
  split_ifs <;> rfl

/-- The shortest decimal reads back. -/
theorem toBinary64?_shortest (x : Binary64) (hpos : 0 < x.magnitude) :
    (shortest x.magnitude).toBinary64? x.negative = some x := by
  have hreads := readsBack_coarsest hpos x.magnitude_lt
    ((Nat.toDigits 10 (exactDigits x.magnitude)).length - 1)
  rw [readsBack, beq_iff_eq, Option.map_eq_some_iff] at hreads
  obtain ⟨y, hread, hmagnitude⟩ := hreads
  rw [shortest, toBinary64?_normalize, toBinary64?_sign, hread, Option.map_some]
  cases x
  simp_all

end Binary64

end DecisionTables
