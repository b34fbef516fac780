import DecisionTables.Number.Basic
import DecisionTables.Proofs.Number.Rounding
import Mathlib.Data.Rat.Cast.Order
import Mathlib.Tactic.Positivity

/-!
# The values of numbers

Every number has an exact value, and all values are whole numbers of units of `2 ^ -1074`.  Numbers
are compared by the ranks of their nearest binary64 numbers, and rounding never turns the order of
two values around.  It may make them equal, though not where both are binary64 numbers already.
-/

namespace DecisionTables

/-- The whole number of a sign and a size. -/
def signed (negative : Bool) (size : Nat) : Int :=
  if negative then -(size : Int) else size

theorem signed_natAbs_shiftLeft (n : Int) (k : Nat) :
    (signed (decide (n < 0)) (n.natAbs <<< k) : ℚ) / 2 ^ k = n := by
  have hunits : signed (decide (n < 0)) (n.natAbs <<< k) = n * 2 ^ k := by
    unfold signed
    rw [Nat.shiftLeft_eq, Nat.cast_mul, Nat.cast_pow, Nat.cast_two]
    rcases lt_or_ge n 0 with hneg | hpos
    · rw [Int.ofNat_natAbs_of_nonpos hneg.le]
      simp [hneg]
    · rw [Int.natAbs_of_nonneg hpos]
      simp [not_lt.mpr hpos]
  rw [hunits, Int.cast_mul, Int.cast_pow, Int.cast_ofNat]
  exact mul_div_cancel_right₀ _ (pow_ne_zero k two_ne_zero)

theorem le_of_shiftLeft_le {m n : Nat} (k : Nat) (hle : m <<< k ≤ n <<< k) : m ≤ n := by
  rw [Nat.shiftLeft_eq, Nat.shiftLeft_eq] at hle
  exact Nat.le_of_mul_le_mul_right hle (Nat.two_pow_pos k)

namespace Binary64

/-- A natural number in units of `2 ^ -places`.  A fixed number of places would be unrolled
wherever two such numbers are compared. -/
def inUnits (places n : Nat) : Nat :=
  n <<< places

theorem inUnits_eq (places n : Nat) : inUnits places n = n <<< places :=
  rfl

/-- The value in units of `2 ^ -1074`. -/
def units (x : Binary64) : Int :=
  signed x.negative (scaled x.magnitude)

theorem nearestMagnitude_le {n magnitude : Nat} (hle : n <<< 1074 ≤ scaled magnitude) :
    nearestMagnitude n 1 ≤ magnitude := by
  have hbelow : floorMagnitude (n <<< 1074) ≤ magnitude := by
    rw [← floorMagnitude_scaled magnitude]
    exact gc_scaled_floorMagnitude.monotone_u hle
  rcases nearestMagnitude_cases (n := n) rfl with ⟨hn, -⟩ | ⟨hn, hnear, -⟩
  · rwa [hn]
  · -- The lower end of the step would be nearer if it were the value of the magnitude.
    have hstep := scaled_strictMono (Nat.lt_add_one (floorMagnitude (n <<< 1074)))
    have hlt : scaled (floorMagnitude (n <<< 1074)) < scaled magnitude := by omega
    rw [hn]
    exact scaled_strictMono.lt_iff_lt.mp hlt

theorem le_nearestMagnitude {n magnitude : Nat} (hle : scaled magnitude ≤ n <<< 1074) :
    magnitude ≤ nearestMagnitude n 1 := by
  have hbelow := gc_scaled_floorMagnitude.le_u hle
  rcases nearestMagnitude_cases (n := n) rfl with ⟨hn, -⟩ | ⟨hn, -⟩ <;> omega

end Binary64

namespace Number

open Binary64

def negative : Number → Bool
  | integer n _ _ => decide (n < 0)
  | float x => x.negative

/-- The size of the value in units of `2 ^ -1074`. -/
def size : Number → Nat
  | integer n _ _ => inUnits 1074 n.natAbs
  | float x => scaled x.magnitude

/-- The exact value. -/
def value : Number → ℚ
  | integer n _ _ => n
  | float x => x.units / 2 ^ 1074

theorem value_eq (n : Number) : n.value = signed n.negative n.size / 2 ^ 1074 := by
  cases n with
  | float x => rfl
  | integer n lower upper =>
      simp only [value, negative, size, inUnits_eq]
      exact (signed_natAbs_shiftLeft n 1074).symm

theorem value_le_value_iff {m n : Number} :
    m.value ≤ n.value ↔ signed m.negative m.size ≤ signed n.negative n.size := by
  rw [value_eq, value_eq, div_le_div_iff_of_pos_right (by positivity), Int.cast_le]

/-! ## Ranks -/

/-- The magnitude of the nearest binary64 number. -/
def nearest : Number → Nat
  | integer n _ _ => nearestMagnitude n.natAbs 1
  | float x => x.magnitude

/-- The position in the order by which numbers are compared. -/
def rank (n : Number) : Int :=
  n.toBinary64.rank

theorem rank_eq (n : Number) : n.rank = signed n.negative n.nearest := by
  cases n with
  | integer n lower upper =>
      simp [rank, toBinary64, rank_ofInt ⟨lower, upper⟩, signed, negative, nearest]
  | float x => rfl

theorem nearest_le_nearest {m n : Number} (hle : m.size ≤ n.size) : m.nearest ≤ n.nearest := by
  cases m with
  | integer m mlower mupper =>
      cases n with
      | integer n nlower nupper =>
          simp only [nearest, size, inUnits_eq] at hle ⊢
          exact nearestMagnitude_mono (le_of_shiftLeft_le 1074 hle)
      | float y =>
          simp only [nearest, size, inUnits_eq] at hle ⊢
          exact nearestMagnitude_le hle
  | float x =>
      cases n with
      | integer n nlower nupper =>
          simp only [nearest, size, inUnits_eq] at hle ⊢
          exact le_nearestMagnitude hle
      | float y => exact scaled_strictMono.le_iff_le.mp hle

theorem nearest_eq_zero {n : Number} (hzero : n.size = 0) : n.nearest = 0 := by
  have hle : n.size ≤ (float (.zero false)).size := by rw [hzero]; exact Nat.zero_le _
  exact Nat.le_zero.mp (nearest_le_nearest hle)

/-- Rounding does not turn the order of two values around. -/
theorem rank_le_rank {m n : Number} (hle : m.value ≤ n.value) : m.rank ≤ n.rank := by
  rw [value_le_value_iff] at hle
  rw [rank_eq, rank_eq]
  unfold signed at hle ⊢
  split_ifs at hle ⊢ with hm hn hn
  · have := nearest_le_nearest (m := n) (n := m) (by omega)
    omega
  · omega
  · have := nearest_eq_zero (n := m) (by omega)
    have := nearest_eq_zero (n := n) (by omega)
    omega
  · have := nearest_le_nearest (m := m) (n := n) (by omega)
    omega

theorem value_lt_of_rank_lt {m n : Number} (hlt : m.rank < n.rank) : m.value < n.value := by
  by_contra hle
  exact absurd (rank_le_rank (not_lt.mp hle)) (not_le.mpr hlt)

/-- The nearest binary64 number has the value itself. -/
def IsExact (n : Number) : Prop :=
  scaled n.nearest = n.size

theorem isExact_float (x : Binary64) : (float x).IsExact :=
  rfl

theorem isExact_integer {n : Int} {lower upper} (hn : n.natAbs ≤ 2 ^ 53) :
    (integer n lower upper).IsExact := by
  obtain ⟨magnitude, hmagnitude⟩ := exists_scaled_eq hn
  simp only [IsExact, nearest, size, inUnits_eq]
  rw [nearestMagnitude_of_scaled hmagnitude, hmagnitude]

theorem value_le_of_rank_le {m n : Number} (hm : m.IsExact) (hn : n.IsExact)
    (hle : m.rank ≤ n.rank) : m.value ≤ n.value := by
  rw [value_le_value_iff, ← hm, ← hn]
  rw [rank_eq, rank_eq] at hle
  have hless := scaled_strictMono.le_iff_le (a := m.nearest) (b := n.nearest)
  have hmore := scaled_strictMono.le_iff_le (a := n.nearest) (b := m.nearest)
  have hzero : scaled 0 = 0 := rfl
  unfold signed at hle ⊢
  split_ifs at hle ⊢ with hmneg hnneg hnneg
  · omega
  · omega
  · have hmzero : m.nearest = 0 := by omega
    have hnzero : n.nearest = 0 := by omega
    rw [hmzero, hnzero, hzero]
    rfl
  · omega

end Number

end DecisionTables
