import DecisionTables.Proofs.Number.Value
import DecisionTables.Table.Conflict
import Mathlib.Tactic.NormNum

/-!
# Merging numbers

Numbers are merged into the first of those with the greatest rank, which is one of them.  A number
of smaller rank has a smaller value, so the merged number has the greatest value of all unless a
greater one behind it is rounded to the same binary64 number.  This happens only to integers beyond
`2 ^ 53`.
-/

namespace DecisionTables.Table

theorem mapM_eq_none_iff {α β : Type} {f : α → Option β} {items : List α} :
    items.mapM f = none ↔ ∃ item ∈ items, f item = none := by
  induction items with
  | nil => simp
  | cons item rest ih =>
      cases hitem : f item with
      | none => simp [hitem]
      | some found => cases hrest : rest.mapM f <;> simp_all

theorem mapM_map_eq_some {α β : Type} {store : α → β} {restore : β → Option α}
    (hrestores : ∀ item, restore (store item) = some item) (items : List α) :
    (items.map store).mapM restore = some items := by
  induction items with
  | nil => rfl
  | cons item rest ih => simp [ih, hrestores]

/-- The first of the numbers with the greatest rank. -/
def IsFirstGreatest (numbers : List Number) (best : Number) : Prop :=
  ∃ before after, numbers = before ++ best :: after ∧
    (∀ n ∈ before, n.rank < best.rank) ∧ ∀ n ∈ after, n.rank ≤ best.rank

namespace IsFirstGreatest

variable {numbers : List Number} {best : Number}

theorem mem (hbest : IsFirstGreatest numbers best) : best ∈ numbers := by
  obtain ⟨before, after, rfl, -, -⟩ := hbest
  simp

theorem rank_le (hbest : IsFirstGreatest numbers best) : ∀ n ∈ numbers, n.rank ≤ best.rank := by
  obtain ⟨before, after, rfl, hbefore, hafter⟩ := hbest
  intro n hn
  rcases List.mem_append.mp hn with hn | hn
  · exact (hbefore n hn).le
  · rcases List.mem_cons.mp hn with rfl | hn
    · exact le_rfl
    · exact hafter n hn

theorem cons_of_lt {n : Number} (hbest : IsFirstGreatest numbers best) (hn : n.rank < best.rank) :
    IsFirstGreatest (n :: numbers) best := by
  obtain ⟨before, after, rfl, hbefore, hafter⟩ := hbest
  exact ⟨n :: before, after, rfl, List.forall_mem_cons.mpr ⟨hn, hbefore⟩, hafter⟩

/-- A number behind the first one that is not greater makes no difference. -/
theorem insert {first n : Number} (hbest : IsFirstGreatest (first :: numbers) best)
    (hn : n.rank ≤ first.rank) : IsFirstGreatest (first :: n :: numbers) best := by
  obtain ⟨before, after, hsplit, hbefore, hafter⟩ := hbest
  cases before with
  | nil =>
      obtain ⟨rfl, rfl⟩ := List.cons.inj hsplit
      exact ⟨[], n :: numbers, rfl, by simp, List.forall_mem_cons.mpr ⟨hn, hafter⟩⟩
  | cons _ before =>
      obtain ⟨rfl, rfl⟩ := List.cons.inj hsplit
      obtain ⟨hfirst, hbefore⟩ := List.forall_mem_cons.mp hbefore
      refine ⟨first :: n :: before, after, rfl, ?_, hafter⟩
      exact List.forall_mem_cons.mpr
        ⟨hfirst, List.forall_mem_cons.mpr ⟨hn.trans_lt hfirst, hbefore⟩⟩

/-- Only a number of the same rank can have a greater value. -/
theorem value_le_iff (hbest : IsFirstGreatest numbers best) :
    (∀ n ∈ numbers, n.value ≤ best.value) ↔
      ∀ n ∈ numbers, n.rank = best.rank → n.value ≤ best.value := by
  refine ⟨fun hall n hn _ => hall n hn, fun hsame n hn => ?_⟩
  rcases (hbest.rank_le n hn).lt_or_eq with hlt | heq
  · exact (Number.value_lt_of_rank_lt hlt).le
  · exact hsame n hn heq

end IsFirstGreatest

theorem greatest_cons (first n : Number) (rest : List Number) :
    greatest first (n :: rest) = greatest (if first.rank < n.rank then n else first) rest := by
  have horder : n.toBinary64.order first.toBinary64 = .gt ↔ first.rank < n.rank :=
    Int.compare_eq_gt
  rw [greatest, List.foldl_cons, greatest]
  by_cases hlt : first.rank < n.rank
  · rw [if_pos hlt, if_pos (horder.mpr hlt)]
  · rw [if_neg hlt, if_neg (mt horder.mp hlt)]

theorem isFirstGreatest_greatest (first : Number) (rest : List Number) :
    IsFirstGreatest (first :: rest) (greatest first rest) := by
  induction rest generalizing first with
  | nil => exact ⟨[], [], rfl, by simp, by simp⟩
  | cons n rest ih =>
      rw [greatest_cons]
      split_ifs with hlt
      · exact (ih n).cons_of_lt (hlt.trans_le ((ih n).rank_le n List.mem_cons_self))
      · exact (ih first).insert (not_lt.mp hlt)

theorem mergeValues_number (dedup : Bool) (first : Number) (rest : List Number) :
    mergeValues dedup ((first :: rest).map .number) = .number (greatest first rest) := by
  have hitems : ((first :: rest).map Json.number).mapM Json.items? = none :=
    mapM_eq_none_iff.mpr ⟨.number first, List.mem_cons_self, rfl⟩
  have hnumbers : ((first :: rest).map Json.number).mapM Json.number? = some (first :: rest) :=
    mapM_map_eq_some (by intro n; rfl) _
  rw [mergeValues, hitems, hnumbers]

/-- What numbers are merged into. -/
structure MergesNumbers (dedup : Bool) (numbers : List Number) (best : Number) : Prop where
  merged : mergeValues dedup (numbers.map .number) = .number best
  firstGreatest : IsFirstGreatest numbers best
  greatest_iff : (∀ n ∈ numbers, n.value ≤ best.value) ↔
    ∀ n ∈ numbers, n.rank = best.rank → n.value ≤ best.value
  greatest_of_distinct :
    (∀ m ∈ numbers, ∀ n ∈ numbers, m.rank = n.rank → m.value = n.value) →
      ∀ n ∈ numbers, n.value ≤ best.value
  greatest_of_small :
    (∀ n lower upper, Number.integer n lower upper ∈ numbers → n.natAbs ≤ 2 ^ 53) →
      ∀ n ∈ numbers, n.value ≤ best.value

/-- Numbers are merged into the greatest one as far as rounding tells them apart. -/
theorem exists_mergesNumbers (dedup : Bool) {numbers : List Number} (hne : numbers ≠ []) :
    ∃ best, MergesNumbers dedup numbers best := by
  obtain ⟨first, rest, rfl⟩ := List.exists_cons_of_ne_nil hne
  have hbest := isFirstGreatest_greatest first rest
  refine ⟨greatest first rest, mergeValues_number dedup first rest, hbest, hbest.value_le_iff,
    ?_, ?_⟩
  · intro hdistinct
    exact hbest.value_le_iff.mpr fun n hn hrank => (hdistinct n hn _ hbest.mem hrank).le
  · intro hsmall
    have hexact : ∀ n ∈ first :: rest, n.IsExact := by
      intro n hn
      cases n with
      | integer n lower upper => exact Number.isExact_integer (hsmall n lower upper hn)
      | float x => exact Number.isExact_float x
    intro n hn
    exact Number.value_le_of_rank_le (hexact n hn) (hexact _ hbest.mem) (hbest.rank_le n hn)

theorem exists_mergesNumbers_scores :
    [Number.ofInt64 50, .ofInt64 90] ≠ [] ∧
      ∃ best, MergesNumbers false [.ofInt64 50, .ofInt64 90] best ∧
        ∀ n ∈ [Number.ofInt64 50, .ofInt64 90], n.value ≤ best.value := by
  obtain ⟨best, hmerges⟩ :=
    exists_mergesNumbers false (List.cons_ne_nil (Number.ofInt64 50) [.ofInt64 90])
  refine ⟨List.cons_ne_nil _ _, best, hmerges, hmerges.greatest_of_small ?_⟩
  intro n lower upper hn
  simp [Number.ofInt64] at hn
  omega

/-- Of the least two natural numbers that are rounded to one, the first is taken. -/
theorem merges_neighbours_into_first :
    ¬ ∀ (dedup : Bool) (numbers : List Number), numbers ≠ [] →
      ∃ best ∈ numbers, mergeValues dedup (numbers.map .number) = .number best ∧
        ∀ n ∈ numbers, n.value ≤ best.value := by
  intro hgreatest
  let first : Number := .integer 9007199254740992 (by decide) (by decide)
  let second : Number := .integer 9007199254740993 (by decide) (by decide)
  obtain ⟨best, -, hmerged, hall⟩ := hgreatest false [first, second] (by simp)
  have hfirst : greatest first [second] = first := by decide +kernel
  rw [mergeValues_number, hfirst, Json.number.injEq] at hmerged
  have hle : second.value ≤ first.value := hmerged ▸ hall second (by simp)
  norm_num [first, second, Number.value] at hle

end DecisionTables.Table
