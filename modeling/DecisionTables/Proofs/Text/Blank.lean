import DecisionTables.Text.Basic
import Mathlib.Data.List.TakeWhile

/-!
# Trimming

Trimming looks at the blanks at one end of a text only, so what is put behind a text that is not
blank stays behind it, and blanks behind a text make no difference to the trimmed text.
-/

namespace DecisionTables.Text

/-- A text of blanks only. -/
def IsBlankText (cs : List Char) : Prop :=
  ∀ c ∈ cs, isBlank c = true

instance (cs : List Char) : Decidable (IsBlankText cs) :=
  decidable_of_iff (cs.all isBlank = true) List.all_eq_true

/-- A run of characters ends before the first one that is none of them. -/
theorem takeWhile_dropWhile_append {p : Char → Bool} {run rest : List Char}
    (hrun : ∀ c ∈ run, p c = true) (hrest : ∀ c ∈ rest.head?, p c = false) :
    (run ++ rest).takeWhile p = run ∧ (run ++ rest).dropWhile p = rest := by
  rw [List.takeWhile_append_of_pos hrun, List.dropWhile_append_of_pos hrun]
  cases rest with
  | nil => simp
  | cons c rest =>
      have hc : p c = false := hrest c rfl
      simp [hc]

theorem toNat_of_isDigit {c : Char} (hc : c.isDigit = true) : 48 ≤ c.toNat ∧ c.toNat ≤ 57 := by
  simpa [Char.isDigit, UInt32.le_iff_toNat_le] using hc

theorem isBlank_of_isDigit {c : Char} (hc : c.isDigit = true) : isBlank c = false := by
  have hbounds := toNat_of_isDigit hc
  simp [isBlank, Char.le_def, UInt32.le_iff_toNat_le, ← Char.toNat_inj]
  omega

theorem trimStart_eq_nil_iff {cs : List Char} : trimStart cs = [] ↔ IsBlankText cs := by
  unfold trimStart IsBlankText
  exact List.dropWhile_eq_nil_iff

theorem trimStart_of_not_isBlank {c : Char} (hc : isBlank c = false) (cs : List Char) :
    trimStart (c :: cs) = c :: cs := by
  rw [trimStart, List.dropWhile_cons]
  simp [hc]

theorem trimStart_cons_blank {c : Char} (hc : isBlank c = true) (cs : List Char) :
    trimStart (c :: cs) = trimStart cs := by
  rw [trimStart, List.dropWhile_cons, if_pos hc, trimStart]

theorem trimStart_blanks_append {blanks : List Char} (hblanks : IsBlankText blanks)
    (cs : List Char) : trimStart (blanks ++ cs) = trimStart cs := by
  unfold trimStart
  exact List.dropWhile_append_of_pos hblanks

/-- A text is some blanks and the text without them. -/
theorem exists_blanks_append (cs : List Char) :
    ∃ blanks, IsBlankText blanks ∧ cs = blanks ++ trimStart cs := by
  refine ⟨cs.takeWhile isBlank, ?_, List.takeWhile_append_dropWhile.symm⟩
  intro c hc
  exact List.mem_takeWhile_imp hc

theorem not_isBlank_head_trimStart {cs rest : List Char} {c : Char}
    (hcs : trimStart cs = c :: rest) : isBlank c = false := by
  have hhead := List.head?_dropWhile_not isBlank cs
  rw [← trimStart, hcs] at hhead
  simpa using hhead

theorem trimStart_trimStart (cs : List Char) : trimStart (trimStart cs) = trimStart cs := by
  cases hcs : trimStart cs with
  | nil => rfl
  | cons c rest => exact trimStart_of_not_isBlank (not_isBlank_head_trimStart hcs) rest

theorem trim_trimStart (cs : List Char) : trim (trimStart cs) = trim cs := by
  rw [trim, trimStart_trimStart, trim]

theorem isBlankText_trimStart_iff {cs : List Char} :
    IsBlankText (trimStart cs) ↔ IsBlankText cs := by
  rw [← trimStart_eq_nil_iff, trimStart_trimStart, trimStart_eq_nil_iff]

/-- What stands behind a text that is not blank stays there. -/
theorem trimStart_append {cs : List Char} (hcs : ¬ IsBlankText cs) (tail : List Char) :
    trimStart (cs ++ tail) = trimStart cs ++ tail := by
  obtain ⟨blanks, hblanks, hsplit⟩ := exists_blanks_append cs
  cases hstart : trimStart cs with
  | nil => exact absurd (trimStart_eq_nil_iff.mp hstart) hcs
  | cons c rest =>
      have hc := not_isBlank_head_trimStart hstart
      rw [hstart] at hsplit
      rw [hsplit, List.append_assoc, trimStart_blanks_append hblanks, List.cons_append,
        trimStart_of_not_isBlank hc]

theorem trimEnd_append_blank {c : Char} (hc : isBlank c = true) (cs : List Char) :
    trimEnd (cs ++ [c]) = trimEnd cs := by
  simp [trimEnd, hc]

theorem trim_append_blank {c : Char} (hc : isBlank c = true) {cs : List Char}
    (hcs : ¬ IsBlankText cs) : trim (cs ++ [c]) = trim cs := by
  rw [trim, trim, trimStart_append hcs, trimEnd_append_blank hc]

theorem trim_cons_of_not_isBlank {c : Char} (hc : isBlank c = false) (cs : List Char) :
    trim (c :: cs) = c :: trimEnd cs := by
  rw [trim, trimStart_of_not_isBlank hc, trimEnd, trimEnd, List.reverse_cons,
    List.dropWhile_append]
  split_ifs with hnil
  · have hempty : cs.reverse.dropWhile isBlank = [] := by simpa using hnil
    simp [hempty, hc]
  · simp

theorem head?_trim (cs : List Char) : (trim cs).head? = (trimStart cs).head? := by
  rw [← trim_trimStart]
  cases hcs : trimStart cs with
  | nil => rfl
  | cons c rest => rw [trim_cons_of_not_isBlank (not_isBlank_head_trimStart hcs)]; rfl

theorem getLast?_trim (cs : List Char) :
    (trim cs).getLast? = (trimStart (trimStart cs).reverse).head? := by
  rw [trim, trimEnd, List.getLast?_reverse]
  rfl

/-- A text is the text without the blanks at its end, and these. -/
theorem exists_trimEnd_append (cs : List Char) :
    ∃ blanks, IsBlankText blanks ∧ cs = trimEnd cs ++ blanks := by
  obtain ⟨blanks, hblanks, hsplit⟩ := exists_blanks_append cs.reverse
  refine ⟨blanks.reverse, fun c hc => hblanks c (List.mem_reverse.mp hc), ?_⟩
  rw [trimEnd, ← trimStart, ← List.reverse_append, ← hsplit, List.reverse_reverse]

theorem trimEnd_trimEnd (cs : List Char) : trimEnd (trimEnd cs) = trimEnd cs := by
  have hreverse := trimStart_trimStart cs.reverse
  rw [trimStart, trimStart] at hreverse
  rw [trimEnd, trimEnd, List.reverse_reverse, hreverse]

theorem trim_trim (cs : List Char) : trim (trim cs) = trim cs := by
  rw [← trim_trimStart cs]
  cases hcs : trimStart cs with
  | nil => rfl
  | cons c rest =>
      have hc := not_isBlank_head_trimStart hcs
      rw [trim_cons_of_not_isBlank hc, trim_cons_of_not_isBlank hc, trimEnd_trimEnd]

theorem trimStart_of_trim {cs : List Char} (hcs : trim cs = cs) : trimStart cs = cs := by
  have hle : cs.length ≤ (trimStart cs).length := by
    calc cs.length = (trim cs).length := by rw [hcs]
      _ ≤ (trimStart cs).length := by
        rw [trim, trimEnd, List.length_reverse]
        exact (length_dropWhile_le isBlank _).trans (List.length_reverse).le
  exact (List.dropWhile_suffix isBlank).eq_of_length_le hle

theorem trim_of_not_isBlank {cs : List Char} (hcs : ∀ c ∈ cs, isBlank c = false) :
    trim cs = cs := by
  have hself : ∀ part : List Char, part ⊆ cs → part.dropWhile isBlank = part := by
    intro part hpart
    rw [List.dropWhile_eq_self_iff]
    intro hlength
    rw [hcs _ (hpart (List.getElem_mem hlength))]
    decide
  have hreverse : cs.reverse ⊆ cs := fun c hc => List.mem_reverse.mp hc
  rw [trim, trimEnd, trimStart, hself cs (List.Subset.refl cs), hself cs.reverse hreverse,
    List.reverse_reverse]

theorem trim_of_isBlankText {cs : List Char} (hcs : IsBlankText cs) : trim cs = [] := by
  rw [trim, trimStart_eq_nil_iff.mpr hcs]
  rfl

theorem trim_ne_nil {cs : List Char} (hcs : ¬ IsBlankText cs) : trim cs ≠ [] := by
  intro htrim
  have hreversed : IsBlankText (trimStart cs).reverse := by
    have hempty := List.reverse_eq_nil_iff.mp htrim
    exact List.dropWhile_eq_nil_iff.mp hempty
  have hblank : IsBlankText (trimStart cs) := by
    intro c hc
    exact hreversed c (List.mem_reverse.mpr hc)
  exact hcs (isBlankText_trimStart_iff.mp hblank)

/-- Blanks around a text that has none at its ends are all that is trimmed. -/
theorem trim_append_blanks {before cs after : List Char} (hbefore : IsBlankText before)
    (hafter : IsBlankText after) (hne : cs ≠ []) (hhead : isBlank (cs.head hne) = false)
    (hlast : isBlank (cs.getLast hne) = false) : trim (before ++ (cs ++ after)) = cs := by
  have hstart : trimStart (cs ++ after) = cs ++ after := by
    rcases List.exists_cons_of_ne_nil hne with ⟨c, rest, rfl⟩
    exact trimStart_of_not_isBlank hhead (rest ++ after)
  have hend : (cs.reverse).dropWhile isBlank = cs.reverse := by
    rw [← List.head_reverse (by simpa using hne)] at hlast
    rcases List.exists_cons_of_ne_nil (List.reverse_ne_nil_iff.mpr hne) with ⟨c, rest, hreverse⟩
    simp only [hreverse, List.head_cons] at hlast
    rw [hreverse]
    exact trimStart_of_not_isBlank hlast rest
  have hblanks : IsBlankText after.reverse := fun c hc => hafter c (List.mem_reverse.mp hc)
  rw [trim, trimStart_blanks_append hbefore, hstart, trimEnd, List.reverse_append,
    List.dropWhile_append_of_pos hblanks, hend, List.reverse_reverse]

end DecisionTables.Text
