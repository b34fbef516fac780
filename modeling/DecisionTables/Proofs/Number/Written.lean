import DecisionTables.Number.Basic
import DecisionTables.Proofs.Number.Reading
import DecisionTables.Proofs.Number.Shortest

/-!
# Reading written numbers

A binary64 number is written as a sign and its shortest decimal.  The positional text of a decimal
may show zeros that are not among its digits, but it stands for the same value, and so does the text
with an exponent.  What is written is therefore read as the number that it was written for, and no
two numbers are written alike.
-/

namespace DecisionTables

/-! ## Texts of decimals -/

section Parts

variable {whole fraction tail : List Char}

theorem readUnsigned?_point (hwhole : ∀ c ∈ whole, c.isDigit = true) (hne : whole ≠ [])
    (hfraction : ∀ c ∈ fraction, c.isDigit = true) (htail : ∀ c ∈ tail.head?, c.isDigit = false) :
    readUnsigned? (whole ++ '.' :: (fraction ++ tail)) =
      (readExponent? tail).map (Decimal.ofDigits whole fraction) := by
  have hpoint : ∀ c ∈ ('.' :: (fraction ++ tail)).head?, c.isDigit = false := by simp
  obtain ⟨htake, hdrop⟩ := Text.takeWhile_dropWhile_append hwhole hpoint
  obtain ⟨htake', hdrop'⟩ := Text.takeWhile_dropWhile_append hfraction htail
  simp [readUnsigned?, readFraction, htake, hdrop, htake', hdrop', hne]

theorem readUnsigned?_whole (hwhole : ∀ c ∈ whole, c.isDigit = true) (hne : whole ≠ [])
    (mark : Char) (hmark : mark.isDigit = false) (hpoint : mark ≠ '.') :
    readUnsigned? (whole ++ mark :: tail) =
      (readExponent? (mark :: tail)).map (Decimal.ofDigits whole []) := by
  have hhead : ∀ c ∈ (mark :: tail).head?, c.isDigit = false := by simpa using hmark
  obtain ⟨htake, hdrop⟩ := Text.takeWhile_dropWhile_append hwhole hhead
  simp [readUnsigned?, htake, hdrop, readFraction_of_ne hpoint, hne]

end Parts

theorem readDigits?_toDigits (n : Nat) : readDigits? (Nat.toDigits 10 n) = some n := by
  have hdigits : (Nat.toDigits 10 n).all Char.isDigit = true :=
    List.all_eq_true.mpr fun c hc => isDigit_of_mem_toDigits hc
  rw [readDigits?, if_pos ⟨Nat.toDigits_ne_nil, hdigits⟩, Nat.ofDigitChars_ten_toDigits]

theorem readExponent?_signed (exponent : Int) :
    readExponent? ('e' :: ((if 0 ≤ exponent then ['+'] else []) ++ integerText exponent)) =
      some exponent := by
  have hread := readDigits?_toDigits exponent.natAbs
  by_cases hneg : exponent < 0
  · rw [integerText, if_pos hneg, if_neg (Int.not_le.mpr hneg)]
    simp [readExponent?, hread, abs_of_neg hneg]
  · have hpos : 0 ≤ exponent := Int.not_lt.mp hneg
    rw [integerText, if_neg hneg, if_pos hpos]
    simp [readExponent?, hread, abs_of_nonneg hpos]

namespace Decimal

/-- The decimals of one value that differ by zeros behind the digits. -/
def IsWrittenOut (d shown : Decimal) : Prop :=
  ∃ zeros : Nat, shown = ⟨d.digits * 10 ^ zeros, d.exponent - zeros⟩

theorem IsWrittenOut.toBinary64?_eq {d shown : Decimal} (hshown : IsWrittenOut d shown)
    (negative : Bool) : shown.toBinary64? negative = d.toBinary64? negative := by
  rcases hshown with ⟨zeros, rfl⟩
  exact toBinary64?_mul_pow negative d.digits zeros d.exponent

theorem isWrittenOut_self (d : Decimal) : IsWrittenOut d d :=
  ⟨0, by simp⟩

theorem ofDigits_take_drop (n places : Nat) (exponent : Int) :
    ofDigits ((Nat.toDigits 10 n).take places) ((Nat.toDigits 10 n).drop places) exponent =
      ⟨n, exponent - ((Nat.toDigits 10 n).length - places : Nat)⟩ := by
  rw [ofDigits, List.take_append_drop, Nat.ofDigitChars_ten_toDigits, List.length_drop]

/-- Zeros behind the digits, of which one stands behind the point. -/
theorem ofDigits_trailing (n zeros : Nat) :
    ofDigits (Nat.toDigits 10 n ++ List.replicate zeros '0') ['0'] 0 =
      ⟨n * 10 ^ (zeros + 1), -1⟩ := by
  have hzeros : Nat.toDigits 10 n ++ List.replicate zeros '0' ++ ['0'] =
      Nat.toDigits 10 n ++ List.replicate (zeros + 1) '0' := by
    rw [List.append_assoc, List.replicate_succ']
  rw [ofDigits, hzeros, Nat.ofDigitChars_append, Nat.ofDigitChars_ten_toDigits,
    Nat.ofDigitChars_replicate_zero, Nat.mul_comm]
  rfl

/-- Zeros before the digits, all of them behind the point. -/
theorem ofDigits_leading (n zeros : Nat) :
    ofDigits ['0'] (List.replicate zeros '0' ++ Nat.toDigits 10 n) 0 =
      ⟨n, -((zeros + (Nat.toDigits 10 n).length : Nat) : Int)⟩ := by
  have hzeros : ['0'] ++ (List.replicate zeros '0' ++ Nat.toDigits 10 n) =
      List.replicate (zeros + 1) '0' ++ Nat.toDigits 10 n := by
    rw [← List.append_assoc]
    rfl
  rw [ofDigits, hzeros, Nat.ofDigitChars_append, Nat.ofDigitChars_replicate_zero, Nat.mul_zero,
    Nat.ofDigitChars_ten_toDigits, List.length_append, List.length_replicate, Int.zero_sub]

theorem readUnsigned?_positionalText (d : Decimal) :
    ∃ shown, readUnsigned? d.positionalText = some shown ∧ IsWrittenOut d shown := by
  have hdigits : ∀ c ∈ Nat.toDigits 10 d.digits, c.isDigit = true :=
    fun c hc => isDigit_of_mem_toDigits hc
  have hzeros : ∀ n : Nat, ∀ c ∈ List.replicate n '0', c.isDigit = true := by
    intro n c hc
    rw [List.eq_of_mem_replicate hc]
    rfl
  have hne : Nat.toDigits 10 d.digits ≠ [] := Nat.toDigits_ne_nil
  have htail : ∀ c ∈ ([] : List Char).head?, c.isDigit = false := by simp
  unfold positionalText
  simp only
  split_ifs with hwhole hpoint
  · have hshown : ∀ c ∈ Nat.toDigits 10 d.digits ++ List.replicate d.exponent.toNat '0',
        c.isDigit = true :=
      fun c hc => (List.mem_append.mp hc).elim (hdigits c) (hzeros _ c)
    have hread := readUnsigned?_point hshown (by simp [hne]) (hzeros 1) htail
    refine ⟨_, hread, d.exponent.toNat + 1, ?_⟩
    have hexponent : d.exponent - (d.exponent.toNat + 1 : Nat) = -1 := by omega
    exact (ofDigits_trailing d.digits d.exponent.toNat).trans (by rw [hexponent])
  · generalize hplaces : ((Nat.toDigits 10 d.digits).length + d.exponent).toNat = places
    have htake : ∀ c ∈ (Nat.toDigits 10 d.digits).take places, c.isDigit = true :=
      fun c hc => hdigits c (List.mem_of_mem_take hc)
    have hdrop : ∀ c ∈ (Nat.toDigits 10 d.digits).drop places, c.isDigit = true :=
      fun c hc => hdigits c (List.mem_of_mem_drop hc)
    have hread := readUnsigned?_point htake (by simp [hne]; omega) hdrop htail
    rw [List.append_nil] at hread
    refine ⟨d, hread.trans ?_, isWrittenOut_self d⟩
    have hexponent :
        0 - (((Nat.toDigits 10 d.digits).length - places : Nat) : Int) = d.exponent := by omega
    exact congrArg some ((ofDigits_take_drop d.digits places 0).trans (by rw [hexponent]))
  · generalize hplaces : (-((Nat.toDigits 10 d.digits).length + d.exponent)).toNat = places
    have hshown : ∀ c ∈ List.replicate places '0' ++ Nat.toDigits 10 d.digits, c.isDigit = true :=
      fun c hc => (List.mem_append.mp hc).elim (hzeros _ c) (hdigits c)
    have hread := readUnsigned?_point (hzeros 1) (by simp) hshown htail
    rw [List.append_nil] at hread
    refine ⟨d, hread.trans ?_, isWrittenOut_self d⟩
    have hexponent :
        -((places + (Nat.toDigits 10 d.digits).length : Nat) : Int) = d.exponent := by omega
    exact congrArg some ((ofDigits_leading d.digits places).trans (by rw [hexponent]))

theorem readUnsigned?_scientificText (d : Decimal) :
    readUnsigned? d.scientificText = some d := by
  have hdigits : ∀ c ∈ Nat.toDigits 10 d.digits, c.isDigit = true :=
    fun c hc => isDigit_of_mem_toDigits hc
  have hpos : 0 < (Nat.toDigits 10 d.digits).length := Nat.length_toDigits_pos
  have htake : ∀ c ∈ (Nat.toDigits 10 d.digits).take 1, c.isDigit = true :=
    fun c hc => hdigits c (List.mem_of_mem_take hc)
  have hdrop : ∀ c ∈ (Nat.toDigits 10 d.digits).drop 1, c.isDigit = true :=
    fun c hc => hdigits c (List.mem_of_mem_drop hc)
  have hne : (Nat.toDigits 10 d.digits).take 1 ≠ [] := by
    rw [← List.length_pos_iff, List.length_take]
    omega
  have hvalue : ofDigits ((Nat.toDigits 10 d.digits).take 1) ((Nat.toDigits 10 d.digits).drop 1)
      (d.ceilingExponent - 1) = d := by
    have hexponent :
        d.ceilingExponent - 1 - ((Nat.toDigits 10 d.digits).length - 1 : Nat) = d.exponent := by
      rw [ceilingExponent]
      omega
    rw [ofDigits_take_drop, hexponent]
  have hexponent := readExponent?_signed (d.ceilingExponent - 1)
  unfold scientificText
  simp only [List.append_assoc, List.cons_append]
  generalize (if 0 ≤ d.ceilingExponent - 1 then ['+'] else []) ++
    integerText (d.ceilingExponent - 1) = mark at hexponent ⊢
  by_cases hone : (Nat.toDigits 10 d.digits).length ≤ 1
  · have hnil : (Nat.toDigits 10 d.digits).drop 1 = [] := List.drop_eq_nil_iff.mpr hone
    rw [if_pos hone, List.nil_append, readUnsigned?_whole htake hne 'e' rfl (by decide), hexponent,
      Option.map_some, ← hnil, hvalue]
  · have hmark : ∀ c ∈ ('e' :: mark).head?, c.isDigit = false := by simp
    rw [if_neg hone, List.cons_append, readUnsigned?_point htake hne hdrop hmark, hexponent,
      Option.map_some, hvalue]

theorem readUnsigned?_text (d : Decimal) :
    ∃ shown, readUnsigned? d.text = some shown ∧ IsWrittenOut d shown := by
  unfold text
  simp only
  split_ifs
  · exact readUnsigned?_positionalText d
  · exact ⟨d, readUnsigned?_scientificText d, isWrittenOut_self d⟩

/-- The characters of a written decimal. -/
def isMark (c : Char) : Bool :=
  c.isDigit || c ∈ ['.', 'e', '+', '-']

theorem isBlank_of_isMark {c : Char} (hc : isMark c = true) : Text.isBlank c = false := by
  rcases (Bool.or_eq_true _ _).mp hc with hdigit | hsign
  · exact Text.isBlank_of_isDigit hdigit
  · simp only [decide_eq_true_eq, List.mem_cons, List.not_mem_nil, or_false] at hsign
    rcases hsign with rfl | rfl | rfl | rfl <;> rfl

theorem all_isMark_integerText (n : Int) : (integerText n).all isMark = true := by
  rw [List.all_eq_true]
  intro c hc
  rcases isDigit_of_mem_integerText hc with rfl | hdigit
  · rfl
  · simp [isMark, hdigit]

theorem all_isMark_text (d : Decimal) : d.text.all isMark = true := by
  have hdigits : ∀ part ⊆ Nat.toDigits 10 d.digits, part.all isMark = true := by
    intro part hpart
    rw [List.all_eq_true]
    intro c hc
    simp [isMark, isDigit_of_mem_toDigits (hpart hc)]
  have hwhole := hdigits _ (List.Subset.refl _)
  have htake := fun n => hdigits _ (List.take_subset n _)
  have hdrop := fun n => hdigits _ (List.drop_subset n _)
  have hzeros : ∀ n, (List.replicate n '0').all isMark = true := by
    intro n
    rw [List.all_eq_true]
    intro c hc
    rw [List.eq_of_mem_replicate hc]
    rfl
  have hexponent := all_isMark_integerText (d.ceilingExponent - 1)
  have hmarks : isMark '.' = true ∧ isMark 'e' = true ∧ isMark '+' = true ∧ isMark '0' = true := by
    decide
  unfold text positionalText scientificText
  simp only
  split_ifs <;>
    simp only [List.all_append, List.all_cons, List.all_nil, hwhole, htake, hdrop, hzeros, hexponent,
      hmarks, Bool.and_self]

end Decimal

/-- A written number is read as itself. -/
theorem Binary64.readNumber?_text (x : Binary64) : readNumber? x.text = some x := by
  by_cases hzero : x.magnitude = 0
  · have hblank : ∀ c ∈ ['0', '.', '0'], Text.isBlank c = false := by simp [Text.isBlank]
    have hread : readUnsigned? ['0', '.', '0'] = some ⟨0, -1⟩ := by decide
    simp only [text, if_pos hzero]
    rw [readNumber?_signed x.negative hblank hread]
    cases x
    simp_all [Decimal.toBinary64?, zero]
  · obtain ⟨shown, hread, hshown⟩ := (shortest x.magnitude).readUnsigned?_text
    have hblank : ∀ c ∈ (shortest x.magnitude).text, Text.isBlank c = false :=
      fun c hc => Decimal.isBlank_of_isMark (List.all_eq_true.mp (Decimal.all_isMark_text _) c hc)
    simp only [text, if_neg hzero]
    rw [readNumber?_signed x.negative hblank hread, hshown.toBinary64?_eq]
    exact toBinary64?_shortest x (Nat.pos_of_ne_zero hzero)

theorem Binary64.all_isMark_text (x : Binary64) : x.text.all Decimal.isMark = true := by
  have hsign : (if x.negative then ['-'] else []).all Decimal.isMark = true := by
    cases x.negative <;> rfl
  have hzero : ['0', '.', '0'].all Decimal.isMark = true := by decide
  rw [text]
  by_cases hmagnitude : x.magnitude = 0
  · rw [if_pos hmagnitude, List.all_append, hsign, hzero, Bool.and_self]
  · rw [if_neg hmagnitude, List.all_append, hsign, Decimal.all_isMark_text, Bool.and_self]

theorem Number.all_isMark_text (n : Number) : n.text.all Decimal.isMark = true := by
  cases n with
  | integer n lower upper => exact Decimal.all_isMark_integerText n
  | float x => exact x.all_isMark_text

theorem Number.readNumber?_text (n : Number) : readNumber? n.text = some n.toBinary64 := by
  cases n with
  | integer n lower upper => exact readNumber?_integerText ⟨lower, upper⟩
  | float x => exact x.readNumber?_text

/-! ## Distinct texts -/

/-- A written decimal has a point or an exponent. -/
theorem Decimal.mem_text (d : Decimal) : '.' ∈ d.text ∨ 'e' ∈ d.text := by
  unfold text positionalText scientificText
  simp only
  split_ifs <;> simp

theorem Binary64.mem_text (x : Binary64) : '.' ∈ x.text ∨ 'e' ∈ x.text := by
  by_cases hzero : x.magnitude = 0
  · left
    simp only [text, if_pos hzero]
    simp
  · have hdecimal := (shortest x.magnitude).mem_text
    simp only [text, if_neg hzero, List.mem_append]
    exact hdecimal.imp .inr .inr

theorem Binary64.text_ne_integerText (x : Binary64) (n : Int) : x.text ≠ integerText n := by
  intro hsame
  have hmark : ∀ c ∈ x.text, c = '-' ∨ c.isDigit = true := by
    intro c hc
    rw [hsame] at hc
    exact isDigit_of_mem_integerText hc
  rcases x.mem_text with hpoint | hexponent
  · exact absurd (hmark '.' hpoint) (by decide)
  · exact absurd (hmark 'e' hexponent) (by decide)

theorem Number.text_ne_nil (n : Number) : n.text ≠ [] := by
  cases n with
  | integer n lower upper => exact integerText_ne_nil n
  | float x =>
      intro hnil
      rcases x.mem_text with hpoint | hexponent <;> simp_all [text]

/-- Different numbers are written differently. -/
theorem Number.text_injective : Function.Injective Number.text := by
  intro m n hsame
  cases m with
  | integer m lower upper =>
      cases n with
      | integer n lower' upper' =>
          obtain rfl := integerText_injective hsame
          rfl
      | float y => exact absurd hsame.symm (y.text_ne_integerText m)
  | float x =>
      cases n with
      | integer n lower upper => exact absurd hsame (x.text_ne_integerText n)
      | float y =>
          have htext : x.text = y.text := hsame
          have hread := x.readNumber?_text
          rw [htext, y.readNumber?_text] at hread
          rw [Option.some.inj hread]

end DecisionTables
