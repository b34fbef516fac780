import DecisionTables.Blob.Coder
import Mathlib.Algebra.Group.Nat.Defs
import Mathlib.Tactic.SplitIfs

/-!
# Reading back what was written

A coder is lossless when it reads back every value from the bytes that it wrote for it, whatever
bytes follow.  Lengths and counts are written as numbers of sixty-four bits, so this can hold only
for values whose bytes are not too many to be counted.  Every value takes at least one byte, hence
a list has no more items than bytes, and the bound on the bytes of a value is a bound on every
number that is written on its way.
-/

namespace DecisionTables.Blob

theorem ofLittleEndian_littleEndian {count n : Nat} (h : n < 256 ^ count) :
    ofLittleEndian (littleEndian count n) = n := by
  induction count generalizing n with
  | zero =>
    have : n = 0 := by simpa using h
    simp [this, littleEndian, ofLittleEndian]
  | succ count ih =>
    have hdiv : n / 256 < 256 ^ count :=
      (Nat.div_lt_iff_lt_mul (by decide)).mpr (by simpa [Nat.pow_succ] using h)
    have hrest := ih hdiv
    simp only [ofLittleEndian, littleEndian, List.foldr_cons] at hrest ⊢
    rw [hrest, UInt8.toNat_ofNat']
    omega

namespace Coder

variable {α β : Type}

def ReadsBack (coder : Coder α) (value : α) : Prop :=
  ∀ rest, coder.read (coder.write value ++ rest) = some (value, rest)

structure Lossless (coder : Coder α) : Prop where
  write_ne_nil : ∀ value, coder.write value ≠ []
  readsBack : ∀ value, (coder.write value).length < 2 ^ 64 → coder.ReadsBack value

/-! ## Numbers -/

theorem readNatural_marked {mark : UInt8} {width widest n : Nat} (hmark : ¬ mark < 251)
    (hwidth : widthOf? mark = some width) (hwidest : width ≤ widest) (hn : n < 256 ^ width)
    (rest : List UInt8) :
    readNatural widest (mark :: littleEndian width n ++ rest) = some (n, rest) := by
  have htake : takeBytes? width (littleEndian width n ++ rest) =
      some (littleEndian width n, rest) := by
    have htaken := takeBytes?_append (littleEndian width n) rest
    rwa [length_littleEndian] at htaken
  rw [List.cons_append, readNatural, if_neg hmark]
  simp only [hwidth, if_pos hwidest, htake, Option.map_some, ofLittleEndian_littleEndian hn]

theorem readNatural_writeNatural {widest n : Nat}
    (hn : n < 2 ^ 32 ∧ 4 ≤ widest ∨ n < 2 ^ 64 ∧ 8 ≤ widest) (rest : List UInt8) :
    readNatural widest (writeNatural n ++ rest) = some (n, rest) := by
  have hsixteen : UInt16.size = 256 ^ 2 := rfl
  have hthirtyTwo : UInt32.size = 256 ^ 4 := rfl
  unfold writeNatural
  split_ifs with hone htwo hfour
  · have hbyte : (UInt8.ofNat n).toNat = n := by
      rw [UInt8.toNat_ofNat']
      omega
    have hless : UInt8.ofNat n < 251 := by
      rw [UInt8.lt_iff_toNat_lt, hbyte]
      exact hone
    rw [List.singleton_append, readNatural, if_pos hless, hbyte]
  · exact readNatural_marked (by decide) rfl (by omega) (by omega) rest
  · exact readNatural_marked (by decide) rfl (by omega) (by omega) rest
  · exact readNatural_marked (by decide) rfl (by omega) (by omega) rest

theorem natural_readsBack {n : Nat} (hn : n < 2 ^ 64) : natural.ReadsBack n :=
  readNatural_writeNatural (.inr ⟨hn, Nat.le_refl 8⟩)

theorem writeNatural_ne_nil (n : Nat) : writeNatural n ≠ [] := by
  unfold writeNatural
  split_ifs <;> simp

theorem unzigzag_zigzag (n : Int) : unzigzag (zigzag n) = n := by
  unfold unzigzag zigzag
  split_ifs <;> omega

theorem zigzag_lt (n : Int64) : zigzag n.toInt < 2 ^ 64 := by
  have hlow := n.le_toInt
  have hhigh := n.toInt_lt
  unfold zigzag
  split_ifs <;> omega

theorem signed_lossless : signed.Lossless where
  write_ne_nil n := writeNatural_ne_nil _
  readsBack n _ := by
    intro rest
    have hread := natural_readsBack (zigzag_lt n) rest
    simp [signed, map, hread, unzigzag_zigzag]

/-! ## Values of one kind -/

theorem truth_lossless : truth.Lossless where
  write_ne_nil b := by simp [truth]
  readsBack b _ := by
    intro rest
    cases b <;> simp [truth]

theorem choice_lossless [BEq α] [LawfulBEq α] {values : List α} (hall : ∀ value, value ∈ values)
    (hfew : values.length < 2 ^ 32) : (choice values).Lossless where
  write_ne_nil value := writeNatural_ne_nil _
  readsBack value _ := by
    intro rest
    have hposition : values.idxOf value < values.length := List.idxOf_lt_length_of_mem (hall value)
    have hread : readNatural 4 (writeNatural (values.idxOf value) ++ rest) =
        some (values.idxOf value, rest) :=
      readNatural_writeNatural (.inl ⟨Nat.lt_trans hposition hfew, Nat.le_refl 4⟩) rest
    have hvalue : values[values.idxOf value]? = some value := by
      rw [List.getElem?_eq_getElem hposition, List.getElem_idxOf]
    simp [choice, hread, hvalue]

theorem toByteArray_utf8 (text : String) : (utf8 text).toByteArray = text.toByteArray :=
  String.utf8Encode_toList

theorem ofUtf8?_utf8 (text : String) : ofUtf8? (utf8 text) = some text := by
  have hvalid : (utf8 text).toByteArray.IsValidUTF8 := by
    rw [toByteArray_utf8]
    exact text.isValidUTF8
  rw [ofUtf8?, dif_pos hvalid]
  simp only [toByteArray_utf8]

theorem text_lossless : text.Lossless where
  write_ne_nil value := by
    intro hnil
    exact writeNatural_ne_nil _ (List.append_eq_nil_iff.mp hnil).1
  readsBack value hlength := by
    intro rest
    have hcount : (utf8 value).length < 2 ^ 64 := by
      simp only [text, List.length_append] at hlength
      omega
    have hread := natural_readsBack hcount (utf8 value ++ rest)
    have htake := takeBytes?_append (utf8 value) rest
    simp [text, hread, htake, ofUtf8?_utf8]

/-! ## Values made of others -/

variable {coder : Coder α} {other : Coder β}

theorem ReadsBack.map {into : α → β} {back : β → α} {value : β}
    (hreads : coder.ReadsBack (back value)) (hinverse : into (back value) = value) :
    (coder.map into back).ReadsBack value := by
  intro rest
  simp [Coder.map, hreads rest, hinverse]

theorem ReadsBack.pair {a : α} {b : β} (ha : coder.ReadsBack a) (hb : other.ReadsBack b) :
    (coder.pair other).ReadsBack (a, b) := by
  intro rest
  have hfirst := ha (other.write b ++ rest)
  simp [Coder.pair, hfirst, hb rest]

theorem Lossless.map {into : α → β} {back : β → α} (hcoder : coder.Lossless)
    (hinverse : ∀ value, into (back value) = value) : (coder.map into back).Lossless where
  write_ne_nil value := hcoder.write_ne_nil (back value)
  readsBack value hlength := (hcoder.readsBack (back value) hlength).map (hinverse value)

theorem Lossless.pair (hcoder : coder.Lossless) (hother : other.Lossless) :
    (coder.pair other).Lossless where
  write_ne_nil := by
    rintro ⟨a, b⟩ hnil
    exact hcoder.write_ne_nil a (List.append_eq_nil_iff.mp hnil).1
  readsBack := by
    rintro ⟨a, b⟩ hlength
    simp only [Coder.pair, List.length_append] at hlength
    have hfirst := hcoder.readsBack a (by omega)
    have hsecond := hother.readsBack b (by omega)
    exact hfirst.pair hsecond

theorem Lossless.option (hcoder : coder.Lossless) : coder.option.Lossless where
  write_ne_nil value := by cases value <;> simp [Coder.option, truth]
  readsBack value hlength := by
    intro rest
    have hflag := fun b => truth_lossless.readsBack b (by simp [truth])
    cases value with
    | none => simp [Coder.option, hflag false rest]
    | some value =>
        simp only [Coder.option, List.length_append] at hlength
        have hvalue := hcoder.readsBack value (by omega)
        have hpresent := hflag true (coder.write value ++ rest)
        simp [Coder.option, hpresent, hvalue rest]

theorem readMany_append {values : List α} (hreads : ∀ value ∈ values, coder.ReadsBack value)
    (rest : List UInt8) :
    coder.readMany values.length (values.flatMap coder.write ++ rest) = some (values, rest) := by
  induction values with
  | nil => rfl
  | cons value values ih =>
      obtain ⟨hvalue, hvalues⟩ := List.forall_mem_cons.mp hreads
      have hfirst := hvalue (values.flatMap coder.write ++ rest)
      rw [List.flatMap_cons, List.append_assoc, List.length_cons, readMany, hfirst]
      simp only [ih hvalues]

theorem Lossless.length_le_flatMap (hcoder : coder.Lossless) (values : List α) :
    values.length ≤ (values.flatMap coder.write).length := by
  induction values with
  | nil => simp
  | cons value values ih =>
      have hvalue := List.length_pos_iff.mpr (hcoder.write_ne_nil value)
      rw [List.flatMap_cons, List.length_append, List.length_cons]
      omega

theorem length_write_le_flatMap (coder : Coder α) {value : α} {values : List α}
    (hmem : value ∈ values) :
    (coder.write value).length ≤ (values.flatMap coder.write).length := by
  obtain ⟨before, after, rfl⟩ := List.append_of_mem hmem
  rw [List.flatMap_append, List.flatMap_cons, List.length_append, List.length_append]
  omega

theorem Lossless.list (hcoder : coder.Lossless) : coder.list.Lossless where
  write_ne_nil values := by
    intro hnil
    exact writeNatural_ne_nil _ (List.append_eq_nil_iff.mp hnil).1
  readsBack values hlength := by
    intro rest
    simp only [Coder.list, List.length_append] at hlength
    have hcount := hcoder.length_le_flatMap values
    have hread := natural_readsBack (n := values.length) (by omega)
      (values.flatMap coder.write ++ rest)
    have hvalues : ∀ value ∈ values, coder.ReadsBack value := by
      intro value hmem
      have hvalue := length_write_le_flatMap coder hmem
      exact hcoder.readsBack value (by omega)
    have hmany := readMany_append hvalues rest
    simp [Coder.list, hread, hmany]

end Coder

end DecisionTables.Blob
