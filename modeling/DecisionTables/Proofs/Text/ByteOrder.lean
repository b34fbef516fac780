import DecisionTables.Blob.Coder
import Mathlib.Data.Char
import Mathlib.Data.List.Lex
import Mathlib.Data.String.Basic

/-!
# The order of bytes

Texts are ordered by their characters, and so are their bytes.  Of two characters the smaller one
has no longer form, and where both forms have the same length, the bytes are digits of the
characters, the highest ones first.
-/

namespace DecisionTables.Blob.Coder

theorem ofNat_cons_lt {m n : Nat} {bytes others : List UInt8} (hle : m ≤ n) (hn : n < 256)
    (hrest : m = n → bytes < others) : UInt8.ofNat m :: bytes < UInt8.ofNat n :: others := by
  rw [List.cons_lt_cons_iff]
  rcases Nat.lt_or_eq_of_le hle with hlt | rfl
  · left
    rw [UInt8.lt_iff_toNat_lt, UInt8.toNat_ofNat', UInt8.toNat_ofNat', Nat.mod_eq_of_lt hn,
      Nat.mod_eq_of_lt (hlt.trans hn)]
    exact hlt
  · exact .inr ⟨rfl, hrest rfl⟩

theorem utf8EncodeChar_append_lt {c d : Char} (hlt : c < d) (bytes others : List UInt8) :
    String.utf8EncodeChar c ++ bytes < String.utf8EncodeChar d ++ others := by
  have hvalues : c.val.toNat < d.val.toNat := hlt
  have hbound : d.val.toNat < 1114112 := by
    rcases d.valid with hlow | hhigh <;> omega
  simp only [String.utf8EncodeChar]
  -- No byte is greater than the one in its place, and they cannot all be the same.
  split_ifs <;> (repeat refine ofNat_cons_lt (by omega) (by omega) fun heq => ?_) <;> omega

theorem flatMap_utf8EncodeChar_lt {cs ds : List Char} (hlt : cs < ds) :
    cs.flatMap String.utf8EncodeChar < ds.flatMap String.utf8EncodeChar := by
  induction hlt with
  | @nil d ds =>
      rcases List.exists_cons_of_ne_nil (String.utf8EncodeChar_ne_nil (c := d)) with
        ⟨byte, bytes, hbytes⟩
      rw [List.flatMap_nil, List.flatMap_cons, hbytes]
      exact List.nil_lt_cons _ _
  | rel hlt => exact utf8EncodeChar_append_lt hlt _ _
  | cons _ ih => exact List.append_left_lt ih

theorem utf8_lt_utf8 {text other : String} (hlt : text < other) : utf8 text < utf8 other :=
  flatMap_utf8EncodeChar_lt (String.lt_iff_toList_lt.mp hlt)

end DecisionTables.Blob.Coder
