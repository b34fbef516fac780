import DecisionTables.Json.Printer
import DecisionTables.Json.Reader
import DecisionTables.Proofs.Number.Written

/-!
# Texts of values

The text of a value tells the value.  Its first character tells the kind; a string is read back up to
its closing quote, and a number ends where a character follows that is none of its own.  So a text
begins with the text of at most one value, the items of an array and the members of an object follow
one another without doubt, and different values never have the same text.
-/

namespace DecisionTables

namespace Json

/-! ## Strings -/

theorem hexValue?_hexDigit {n : Nat} (hn : n < 16) : hexValue? (hexDigit n) = some n := by
  interval_cases n <;> rfl

theorem readCodeUnit_hexDigits {n : Nat} (hn : n < 256) (cs : List Char) :
    ∃ h, readCodeUnit ('0' :: '0' :: hexDigit (n / 16) :: hexDigit (n % 16) :: cs) =
      .ok (Char.ofNat n, ⟨cs, h⟩) := by
  have hhigh := hexValue?_hexDigit (n := n / 16) (by omega)
  have hlow := hexValue?_hexDigit (n := n % 16) (by omega)
  have hzero : hexValue? '0' = some 0 := rfl
  have hvalue : ((0 * 16 + 0) * 16 + n / 16) * 16 + n % 16 = n := by omega
  refine ⟨by simp only [List.length_cons]; omega, ?_⟩
  simp only [readCodeUnit, readHex, hzero, hhigh, hlow, hvalue, bind, Except.bind]
  rw [if_neg (by omega), if_pos (by omega)]

/-- A character is written as itself, or as a backslash and what names the character. -/
theorem escapeChar_cases (c : Char) :
    escapeChar c = [c] ∧ c ≠ '"' ∧ c ≠ '\\' ∧ ¬ c.toNat < 32 ∨
      ∃ name, escapeChar c = '\\' :: name ∧
        ∀ cs, ∃ h, readEscape (name ++ cs) = .ok (c, ⟨cs, h⟩) := by
  unfold escapeChar
  split_ifs with hquote hslash hb hf hn hr ht hcontrol
  · exact .inr ⟨_, rfl, fun cs => ⟨by simp, by rw [hquote]; rfl⟩⟩
  · exact .inr ⟨_, rfl, fun cs => ⟨by simp, by rw [hslash]; rfl⟩⟩
  · exact .inr ⟨_, rfl, fun cs => ⟨by simp, by rw [hb]; rfl⟩⟩
  · exact .inr ⟨_, rfl, fun cs => ⟨by simp, by rw [hf]; rfl⟩⟩
  · exact .inr ⟨_, rfl, fun cs => ⟨by simp, by rw [hn]; rfl⟩⟩
  · exact .inr ⟨_, rfl, fun cs => ⟨by simp, by rw [hr]; rfl⟩⟩
  · exact .inr ⟨_, rfl, fun cs => ⟨by simp, by rw [ht]; rfl⟩⟩
  · refine .inr ⟨_, rfl, fun cs => ?_⟩
    obtain ⟨h, hread⟩ := readCodeUnit_hexDigits (n := c.toNat) (by omega) cs
    refine ⟨by simp; omega, ?_⟩
    simp [readEscape, hread, bind, Except.bind, pure, Except.pure]
  · exact .inl ⟨rfl, hquote, hslash, hcontrol⟩

theorem readString_escaped (chars rest : List Char) :
    ∃ h, readString (chars.flatMap escapeChar ++ '"' :: rest) = .ok (chars, ⟨rest, h⟩) := by
  induction chars with
  | nil =>
      rw [List.flatMap_nil, List.nil_append, readString]
      exact ⟨by simp, rfl⟩
  | cons c chars ih =>
      obtain ⟨h, hread⟩ := ih
      rw [List.flatMap_cons, List.append_assoc]
      rcases escapeChar_cases c with ⟨hself, hquote, hslash, hcontrol⟩ | ⟨name, hname, hescape⟩
      · rw [hself, List.singleton_append, readString]
        simp [hquote, hslash, hcontrol, hread, bind, Except.bind, pure, Except.pure]
        omega
      · obtain ⟨hshort, hescaped⟩ := hescape (chars.flatMap escapeChar ++ '"' :: rest)
        rw [hname, List.cons_append, readString]
        simp [hescaped, hread, bind, Except.bind, pure, Except.pure]
        omega

theorem eq_of_quote_append {cs ds rest other : List Char}
    (hsame : quote cs ++ rest = quote ds ++ other) : cs = ds ∧ rest = other := by
  have htail : cs.flatMap escapeChar ++ '"' :: rest = ds.flatMap escapeChar ++ '"' :: other := by
    simpa [quote] using hsame
  obtain ⟨h, hread⟩ := readString_escaped cs rest
  obtain ⟨h', hread'⟩ := readString_escaped ds other
  have hboth := congrArg (fun text => (readString text).map fun read => (read.1, read.2.val)) htail
  simpa [hread, hread', Except.map] using hboth

/-! ## The kind of a value -/

/-- The kind of the values whose text begins with the character. -/
def kindOfLead (c : Char) : String :=
  if c = 'n' then "null"
  else if c = 't' ∨ c = 'f' then "boolean"
  else if c = '"' then "string"
  else if c = '[' then "array"
  else if c = '\x7b' then "object"
  else if Decimal.isMark c then "number"
  else ""

theorem kindOfLead_of_isMark {c : Char} (hc : Decimal.isMark c = true) :
    kindOfLead c = "number" := by
  have hne : ∀ other, Decimal.isMark other = false → c ≠ other := by
    rintro other hother rfl
    simp [hc] at hother
  simp [kindOfLead, hc, hne 'n' rfl, hne 't' rfl, hne 'f' rfl, hne '"' rfl, hne '[' rfl,
    hne '\x7b' rfl]

/-- The first character of a text tells the kind of the value. -/
theorem exists_lead (value : Json) :
    ∃ c tail, value.chars = c :: tail ∧ value.kind = kindOfLead c := by
  cases value with
  | null => exact ⟨_, _, rfl, rfl⟩
  | bool b => cases b <;> exact ⟨_, _, rfl, rfl⟩
  | string s => exact ⟨_, _, rfl, rfl⟩
  | array items => exact ⟨_, _, rfl, rfl⟩
  | object members => exact ⟨_, _, rfl, rfl⟩
  | number n =>
      obtain ⟨c, tail, htext⟩ := List.exists_cons_of_ne_nil (Number.text_ne_nil n)
      have hmark := List.all_eq_true.mp n.all_isMark_text c (by simp [htext])
      exact ⟨c, tail, htext, (kindOfLead_of_isMark hmark).symm⟩

theorem kind_eq_of_chars_append {a b : Json} {rest other : List Char}
    (hsame : a.chars ++ rest = b.chars ++ other) : a.kind = b.kind := by
  obtain ⟨c, tail, ha, hkind⟩ := a.exists_lead
  obtain ⟨d, tail', hb, hkind'⟩ := b.exists_lead
  rw [ha, hb] at hsame
  rw [hkind, hkind', (List.cons.inj hsame).1]

/-- A number that stands before the text does not go on in it. -/
def EndsNumber (rest : List Char) : Prop :=
  ∀ c ∈ rest.head?, Decimal.isMark c = false

theorem endsNumber_cons {c : Char} (hc : Decimal.isMark c = false) (rest : List Char) :
    EndsNumber (c :: rest) := by
  simpa [EndsNumber] using hc

theorem takeWhile_isMark_append {n : Number} {rest : List Char} (hrest : EndsNumber rest) :
    (n.text ++ rest).takeWhile Decimal.isMark = n.text :=
  (Text.takeWhile_dropWhile_append (List.all_eq_true.mp n.all_isMark_text) hrest).1

theorem eq_of_text_append {m n : Number} {rest other : List Char} (hrest : EndsNumber rest)
    (hother : EndsNumber other) (hsame : m.text ++ rest = n.text ++ other) :
    m = n ∧ rest = other := by
  have htext : m.text = n.text := by
    rw [← takeWhile_isMark_append (n := m) hrest, hsame, takeWhile_isMark_append hother]
  rw [htext] at hsame
  exact ⟨Number.text_injective htext, List.append_cancel_left hsame⟩

/-! ## Sequences -/

section Sequences

variable {α : Type} (piece : α → List Char)

/-- The pieces of some values with commas between them. -/
def separated : List α → List Char
  | [] => []
  | [a] => piece a
  | a :: rest => piece a ++ ',' :: separated rest

/-- What follows the first piece. -/
def separatedTail : List α → List Char
  | [] => []
  | rest => ',' :: separated piece rest

theorem separated_cons (a : α) (rest : List α) :
    separated piece (a :: rest) = piece a ++ separatedTail piece rest := by
  cases rest <;> simp [separated, separatedTail]

/-- A text begins with the piece of at most one value, which may be this one. -/
def IsUnambiguous (a : α) : Prop :=
  ∀ b rest other, EndsNumber rest → EndsNumber other → piece a ++ rest = piece b ++ other →
    a = b ∧ rest = other

variable {piece}

theorem endsNumber_separatedTail {close : Char} (hclose : Decimal.isMark close = false)
    (rest : List α) (cs : List Char) : EndsNumber (separatedTail piece rest ++ close :: cs) := by
  cases rest with
  | nil => exact endsNumber_cons hclose cs
  | cons a rest => exact endsNumber_cons rfl _

/-- Pieces that can be told apart, from each other and from the closing mark, tell the values. -/
theorem eq_of_separated_append (close : Char) {as bs : List α} {rest other : List Char}
    (hclose : Decimal.isMark close = false) (hcomma : close ≠ ',')
    (hpiece : ∀ a cs ds, piece a ++ cs ≠ close :: ds) (has : ∀ a ∈ as, IsUnambiguous piece a)
    (hsame : separated piece as ++ close :: rest = separated piece bs ++ close :: other) :
    as = bs ∧ rest = other := by
  induction as generalizing bs with
  | nil =>
      cases bs with
      | nil => simpa [separated] using hsame
      | cons b bs =>
          rw [separated_cons, List.append_assoc] at hsame
          exact absurd hsame.symm (hpiece _ _ _)
  | cons a as ih =>
      cases bs with
      | nil =>
          rw [separated_cons, List.append_assoc] at hsame
          exact absurd hsame (hpiece _ _ _)
      | cons b bs =>
          rw [separated_cons, separated_cons, List.append_assoc, List.append_assoc] at hsame
          obtain ⟨rfl, htails⟩ := has a (by simp) b _ _ (endsNumber_separatedTail hclose as rest)
            (endsNumber_separatedTail hclose bs other) hsame
          -- What follows begins with a comma or the closing mark, which tells whether there is more.
          cases as with
          | nil =>
              cases bs with
              | nil => exact ⟨rfl, (List.cons.inj htails).2⟩
              | cons b bs => exact absurd (List.cons.inj htails).1 hcomma
          | cons a' as =>
              cases bs with
              | nil => exact absurd (List.cons.inj htails).1.symm hcomma
              | cons b bs =>
                  have hmore := fun a ha => has a (List.mem_cons_of_mem _ ha)
                  obtain ⟨htail, hrest⟩ := ih hmore (List.cons.inj htails).2
                  exact ⟨by rw [htail], hrest⟩

end Sequences

theorem itemChars_eq (items : List Json) : itemChars items = separated chars items := by
  induction items with
  | nil => rfl
  | cons item items ih => cases items <;> simp_all [itemChars, separated]

def memberText (member : String × Json) : List Char :=
  quote member.1.toList ++ ':' :: member.2.chars

theorem memberChars_eq (members : List (String × Json)) :
    memberChars members = separated memberText members := by
  induction members with
  | nil => rfl
  | cons member members ih =>
      obtain ⟨key, value⟩ := member
      cases members <;> simp_all [memberChars, separated, memberText]

/-! ## Values -/

theorem chars_append_ne_bracket (value : Json) (rest other : List Char) :
    value.chars ++ rest ≠ ']' :: other := by
  obtain ⟨c, tail, hchars, hkind⟩ := value.exists_lead
  intro hsame
  rw [hchars] at hsame
  rw [(List.cons.inj hsame).1] at hkind
  cases value <;> simp [kind, kindOfLead, Decimal.isMark] at hkind

theorem isUnambiguous_null : IsUnambiguous chars null := by
  intro b rest other hrest hother hsame
  have hkind := kind_eq_of_chars_append hsame
  cases b with
  | null => exact ⟨rfl, List.append_cancel_left hsame⟩
  | _ => simp [kind] at hkind

theorem isUnambiguous_bool (x : Bool) : IsUnambiguous chars (bool x) := by
  intro b rest other hrest hother hsame
  have hkind := kind_eq_of_chars_append hsame
  cases b with
  | bool y => cases x <;> cases y <;> simp_all [chars]
  | _ => simp [kind] at hkind

theorem isUnambiguous_number (n : Number) : IsUnambiguous chars (number n) := by
  intro b rest other hrest hother hsame
  have hkind := kind_eq_of_chars_append hsame
  cases b with
  | number m =>
      obtain ⟨hsameNumber, htail⟩ := eq_of_text_append hrest hother hsame
      exact ⟨congrArg number hsameNumber, htail⟩
  | _ => simp [kind] at hkind

theorem isUnambiguous_string (s : String) : IsUnambiguous chars (string s) := by
  intro b rest other hrest hother hsame
  have hkind := kind_eq_of_chars_append hsame
  cases b with
  | string t =>
      obtain ⟨hchars, htail⟩ := eq_of_quote_append hsame
      exact ⟨congrArg string (String.toList_inj.mp hchars), htail⟩
  | _ => simp [kind] at hkind

theorem isUnambiguous_array {items : List Json}
    (hitems : ∀ item ∈ items, IsUnambiguous chars item) : IsUnambiguous chars (array items) := by
  intro b rest other hrest hother hsame
  have hkind := kind_eq_of_chars_append hsame
  cases b with
  | array others =>
      obtain ⟨hsameItems, htail⟩ := eq_of_separated_append ']' rfl (by decide)
        chars_append_ne_bracket hitems (by simpa [chars, itemChars_eq] using hsame)
      exact ⟨congrArg array hsameItems, htail⟩
  | _ => simp [kind] at hkind

theorem isUnambiguous_memberText {member : String × Json}
    (hvalue : IsUnambiguous chars member.2) : IsUnambiguous memberText member := by
  rintro ⟨otherKey, otherValue⟩ rest other hrest hother hsame
  simp only [memberText, List.append_assoc, List.cons_append] at hsame
  obtain ⟨hkeys, hvalues⟩ := eq_of_quote_append hsame
  obtain ⟨hsameValue, htail⟩ := hvalue otherValue rest other hrest hother (List.cons.inj hvalues).2
  exact ⟨Prod.ext (String.toList_inj.mp hkeys) hsameValue, htail⟩

theorem isUnambiguous_object {members : List (String × Json)}
    (hmembers : ∀ member ∈ members, IsUnambiguous chars member.2) :
    IsUnambiguous chars (object members) := by
  intro b rest other hrest hother hsame
  have hkind := kind_eq_of_chars_append hsame
  cases b with
  | object others =>
      obtain ⟨hsameMembers, htail⟩ := eq_of_separated_append '\x7d' rfl (by decide)
        (by simp [memberText, quote])
        (fun member hmember => isUnambiguous_memberText (hmembers member hmember))
        (by simpa [chars, memberChars_eq] using hsame)
      exact ⟨congrArg object hsameMembers, htail⟩
  | _ => simp [kind] at hkind

/-- A text begins with the text of at most one value. -/
theorem isUnambiguous_chars (value : Json) : IsUnambiguous chars value := by
  cases value with
  | null => exact isUnambiguous_null
  | bool x => exact isUnambiguous_bool x
  | number n => exact isUnambiguous_number n
  | string s => exact isUnambiguous_string s
  | array items =>
      refine isUnambiguous_array fun item hitem => ?_
      have hsmaller := List.sizeOf_lt_of_mem hitem
      exact isUnambiguous_chars item
  | object members =>
      refine isUnambiguous_object fun member hmember => ?_
      have hsmaller := List.sizeOf_lt_of_mem hmember
      have hvalue : sizeOf member = 1 + sizeOf member.1 + sizeOf member.2 :=
        Prod.mk.sizeOf_spec _ _
      exact isUnambiguous_chars member.2
termination_by sizeOf value
decreasing_by
  · rw [array.sizeOf_spec]
    omega
  · rw [object.sizeOf_spec]
    omega

/-- Different values have different texts. -/
theorem text_injective : Function.Injective text := by
  intro a b hsame
  have hnil : EndsNumber [] := by simp [EndsNumber]
  have hchars : a.chars ++ [] = b.chars ++ [] := by
    rw [List.append_nil, List.append_nil]
    exact String.ofList_injective hsame
  exact (isUnambiguous_chars a b [] [] hnil hnil hchars).1

end Json
end DecisionTables
