import DecisionTables.Call.Reader
import DecisionTables.Json.Printer
import DecisionTables.Proofs.Path.Spelling
import Mathlib

/-!
# The spelling of calls

A call is spelled by its mark and its name, and by its arguments between parentheses, with blanks
wherever they separate.  An argument ends before the blanks that stand in front of the next comma or
closing parenthesis: a quoted text and an inner call end by themselves, a path ends where neither a
name nor a segment goes on, and bare text is trimmed.  So whatever is put into the arguments, quoted
commas and parentheses among it, the tree is read back, with its names in lower case.
-/

namespace DecisionTables

open Text (IsBlankText isBlank trimStart)

theorem Number.ofBinary64_ofInt {n : Int} (hn : n.natAbs ≤ 2 ^ 53)
    (lower : -9223372036854775808 ≤ n) (upper : n ≤ 18446744073709551615) :
    Number.ofBinary64 (.ofInt n) = .integer n lower upper := by
  have hmin : min n 9223372036854775807 = n := by omega
  unfold ofBinary64
  rw [Binary64.toInt?_ofInt hn]
  simp only [hmin]
  rw [dif_pos (by omega)]

namespace Call

/-- A letter or an underscore, and letters, digits and underscores after it. -/
def IsName (name : List Char) : Prop :=
  ∃ c tail, name = c :: tail ∧ isNameStart c = true ∧ ∀ d ∈ tail, isNameChar d = true

end Call

/-- Texts stand in quotes, and truth values, null and integers for themselves. -/
inductive Json.IsSpelledBy : Json → List Char → Prop where
  | text {cs : List Char} (hquote : '\'' ∉ cs) :
      IsSpelledBy (.string (String.ofList cs)) ('\'' :: (cs ++ ['\'']))
  | truth (value : Bool) : IsSpelledBy (.bool value) (Json.bool value).chars
  | null : IsSpelledBy .null Json.null.chars
  | integer {n : Int} {lower : -9223372036854775808 ≤ n} {upper : n ≤ 18446744073709551615}
      (hsmall : n.natAbs ≤ 2 ^ 53) :
      IsSpelledBy (.number (.integer n lower upper)) (integerText n)

namespace Argument

mutual

/-- The text is one way to write the argument. -/
def IsSpelledBy : Argument → List Char → Prop
  | literal value, cs => value.IsSpelledBy cs
  | path target, cs => Text.trim cs = cs ∧ Path.parse (String.ofList cs) = .ok target
  | call name arguments, cs =>
    ∃ gap inside, Call.IsName name.toList ∧ IsBlankText gap ∧ AreSpelledBy arguments inside ∧
      cs = '#' :: (name.toList ++ (gap ++ '(' :: (inside ++ [')'])))

/-- The text has the arguments with commas between them, and blanks around each. -/
def AreSpelledBy : List Argument → List Char → Prop
  | [], cs => IsBlankText cs
  | [argument], cs =>
    ∃ before piece after, IsBlankText before ∧ IsBlankText after ∧ argument.IsSpelledBy piece ∧
      cs = before ++ (piece ++ after)
  | argument :: next :: rest, cs =>
    ∃ before piece after more, IsBlankText before ∧ IsBlankText after ∧
      argument.IsSpelledBy piece ∧ AreSpelledBy (next :: rest) more ∧
      cs = before ++ (piece ++ (after ++ ',' :: more))

end

mutual

/-- The same tree with its names in lower case. -/
def folded : Argument → Argument
  | literal value => literal value
  | path target => path target
  | call name arguments => call (foldedName name) (foldedAll arguments)

def foldedAll : List Argument → List Argument
  | [] => []
  | argument :: rest => argument.folded :: foldedAll rest

end

end Argument

namespace Call

/-! ## Characters -/

/-- The characters of words that are no quoted text. -/
def isWordChar (c : Char) : Bool :=
  isNameChar c || c == '-'

theorem isBlank_of_isNameChar {c : Char} (hc : isNameChar c = true) : isBlank c = false := by
  have hbounds : 48 ≤ c.toNat ∧ c.toNat < 123 := by
    simp [isNameChar, Char.isAlphanum, Char.isAlpha, Char.isUpper, Char.isLower, Char.isDigit,
      UInt32.le_iff_toNat_le, ← Char.toNat_inj] at hc
    omega
  simp [isBlank, Char.le_def, UInt32.le_iff_toNat_le, ← Char.toNat_inj]
  omega

theorem ne_of_isWordChar {c d : Char} (hc : isWordChar c = true) (hd : isWordChar d = false) :
    c ≠ d := by
  rintro rfl
  simp [hc] at hd

theorem isBlank_of_isWordChar {c : Char} (hc : isWordChar c = true) : isBlank c = false := by
  rcases (Bool.or_eq_true _ _).mp hc with hname | hminus
  · exact isBlank_of_isNameChar hname
  · rw [beq_iff_eq.mp hminus]
    rfl

theorem isBareChar_iff {c : Char} : isBareChar c = true ↔ c ≠ ',' ∧ c ≠ ')' := by
  simp [isBareChar]

theorem isBareChar_of_isWordChar {c : Char} (hc : isWordChar c = true) : isBareChar c = true :=
  isBareChar_iff.mpr ⟨ne_of_isWordChar hc rfl, ne_of_isWordChar hc rfl⟩

theorem isBareChar_of_isBlank {c : Char} (hc : isBlank c = true) : isBareChar c = true := by
  refine isBareChar_iff.mpr ⟨?_, ?_⟩ <;> (rintro rfl; contradiction)

theorem rootOf?_of_isWordChar {c : Char} (hc : isWordChar c = true) : Path.rootOf? c = none := by
  rw [Path.rootOf?, if_neg (ne_of_isWordChar hc rfl), if_neg (ne_of_isWordChar hc rfl)]

/-- A comma or a closing parenthesis, where bare text ends. -/
theorem isBlank_of_not_isBareChar {c : Char} (hc : isBareChar c = false) : isBlank c = false := by
  cases hblank : isBlank c with
  | false => rfl
  | true =>
      rw [isBareChar_of_isBlank hblank] at hc
      contradiction

/-! ## Single arguments -/

/-- The argument is read off the front of the text, and the tail follows, blanks aside. -/
def ReadsTo (cs : List Char) (argument : Argument) (tail : List Char) : Prop :=
  ∃ c rest unread h, cs = c :: rest ∧ isBlank c = false ∧ isBareChar c = true ∧
    readArgument c rest = .ok (argument, ⟨unread, h⟩) ∧ trimStart unread = tail

variable {after more : List Char} {close : Char}

theorem trimStart_blanks_close (hafter : IsBlankText after) (hclose : isBareChar close = false)
    (more : List Char) : trimStart (after ++ close :: more) = close :: more := by
  rw [Text.trimStart_blanks_append hafter,
    Text.trimStart_of_not_isBlank (isBlank_of_not_isBareChar hclose)]

theorem readArgument_bare {c : Char} (hword : isWordChar c = true) (cs : List Char) :
    readArgument c cs = .ok (readBare c cs) := by
  rw [readArgument, if_neg (ne_of_isWordChar hword rfl), rootOf?_of_isWordChar hword]
  simp only
  rw [if_neg (ne_of_isWordChar hword rfl)]

theorem trimStart_close (hclose : isBareChar close = false) (more : List Char) :
    trimStart (close :: more) = close :: more :=
  Text.trimStart_of_not_isBlank (isBlank_of_not_isBareChar hclose) more

/-- Bare text runs over the blanks behind it to the comma or the closing parenthesis. -/
theorem readsTo_word {cs : List Char} (hne : cs ≠ []) (hword : ∀ c ∈ cs, isWordChar c = true)
    (hafter : IsBlankText after) (hclose : isBareChar close = false) :
    ReadsTo (cs ++ (after ++ close :: more)) (.literal (bareValue (cs ++ after)))
      (close :: more) := by
  obtain ⟨c, tail, rfl⟩ := List.exists_cons_of_ne_nil hne
  have hc : isWordChar c = true := hword c (by simp)
  have hbare : ∀ d ∈ tail ++ after, isBareChar d = true := by
    intro d hd
    rcases List.mem_append.mp hd with htail | hblank
    · exact isBareChar_of_isWordChar (hword d (List.mem_cons_of_mem _ htail))
    · exact isBareChar_of_isBlank (hafter d hblank)
  have hends : ∀ d ∈ (close :: more).head?, isBareChar d = false := by simpa using hclose
  obtain ⟨htake, hdrop⟩ := Text.takeWhile_dropWhile_append hbare hends
  rw [List.append_assoc] at htake hdrop
  refine ⟨c, tail ++ (after ++ close :: more), close :: more, ?_, rfl, isBlank_of_isWordChar hc,
    isBareChar_of_isWordChar hc, ?_, trimStart_close hclose more⟩
  · simp only [List.length_cons, List.length_append]
    omega
  · rw [readArgument_bare hc]
    simp only [readBare, htake, hdrop, List.cons_append]

theorem bareValue_append {cs : List Char} (hne : cs ≠ [])
    (hword : ∀ c ∈ cs, isWordChar c = true) (hafter : IsBlankText after) :
    bareValue (cs ++ after) = bareValue cs := by
  have hblank : ∀ c ∈ cs, isBlank c = false := fun c hc => isBlank_of_isWordChar (hword c hc)
  have hnone : IsBlankText [] := by decide
  have htrim : Text.trim (cs ++ after) = cs :=
    Text.trim_append_blanks hnone hafter hne (hblank _ (List.head_mem hne))
      (hblank _ (List.getLast_mem hne))
  rw [bareValue, bareValue, htrim, Text.trim_of_not_isBlank hblank]

theorem isWordChar_of_mem_integerText {n : Int} {c : Char} (hc : c ∈ integerText n) :
    isWordChar c = true := by
  rcases isDigit_of_mem_integerText hc with rfl | hdigit
  · rfl
  · simp [isWordChar, isNameChar, Char.isAlphanum, hdigit]

theorem bareValue_integerText {n : Int} (hn : n.natAbs ≤ 2 ^ 53)
    (lower : -9223372036854775808 ≤ n) (upper : n ≤ 18446744073709551615) :
    bareValue (integerText n) = .number (.integer n lower upper) := by
  have hblank : ∀ c ∈ integerText n, isBlank c = false := fun c hc =>
    isBlank_of_isWordChar (isWordChar_of_mem_integerText hc)
  -- The words that bare text is compared with begin with a letter.
  have hne : ∀ c cs, c ≠ '-' → c.isDigit = false → integerText n ≠ c :: cs := by
    intro c cs hminus hdigit hsame
    have hmem : c ∈ integerText n := by simp [hsame]
    rcases isDigit_of_mem_integerText hmem with hmark | hmark
    · exact hminus hmark
    · rw [hdigit] at hmark
      contradiction
  have htrue : integerText n ≠ "true".toList := hne 't' _ (by decide) rfl
  have hfalse : integerText n ≠ "false".toList := hne 'f' _ (by decide) rfl
  have hnull : integerText n ≠ "null".toList := hne 'n' _ (by decide) rfl
  rw [bareValue, Text.trim_of_not_isBlank hblank]
  simp only [← String.toList_inj, String.toList_ofList, htrue, hfalse, hnull, if_false,
    readNumber?_integerText ⟨lower, upper⟩, Number.ofBinary64_ofInt hn lower upper]

theorem bareValue_truth (value : Bool) : bareValue (Json.bool value).chars = .bool value := by
  cases value <;> cbv

theorem bareValue_null : bareValue Json.null.chars = .null := by
  cbv

/-! ## Texts in quotes and paths -/

theorem readQuoted?_append {inner : List Char} (hquote : '\'' ∉ inner) (rest : List Char) :
    ∃ h, readQuoted? (inner ++ '\'' :: rest) =
      some (.literal (.string (String.ofList inner)), ⟨rest, h⟩) := by
  have hread : Path.upTo? '\'' (inner ++ '\'' :: rest) = some (inner, rest) :=
    Path.upTo?_eq_some_iff.mpr ⟨hquote, rfl⟩
  refine ⟨Path.length_upTo?_lt hread, ?_⟩
  unfold readQuoted?
  split
  · rename_i hsome
    rw [hread] at hsome
    cases hsome
    rfl
  · rename_i hnone
    rw [hread] at hnone
    contradiction

theorem readsTo_quoted {inner : List Char} (hquote : '\'' ∉ inner) (hafter : IsBlankText after)
    (hclose : isBareChar close = false) :
    ReadsTo ('\'' :: (inner ++ ['\'']) ++ (after ++ close :: more))
      (.literal (.string (String.ofList inner))) (close :: more) := by
  obtain ⟨h, hread⟩ := readQuoted?_append hquote (after ++ close :: more)
  refine ⟨'\'', inner ++ '\'' :: (after ++ close :: more), after ++ close :: more, ?_, by simp, rfl,
    rfl, ?_, trimStart_blanks_close hafter hclose more⟩
  · exact Nat.lt_succ_of_lt h
  · rw [readArgument, if_neg (by decide), show Path.rootOf? '\'' = none from rfl]
    simp only [if_true, hread]

theorem readsTo_literal {value : Json} {cs : List Char} (hspelled : value.IsSpelledBy cs)
    (hafter : IsBlankText after) (hclose : isBareChar close = false) :
    ReadsTo (cs ++ (after ++ close :: more)) (.literal value) (close :: more) := by
  have hwords : ∀ {word : List Char}, word ≠ [] → word.all isWordChar = true →
      bareValue word = value →
      ReadsTo (word ++ (after ++ close :: more)) (.literal value) (close :: more) := by
    intro word hne hall hvalue
    have hword := List.all_eq_true.mp hall
    rw [← hvalue, ← bareValue_append hne hword hafter]
    exact readsTo_word hne hword hafter hclose
  cases hspelled with
  | text hquote => exact readsTo_quoted hquote hafter hclose
  | truth value =>
      exact hwords (by cases value <;> decide) (by cases value <;> decide) (bareValue_truth value)
  | null => exact hwords (by decide) (by decide) bareValue_null
  | integer hsmall =>
      exact hwords (integerText_ne_nil _)
        (List.all_eq_true.mpr fun c hc => isWordChar_of_mem_integerText hc)
        (bareValue_integerText hsmall _ _)

theorem readPath_eq (root : Path.Root) (c : Char) {piece unread : List Char}
    {segments : List Path.Segment}
    (hread : Path.readSegments (piece ++ unread) = .ok (segments, unread)) :
    ∃ h, readPath root c (piece ++ unread) =
      .ok (.path ⟨String.ofList (c :: piece), root, segments⟩, ⟨unread, h⟩) := by
  have hsource : (c :: (piece ++ unread)).take ((piece ++ unread).length + 1 - unread.length) =
      c :: piece := by
    have hlength : (piece ++ unread).length + 1 - unread.length = (c :: piece).length := by
      simp only [List.length_append, List.length_cons]
      omega
    rw [hlength, ← List.cons_append, List.take_left]
  refine ⟨Nat.lt_succ_of_le (Path.length_readSegments_le hread), ?_⟩
  unfold readPath
  split
  · rename_i herror
    rw [hread] at herror
    contradiction
  · rename_i hok
    rw [hread] at hok
    cases hok
    simp only [hsource]

/-- Neither a blank nor what stands behind an argument goes on with a path. -/
theorem endsSegments_blanks_close (hafter : IsBlankText after) (hclose : isBareChar close = false)
    (more : List Char) : Path.EndsSegments (after ++ close :: more) := by
  have hends : ∀ c rest, isBlank c = true ∨ isBareChar c = false →
      Path.EndsSegments (c :: rest) := by
    intro c rest hc
    have hname : Path.isNameChar c = false := by
      rcases hc with hblank | hclose
      · simp [Path.isNameChar, hblank]
      · have hmark : c = ',' ∨ c = ')' := by
          rw [or_iff_not_imp_left]
          simpa [isBareChar] using hclose
        rcases hmark with rfl | rfl <;> rfl
    have hne : c ≠ '.' ∧ c ≠ '[' := by
      constructor <;> (rintro rfl; simp [isBareChar, isBlank] at hc)
    refine ⟨by simpa using hname, ?_⟩
    rw [Path.readSegments_cons, if_neg hne.1, if_neg hne.2]
  cases after with
  | nil => exact hends close more (.inr hclose)
  | cons c rest => exact hends c _ (.inl (hafter c (by simp)))

theorem readsTo_path {target : Path} {cs : List Char} (htrim : Text.trim cs = cs)
    (hparse : Path.parse (String.ofList cs) = .ok target) (hafter : IsBlankText after)
    (hclose : isBareChar close = false) :
    ReadsTo (cs ++ (after ++ close :: more)) (.path target) (close :: more) := by
  obtain ⟨source, root, segments⟩ := target
  obtain ⟨hsource, pieces, hspelled, hpieces⟩ := Path.parse_eq_ok_iff.mp hparse
  rw [String.toList_ofList, htrim] at hsource hpieces
  simp only at hsource hpieces
  have hread := Path.readSegments_flatten_append hspelled
    (endsSegments_blanks_close hafter hclose more)
  obtain ⟨h, hpath⟩ := readPath_eq root root.mark hread
  refine ⟨root.mark, pieces.flatten ++ (after ++ close :: more), after ++ close :: more, h, ?_, ?_,
    ?_, ?_, trimStart_blanks_close hafter hclose more⟩
  · rw [hpieces, List.cons_append]
  · cases root <;> rfl
  · cases root <;> rfl
  · have hmark : root.mark ≠ '#' := by cases root <;> decide
    rw [readArgument, if_neg hmark, Path.rootOf?_eq_some_iff.mpr rfl]
    simp only [hpath, hsource, hpieces]

/-! ## Calls -/

theorem readName_append {name tail : List Char} (hname : IsName name)
    (htail : ∀ c ∈ tail.head?, isNameChar c = false) :
    ∃ h, readName (name ++ tail) = .ok (foldedName (String.ofList name), ⟨tail, h⟩) := by
  obtain ⟨c, rest, rfl, hc, hrest⟩ := hname
  obtain ⟨htake, hdrop⟩ := Text.takeWhile_dropWhile_append hrest htail
  refine ⟨by simp only [List.length_append, List.length_cons]; omega, ?_⟩
  simp only [List.cons_append, readName, hc, if_true, htake, hdrop]

theorem readOpening_append {gap : List Char} (hgap : IsBlankText gap) (inside : List Char) :
    ∃ h, readOpening (gap ++ '(' :: inside) = .ok ⟨trimStart inside, h⟩ := by
  have htrim : trimStart (gap ++ '(' :: inside) = '(' :: inside := by
    rw [Text.trimStart_blanks_append hgap, Text.trimStart_of_not_isBlank (by decide)]
  have hlength : (trimStart inside).length < (gap ++ '(' :: inside).length := by
    have hle := Text.length_trimStart_le inside
    simp only [List.length_append, List.length_cons]
    omega
  refine ⟨hlength, ?_⟩
  unfold readOpening
  split
  · rename_i hopening
    rw [htrim] at hopening
    cases hopening
    rfl
  · rename_i hother
    exact absurd htrim (hother inside)

theorem ReadsTo.trimStart_eq {cs tail : List Char} {argument : Argument}
    (hread : ReadsTo cs argument tail) : trimStart cs = cs := by
  obtain ⟨c, rest, -, -, rfl, hblank, -⟩ := hread
  exact Text.trimStart_of_not_isBlank hblank rest

theorem readArguments_close (more : List Char) :
    ∃ h, readArguments (')' :: more) = .ok ([], ⟨')' :: more, h⟩) := by
  refine ⟨Nat.le_refl _, ?_⟩
  rw [readArguments, if_neg (by decide)]

theorem readArguments_last {cs more : List Char} {argument : Argument}
    (hread : ReadsTo cs argument (')' :: more)) :
    ∃ h, readArguments cs = .ok ([argument], ⟨')' :: more, h⟩) := by
  obtain ⟨c, rest, unread, h, rfl, -, hbare, hargument, htrim⟩ := hread
  have hle := Text.length_trimStart_le unread
  rw [htrim] at hle
  refine ⟨hle.trans h.le, ?_⟩
  rw [readArguments, if_pos hbare, hargument]
  simp only [bind, Except.bind]
  split
  · rename_i hcomma
    rw [htrim] at hcomma
    cases hcomma
  · simp only [htrim]
    rfl

theorem readArguments_more {cs more last : List Char} {argument next : Argument}
    {arguments : List Argument} (hread : ReadsTo cs argument (',' :: more))
    (hmore : ∃ h, readArguments (trimStart more) = .ok (next :: arguments, ⟨last, h⟩)) :
    ∃ h, readArguments cs = .ok (argument :: next :: arguments, ⟨last, h⟩) := by
  obtain ⟨c, rest, unread, h, rfl, -, hbare, hargument, htrim⟩ := hread
  obtain ⟨hlast, hmore⟩ := hmore
  have hlength : last.length ≤ (c :: rest).length := by
    have hle := Text.length_trimStart_le unread
    have hle' := Text.length_trimStart_le more
    rw [htrim, List.length_cons] at hle
    omega
  refine ⟨hlength, ?_⟩
  rw [readArguments, if_pos hbare, hargument]
  simp only [bind, Except.bind]
  split
  · rename_i hcomma
    rw [htrim] at hcomma
    cases hcomma
    rw [hmore]
    rfl
  · rename_i hother
    exact absurd htrim (hother more)

/-- Between a name and its parenthesis there is no character of names. -/
theorem isNameChar_gap {gap : List Char} (hgap : IsBlankText gap) (inside : List Char) :
    ∀ c ∈ (gap ++ '(' :: inside).head?, isNameChar c = false := by
  intro c hc
  cases gap with
  | nil =>
      cases hc
      rfl
  | cons d rest =>
      cases hc
      cases hname : isNameChar c with
      | false => rfl
      | true =>
          have hblank := hgap c (List.mem_cons_self ..)
          rw [isBlank_of_isNameChar hname] at hblank
          contradiction

theorem readAfterMark_append {name gap inside more : List Char} {arguments : List Argument}
    (hname : IsName name) (hgap : IsBlankText gap)
    (hinside : ∃ h, readArguments (trimStart (inside ++ ')' :: more)) =
      .ok (arguments, ⟨')' :: more, h⟩)) :
    ∃ h, readAfterMark (name ++ (gap ++ '(' :: (inside ++ ')' :: more))) =
      .ok ((foldedName (String.ofList name), arguments), ⟨more, h⟩) := by
  obtain ⟨hnameLength, hname⟩ :=
    readName_append hname (isNameChar_gap hgap (inside ++ ')' :: more))
  obtain ⟨hopeningLength, hopening⟩ := readOpening_append hgap (inside ++ ')' :: more)
  obtain ⟨hinsideLength, hinside⟩ := hinside
  have hlength : more.length <
      (name ++ (gap ++ '(' :: (inside ++ ')' :: more))).length := by
    simp only [List.length_append, List.length_cons]
    omega
  refine ⟨hlength, ?_⟩
  rw [readAfterMark, hname]
  simp only [bind, Except.bind]
  rw [hopening]
  simp only
  rw [hinside]
  rfl

theorem readsTo_call {name : String} {arguments : List Argument} {cs unread tail : List Char}
    (hread : ∃ h, readAfterMark cs = .ok ((name, arguments), ⟨unread, h⟩))
    (htail : trimStart unread = tail) : ReadsTo ('#' :: cs) (.call name arguments) tail := by
  obtain ⟨h, hread⟩ := hread
  refine ⟨'#', cs, unread, Nat.lt_succ_of_lt h, rfl, rfl, rfl, ?_, htail⟩
  rw [readArgument, if_pos rfl, hread]
  rfl

/-! ## Trees -/

mutual

theorem readsTo_spelled : ∀ {argument : Argument} {cs after more : List Char} {close : Char},
    argument.IsSpelledBy cs → IsBlankText after → isBareChar close = false →
    ReadsTo (cs ++ (after ++ close :: more)) argument.folded (close :: more)
  | .literal value, cs, after, more, close, hspelled, hafter, hclose => by
      rw [Argument.IsSpelledBy] at hspelled
      exact readsTo_literal hspelled hafter hclose
  | .path target, cs, after, more, close, hspelled, hafter, hclose => by
      rw [Argument.IsSpelledBy] at hspelled
      exact readsTo_path hspelled.1 hspelled.2 hafter hclose
  | .call name arguments, cs, after, more, close, hspelled, hafter, hclose => by
      rw [Argument.IsSpelledBy] at hspelled
      obtain ⟨gap, inside, hname, hgap, harguments, rfl⟩ := hspelled
      have hread := readAfterMark_append hname hgap
        (readArguments_spelled harguments (after ++ close :: more))
      have hcall := readsTo_call hread (trimStart_blanks_close hafter hclose more)
      rw [String.ofList_toList] at hcall
      rw [Argument.folded]
      simpa only [List.cons_append, List.append_assoc, List.nil_append] using hcall

theorem readArguments_spelled : ∀ {arguments : List Argument} {inside : List Char},
    Argument.AreSpelledBy arguments inside → ∀ more,
    ∃ h, readArguments (trimStart (inside ++ ')' :: more)) =
      .ok (Argument.foldedAll arguments, ⟨')' :: more, h⟩)
  | [], inside, hspelled, more => by
      rw [Argument.AreSpelledBy] at hspelled
      rw [trimStart_blanks_close hspelled (by decide) more, Argument.foldedAll]
      exact readArguments_close more
  | [argument], inside, hspelled, more => by
      rw [Argument.AreSpelledBy] at hspelled
      obtain ⟨before, piece, after, hbefore, hafter, hargument, rfl⟩ := hspelled
      have hread : ReadsTo (piece ++ (after ++ ')' :: more)) argument.folded (')' :: more) :=
        readsTo_spelled hargument hafter (by decide)
      have hsplit : trimStart (before ++ (piece ++ after) ++ ')' :: more) =
          piece ++ (after ++ ')' :: more) := by
        rw [List.append_assoc, List.append_assoc, Text.trimStart_blanks_append hbefore,
          hread.trimStart_eq]
      rw [hsplit]
      exact readArguments_last hread
  | argument :: next :: rest, inside, hspelled, more => by
      rw [Argument.AreSpelledBy] at hspelled
      obtain ⟨before, piece, after, others, hbefore, hafter, hargument, hothers, rfl⟩ := hspelled
      have hread : ReadsTo (piece ++ (after ++ ',' :: (others ++ ')' :: more))) argument.folded
          (',' :: (others ++ ')' :: more)) := readsTo_spelled hargument hafter (by decide)
      have hsplit : trimStart (before ++ (piece ++ (after ++ ',' :: others)) ++ ')' :: more) =
          piece ++ (after ++ ',' :: (others ++ ')' :: more)) := by
        rw [List.append_assoc, List.append_assoc, List.append_assoc,
          Text.trimStart_blanks_append hbefore, List.cons_append, hread.trimStart_eq]
      rw [hsplit]
      -- There is an argument behind the comma, so the comma is not left unread.
      exact readArguments_more hread (readArguments_spelled hothers more)

end

theorem readText_spelled {name : String} {arguments : List Argument} {text : List Char}
    (hspelled : (Argument.call name arguments).IsSpelledBy text) :
    readText text = .ok ⟨foldedName name, Argument.foldedAll arguments⟩ := by
  rw [Argument.IsSpelledBy] at hspelled
  obtain ⟨gap, inside, hname, hgap, harguments, rfl⟩ := hspelled
  obtain ⟨h, hread⟩ := readAfterMark_append hname hgap (readArguments_spelled harguments [])
  rw [readText, hread, String.ofList_toList]

/-- A call starts with its mark and ends with its closing parenthesis. -/
theorem trim_spelled {name : String} {arguments : List Argument} {text : List Char}
    (hspelled : (Argument.call name arguments).IsSpelledBy text) {before after : List Char}
    (hbefore : IsBlankText before) (hafter : IsBlankText after) :
    Text.trim (before ++ (text ++ after)) = text := by
  rw [Argument.IsSpelledBy] at hspelled
  obtain ⟨gap, inside, -, -, -, rfl⟩ := hspelled
  refine Text.trim_append_blanks hbefore hafter (List.cons_ne_nil _ _) rfl ?_
  simp only [← List.cons_append, ← List.append_assoc, List.getLast_concat]
  rfl

/--
Whatever its arguments are, and however they are nested, a call is read back from every text that
spells it, with its names in lower case.
-/
theorem parse_spelled {name : String} {arguments : List Argument} {text before after : List Char}
    (hspelled : (Argument.call name arguments).IsSpelledBy text) (hbefore : IsBlankText before)
    (hafter : IsBlankText after) :
    Call.parse (String.ofList (before ++ (text ++ after))) =
      .ok ⟨foldedName name, Argument.foldedAll arguments⟩ := by
  rw [Call.parse, String.toList_ofList, trim_spelled hspelled hbefore hafter]
  simp only [readText_spelled hspelled]

def inner : Argument :=
  .call "_F1" [.literal (.number (.integer (-7) (by decide) (by decide))), .literal (.bool true),
    .literal .null]

/-- Marks of the grammar stand in the key of its path and in its text. -/
def nested : Argument :=
  .call "Concat" [.path ⟨"@['a, (b)'].c", .row, [.key "a, (b)", .key "c"]⟩, inner,
    .literal (.string "a), #b(")]

theorem isSpelledBy_inner : inner.IsSpelledBy "#_F1( -7 ,true,null )".toList := by
  have hname : IsName "_F1".toList :=
    ⟨'_', "F1".toList, rfl, rfl, List.all_eq_true.mp (by decide)⟩
  have hinteger : (Json.number (.integer (-7) (by decide) (by decide))).IsSpelledBy "-7".toList :=
    @Json.IsSpelledBy.integer (-7) (by decide) (by decide) (by decide)
  simp only [inner, Argument.IsSpelledBy, Argument.AreSpelledBy]
  refine ⟨[], " -7 ,true,null ".toList, hname, by decide, ?_, by decide⟩
  refine ⟨[' '], "-7".toList, [' '], "true,null ".toList, by decide, by decide, hinteger, ?_,
    by decide⟩
  refine ⟨[], "true".toList, [], "null ".toList, by decide, by decide, .truth true, ?_,
    by decide⟩
  exact ⟨[], "null".toList, [' '], by decide, by decide, .null, by decide⟩

theorem isSpelledBy_nested : nested.IsSpelledBy
    "#Concat ( @['a, (b)'].c\t,#_F1( -7 ,true,null ), 'a), #b(')".toList := by
  have hname : IsName "Concat".toList :=
    ⟨'C', "oncat".toList, rfl, rfl, List.all_eq_true.mp (by decide)⟩
  have hpath : Path.parse (String.ofList "@['a, (b)'].c".toList) =
      .ok ⟨"@['a, (b)'].c", .row, [.key "a, (b)", .key "c"]⟩ := by cbv
  have htext : (Json.string "a), #b(").IsSpelledBy "'a), #b('".toList :=
    @Json.IsSpelledBy.text "a), #b(".toList (by decide)
  simp only [nested, Argument.IsSpelledBy, Argument.AreSpelledBy]
  refine ⟨[' '], " @['a, (b)'].c\t,#_F1( -7 ,true,null ), 'a), #b('".toList, hname, by decide, ?_,
    by decide⟩
  refine ⟨[' '], "@['a, (b)'].c".toList, ['\t'], "#_F1( -7 ,true,null ), 'a), #b('".toList,
    by decide, by decide, ⟨by decide, hpath⟩, ?_, by decide⟩
  refine ⟨[], "#_F1( -7 ,true,null )".toList, [], " 'a), #b('".toList, by decide, by decide,
    isSpelledBy_inner, ?_, by decide⟩
  exact ⟨[' '], "'a), #b('".toList, [], by decide, by decide, htext, by decide⟩

theorem parse_spelled_nested :
    nested.IsSpelledBy "#Concat ( @['a, (b)'].c\t,#_F1( -7 ,true,null ), 'a), #b(')".toList ∧
      (Call.parse (String.ofList (" ".toList ++
        ("#Concat ( @['a, (b)'].c\t,#_F1( -7 ,true,null ), 'a), #b(')".toList ++
          "\n".toList)))).map toArgument = .ok nested.folded := by
  refine ⟨isSpelledBy_nested, ?_⟩
  rw [parse_spelled isSpelledBy_nested (by decide) (by decide)]
  rfl

end Call

end DecisionTables
