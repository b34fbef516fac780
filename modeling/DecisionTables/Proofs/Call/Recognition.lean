import DecisionTables.Proofs.Call.Configured
import DecisionTables.Proofs.Call.Spelling

/-!
# Recognizing calls

A configured text is taken for a call when its mark is followed by a word and an opening
parenthesis.  Every character of a name may start that word, a digit among them, but no function
name starts with a digit.  So a text that numbers something, such as `#1 (gold)`, is taken for a
call and refused, while all other texts are calls just where a function name stands behind the mark
and fixed otherwise.
-/

namespace DecisionTables

namespace Call

/-- A mark, a word that starts with a character of the given kind, and a parenthesis. -/
def Opens (isHead : Char → Bool) (cs : List Char) : Prop :=
  ∃ head word gap inside, isHead head = true ∧ (∀ c ∈ word, isNameChar c = true) ∧
    Text.IsBlankText gap ∧ cs = '#' :: head :: (word ++ (gap ++ '(' :: inside))

theorem isNameChar_eq (c : Char) : isNameChar c = (isNameStart c || c.isDigit) := by
  simp only [isNameChar, isNameStart, Char.isAlphanum, Bool.or_right_comm]

theorem isNameStart_of_isDigit {c : Char} (hc : c.isDigit = true) : isNameStart c = false := by
  have hbounds := Text.toNat_of_isDigit hc
  simp [isNameStart, Char.isAlpha, Char.isUpper, Char.isLower, UInt32.le_iff_toNat_le,
    ← Char.toNat_inj]
  omega

theorem opens_isNameChar_iff {cs : List Char} :
    Opens isNameChar cs ↔ Opens isNameStart cs ∨ Opens Char.isDigit cs := by
  simp only [Opens, isNameChar_eq, Bool.or_eq_true, or_and_right, exists_or]

theorem not_opens_isDigit {cs : List Char} (hopens : Opens isNameStart cs) :
    ¬ Opens Char.isDigit cs := by
  rintro ⟨digit, _, _, _, hdigit, -, -, hcs⟩
  obtain ⟨head, _, _, _, hhead, -, -, rfl⟩ := hopens
  obtain ⟨rfl, -⟩ := List.cons.inj (List.cons.inj hcs).2
  rw [isNameStart_of_isDigit hdigit] at hhead
  contradiction

/-- No function name starts with a digit, so reading stops right behind the mark. -/
theorem parse_of_opens_isDigit {text : String} (hopens : Opens Char.isDigit text.toList) :
    parse text =
      .error ⟨text, Text.trim text.toList, (Text.trim text.toList).tail, .functionName⟩ := by
  obtain ⟨digit, word, gap, inside, hdigit, -, -, htext⟩ := hopens
  have hblank : Text.isBlank digit = false := Text.isBlank_of_isDigit hdigit
  have htrim : ∃ rest, Text.trim text.toList = '#' :: digit :: rest := by
    refine ⟨Text.trimEnd (word ++ (gap ++ '(' :: inside)), ?_⟩
    rw [htext, Text.trim_cons_of_not_isBlank rfl, ← Text.trim_cons_of_not_isBlank hblank,
      Text.trim, Text.trimStart_of_not_isBlank hblank]
  obtain ⟨rest, htrim⟩ := htrim
  have hread : readText (Text.trim text.toList) = .error ⟨digit :: rest, .functionName⟩ := by
    rw [htrim, readText, readAfterMark, readName, isNameStart_of_isDigit hdigit]
    rfl
  rw [parse, hread, htrim]
  rfl

end Call

open Call (Opens isNameStart isNameChar)

theorem looksLikeCall_iff {cs : List Char} : looksLikeCall cs = true ↔ Opens isNameChar cs := by
  constructor
  · intro hlike
    unfold looksLikeCall at hlike
    split at hlike
    · rename_i rest
      simp only [Bool.and_eq_true, Bool.not_eq_true', List.isEmpty_eq_false_iff,
        beq_iff_eq] at hlike
      obtain ⟨hne, hopening⟩ := hlike
      obtain ⟨head, word, hname⟩ := List.exists_cons_of_ne_nil hne
      obtain ⟨inside, hinside⟩ := List.head?_eq_some_iff.mp hopening
      obtain ⟨gap, hgap, hafter⟩ := Text.exists_blanks_append (rest.dropWhile isNameChar)
      have hrest : rest = head :: word ++ (gap ++ '(' :: inside) := by
        rw [← hname, ← hinside, ← hafter, List.takeWhile_append_dropWhile]
      have hchars : ∀ c ∈ head :: word, isNameChar c = true := by
        rw [← hname]
        exact fun c hc => List.mem_takeWhile_imp hc
      obtain ⟨hhead, hword⟩ := List.forall_mem_cons.mp hchars
      exact ⟨head, word, gap, inside, hhead, hword, hgap, by rw [hrest, List.cons_append]⟩
    · contradiction
  · rintro ⟨head, word, gap, inside, hhead, hword, hgap, rfl⟩
    have hchars : ∀ c ∈ head :: word, isNameChar c = true :=
      List.forall_mem_cons.mpr ⟨hhead, hword⟩
    obtain ⟨htake, hdrop⟩ :=
      Text.takeWhile_dropWhile_append hchars (Call.isNameChar_gap hgap inside)
    rw [List.cons_append] at htake hdrop
    have hopening : Text.trimStart (gap ++ '(' :: inside) = '(' :: inside := by
      rw [Text.trimStart_blanks_append hgap, Text.trimStart_of_not_isBlank (by decide)]
    simp [looksLikeCall, htake, hdrop, hopening]

namespace ResultValue

/-- The text is computed by a call, or refused for not being the call it was taken for. -/
def IsTakenForCall (text : String) : Prop :=
  (∃ source c, ofJson (.string text) = .ok (computed source c)) ∨
    ∃ error, ofJson (.string text) = .error error

/-- The text that stands fixed for a configured one: of two marks at its start, one is left. -/
def unescaped (text : String) : String :=
  if ['#', '#'] <+: text.toList then String.ofList text.toList.tail else text

theorem ofJson_of_looksLikeCall {text : String} (hlike : looksLikeCall text.toList = true) :
    ofJson (.string text) = (Call.parse text).map (computed text) := by
  have hunescaped : ¬ ['#', '#'] <+: text.toList := by
    rintro ⟨rest, htext⟩
    rw [← htext] at hlike
    have hescaped := looksLikeCall_escaped rest
    simp_all
  rw [ofJson_unescaped hunescaped, if_pos hlike]

theorem ofJson_of_not_looksLikeCall {text : String} (hlike : looksLikeCall text.toList = false) :
    ofJson (.string text) = .ok (fixed (.string (unescaped text))) := by
  by_cases hescaped : ['#', '#'] <+: text.toList
  · rw [unescaped, if_pos hescaped]
    obtain ⟨rest, htext⟩ := hescaped
    obtain rfl : String.ofList ('#' :: '#' :: rest) = text := by
      rw [← String.ofList_toList (s := text), ← htext]
      rfl
    rw [ofJson_escaped, String.toList_ofList, List.tail_cons]
  · rw [ofJson_unescaped hescaped, hlike, unescaped, if_neg hescaped]
    rfl

theorem isTakenForCall_iff_looksLikeCall {text : String} :
    IsTakenForCall text ↔ looksLikeCall text.toList = true := by
  unfold IsTakenForCall
  cases hlike : looksLikeCall text.toList with
  | false => simp [ofJson_of_not_looksLikeCall hlike]
  | true =>
      rw [ofJson_of_looksLikeCall hlike]
      cases Call.parse text with
      | error fault => simp [Except.map]
      | ok c => simp [Except.map]

/--
The texts that are taken for calls have a function name or a word that starts with a digit between
the mark and the parenthesis.  The former are read by the grammar of calls, the latter are refused
for want of a name, and every other text is fixed.  A function name is thus what it takes, unless a
digit stands behind the mark.
-/
theorem isTakenForCall_iff_opens (text : String) :
    (IsTakenForCall text ↔ Opens isNameStart text.toList ∨ Opens Char.isDigit text.toList) ∧
      (Opens isNameStart text.toList →
        ofJson (.string text) = (Call.parse text).map (computed text)) ∧
      (Opens Char.isDigit text.toList →
        ofJson (.string text) = .error
          ⟨text, Text.trim text.toList, (Text.trim text.toList).tail, .functionName⟩) ∧
      (¬ IsTakenForCall text → ofJson (.string text) = .ok (fixed (.string (unescaped text)))) ∧
      ((IsTakenForCall text ↔ Opens isNameStart text.toList) ↔
        ¬ Opens Char.isDigit text.toList) := by
  have htaken :
      IsTakenForCall text ↔ Opens isNameStart text.toList ∨ Opens Char.isDigit text.toList := by
    rw [isTakenForCall_iff_looksLikeCall, looksLikeCall_iff, Call.opens_isNameChar_iff]
  have hread : IsTakenForCall text →
      ofJson (.string text) = (Call.parse text).map (computed text) :=
    fun htake => ofJson_of_looksLikeCall (isTakenForCall_iff_looksLikeCall.mp htake)
  refine ⟨htaken, fun hname => hread (htaken.mpr (.inl hname)), fun hdigit => ?_, fun hother => ?_,
    fun hclaim hdigit => ?_, fun hdigit => ?_⟩
  · rw [hread (htaken.mpr (.inr hdigit)), Call.parse_of_opens_isDigit hdigit]
    rfl
  · rw [isTakenForCall_iff_looksLikeCall, Bool.not_eq_true] at hother
    exact ofJson_of_not_looksLikeCall hother
  · have hname := hclaim.mp (htaken.mpr (.inr hdigit))
    exact Call.not_opens_isDigit hname hdigit
  · rw [htaken, or_iff_left hdigit]

/-- A word of letters and digits, and blanks before the parenthesis, which is never closed. -/
theorem isTakenForCall_guid :
    IsTakenForCall "#Guid4 (" ∧
      ofJson (.string "#Guid4 (") = (Call.parse "#Guid4 (").map (computed "#Guid4 (") := by
  have hopens : Opens isNameStart "#Guid4 (".toList :=
    ⟨'G', "uid4".toList, [' '], [], rfl, List.all_eq_true.mp (by decide), by decide, by decide⟩
  obtain ⟨htaken, hread, -⟩ := isTakenForCall_iff_opens "#Guid4 ("
  exact ⟨htaken.mpr (.inl hopens), hread hopens⟩

/-- A rank before a word in parentheses is taken for a call, though its word is no name. -/
theorem rank_is_taken_for_call :
    ¬ ∀ text : String, IsTakenForCall text ↔ Opens isNameStart text.toList := by
  intro hclaim
  have hrefused : ∃ error, ofJson (.string "#1 (gold)") = .error error := ⟨_, by cbv⟩
  obtain ⟨head, _, _, _, hhead, -, -, htext⟩ := (hclaim "#1 (gold)").mp (.inr hrefused)
  have hdigit : '1' = head := (List.cons.inj (List.cons.inj htext).2).1
  rw [← hdigit] at hhead
  contradiction

end ResultValue

end DecisionTables
