import DecisionTables.Proofs.Criteria.Composition
import DecisionTables.Proofs.Number.Written

/-!
# Criteria of a single comparison

A text is a criteria of one comparison just where reading a comparison leaves nothing of it.  The
literal of such a text is read behind an operator as well, unless the text starts with the sign that
would extend the operator.  A text of which no character has another meaning is the literal of
itself, and the text of a number is of that kind.
-/

namespace DecisionTables

open Criteria (IsUndivided)

namespace Comparison

theorem eq_of_ofParts_eq_test {operator other : Operator} {literal found : Literal}
    (hparts : ofParts operator literal = test other found) :
    operator = other ∧ literal = found := by
  cases operator <;> cases literal <;> simp_all [ofParts, Operator.isRelational]

/-- A text that is read as a lone literal is read as that literal behind any operator as well. -/
theorem read_symbol_append (operator : Operator) {cs : List Char} {literal : Literal}
    (hcs : ∀ rest, cs ≠ '=' :: rest) (hread : read cs = (test .equal literal, [])) :
    read (operator.symbol.toList ++ cs) = (ofParts operator literal, []) := by
  by_cases hequal : operator = .equal
  · subst hequal
    exact hread
  · rw [read] at hread
    simp only [Prod.mk.injEq] at hread
    rcases eq_of_ofParts_eq_test hread.1 with ⟨hoperator, hliteral⟩
    rw [Operator.read_of_equal hoperator, Text.trimStart_trimStart] at hread hliteral
    rw [read, Operator.trimStart_written_append hequal,
      Operator.read_written_append hequal fun _ => hcs]
    simp only [hliteral, hread.2]

end Comparison

namespace Criteria

/-- No group that is read is empty, and the first one starts with the comparison read first. -/
theorem exists_cons_readGroups (cs : List Char) :
    ∃ group later, (readGroups cs).1 = ((Comparison.read cs).1 :: group) :: later := by
  rw [readGroups_eq]
  split
  · next rest hread =>
    rw [hread]
    cases (readGroups rest).1 <;> exact ⟨_, _, rfl⟩
  · next rest hread =>
    rw [hread]
    exact ⟨_, _, rfl⟩
  · next hread =>
    rw [hread]
    exact ⟨_, _, rfl⟩

/-- A text is read as one comparison where reading a comparison leaves nothing of it. -/
theorem readGroups_eq_single_iff {cs : List Char} {comparison : Comparison} :
    readGroups cs = ([[comparison]], []) ↔ Comparison.read cs = (comparison, []) := by
  rw [readGroups_eq]
  split
  · next rest hread =>
    rcases exists_cons_readGroups rest with ⟨group, later, hrest⟩
    simp [hread, hrest, prependToFirst]
  · next rest hread =>
    rcases exists_cons_readGroups rest with ⟨group, later, hrest⟩
    simp [hread, hrest]
  · simp [*]

theorem length_flatten_rejectEmptyAmongOthers (groups : List (List Comparison)) :
    (rejectEmptyAmongOthers groups).flatten.length = groups.flatten.length := by
  unfold rejectEmptyAmongOthers
  split_ifs
  · rfl
  · rw [← List.map_flatten, List.length_map]

theorem parse_eq_single_iff {source : String} {comparison : Comparison} :
    parse source = expression [[comparison]] ↔
      Comparison.read source.toList = (comparison, []) := by
  rw [← readGroups_eq_single_iff, parse]
  constructor
  · intro hparse
    split at hparse
    · next groups hread =>
      have hgroups := expression.inj hparse
      have hlength := length_flatten_rejectEmptyAmongOthers groups
      rw [hgroups] at hlength
      have hle : groups.flatten.length ≤ 1 := hlength.ge
      rw [rejectEmptyAmongOthers, if_pos hle] at hgroups
      rw [hread, hgroups]
    · contradiction
  · intro hread
    rw [hread]
    rfl

/-! ## Plain texts -/

/-- A text that is read as a literal of itself, neither quoted nor a wildcard. -/
structure IsPlainText (cs : List Char) : Prop where
  nonempty : cs ≠ []
  trimmed : Text.trim cs = cs
  unmarked : ∀ operator : Operator, operator.symbol.toList <+: cs → operator = .equal
  unquoted : cs.head? ≠ some '\''
  starless : '*' ∉ cs
  undivided : IsUndivided cs

end Criteria

open Criteria (IsPlainText)

namespace Literal

theorem read_plainText {cs : List Char} (hplain : IsPlainText cs) : read cs = (ofText cs, []) := by
  have hquote : ∀ rest, cs ≠ '\'' :: rest := by
    intro rest heq
    exact hplain.unquoted (by rw [heq, List.head?_cons])
  rw [read_of_not_quote hquote, splitPlain_self hplain.undivided, hplain.trimmed]

theorem ofText_number {cs : List Char} (hplain : IsPlainText cs) {x : Binary64}
    (hread : readNumber? cs = some x) : ofText cs = number x (String.ofList cs) := by
  rw [ofText, if_neg hplain.nonempty, if_neg hplain.starless, hread]

theorem ofText_text {cs : List Char} (hplain : IsPlainText cs) (hread : readNumber? cs = none) :
    ofText cs = text (String.ofList cs) := by
  rw [ofText, if_neg hplain.nonempty, if_neg hplain.starless, hread]

end Literal

namespace Comparison

theorem read_plainText {cs : List Char} (hplain : IsPlainText cs) :
    read cs = (test .equal (.ofText cs), []) := by
  have hstart := Text.trimStart_of_trim hplain.trimmed
  have hequal := hplain.unmarked (Operator.read cs).1 ⟨_, Operator.symbol_append_read cs⟩
  rw [read, hstart, Operator.read_of_equal hequal]
  simp only [hstart, Literal.read_plainText hplain]
  rfl

end Comparison

namespace Criteria

theorem parse_plainText {source : String} (hplain : IsPlainText source.toList) :
    parse source = expression [[.test .equal (.ofText source.toList)]] :=
  parse_eq_single_iff.mpr (Comparison.read_plainText hplain)

/-- The characters of a number have no other meaning. -/
theorem isPlainText_of_isMark {cs : List Char} (hne : cs ≠ [])
    (hmark : cs.all Decimal.isMark = true) : IsPlainText cs := by
  have hnot : ∀ c, Decimal.isMark c = false → c ∉ cs := by
    intro c hc hmem
    rw [List.all_eq_true.mp hmark c hmem] at hc
    contradiction
  constructor
  · exact hne
  · exact Text.trim_of_not_isBlank fun c hc =>
      Decimal.isBlank_of_isMark (List.all_eq_true.mp hmark c hc)
  · intro operator hstarts
    have hsymbol : ∀ c ∈ operator.symbol.toList, Decimal.isMark c = true :=
      fun c hc => List.all_eq_true.mp hmark c (hstarts.subset hc)
    cases operator with
    | equal => rfl
    | notEqual => exact absurd (hsymbol '!' (by decide)) (by decide)
    | greater => exact absurd (hsymbol '>' (by decide)) (by decide)
    | atLeast => exact absurd (hsymbol '>' (by decide)) (by decide)
    | less => exact absurd (hsymbol '<' (by decide)) (by decide)
    | atMost => exact absurd (hsymbol '<' (by decide)) (by decide)
  · exact fun hhead => hnot '\'' (by decide) (List.mem_of_head? hhead)
  · exact hnot '*' (by decide)
  · exact .of_notMem (hnot '&' (by decide)) (hnot '|' (by decide))

end Criteria

end DecisionTables
