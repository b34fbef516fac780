import DecisionTables.Criteria.Matching
import DecisionTables.Criteria.Reader
import DecisionTables.Proofs.Text.Blank
import DecisionTables.Text.Basic
import Mathlib.Data.List.Infix
import Mathlib.Tactic.SplitIfs

/-!
# Joined criteria

A fragment is a text for one comparison that ends where the text does, whatever separator follows:
either it has no separator in it, or a quoted literal with no place inside where the literal could
end.  Reading fragments that are joined by `&&` and `||` gives just the comparisons that they are
read as on their own, so the joined text is a disjunction of conjunctions of them.
-/

namespace DecisionTables

namespace Criteria

/-- No separator stands anywhere in the text. -/
def IsUndivided (cs : List Char) : Prop :=
  ¬ ['&', '&'] <:+: cs ∧ ¬ ['|', '|'] <:+: cs

/-- A quote stands where the literal would start, behind an operator with blanks around it. -/
def OpensQuote (cs : List Char) : Prop :=
  ∃ (before : List Char) (operator : Operator) (between rest : List Char),
    Text.IsBlankText before ∧ Text.IsBlankText between ∧
      cs = before ++ operator.symbol.toList ++ between ++ '\'' :: rest

inductive IsFragment : List Char → Prop where
  /-- A text with no separator in it, and no quote where the literal would start. -/
  | plain {cs : List Char} (hblank : ¬ Text.IsBlankText cs) (hundivided : IsUndivided cs)
      (hquote : ¬ OpensQuote cs) : IsFragment cs
  /-- A text in quotes, where no quote inside is followed by a separator. -/
  | quoted (operator : Operator) {inner : List Char}
      (hinner : ∀ before after, inner = before ++ '\'' :: after →
        startsWithSeparator (Text.trimStart after) = false) :
      IsFragment (operator.symbol.toList ++ '\'' :: (inner ++ ['\'']))

/-- What may follow a fragment in a joined text. -/
inductive IsTail : List Char → Prop where
  | nothing : IsTail []
  | separator {rest : List Char} (hrest : startsWithSeparator rest = true) : IsTail (' ' :: rest)

end Criteria

theorem Criteria.IsFragment.of_not_mem_quote {cs : List Char} (hblank : ¬ Text.IsBlankText cs)
    (hundivided : IsUndivided cs) (hquote : '\'' ∉ cs) : IsFragment cs := by
  apply plain hblank hundivided
  rintro ⟨before, operator, between, rest, -, -, rfl⟩
  exact hquote (by simp)

open Criteria (IsUndivided OpensQuote IsFragment IsTail)

/-! ## Separators -/

theorem exists_of_startsWithSeparator {cs : List Char} (hcs : startsWithSeparator cs = true) :
    ∃ rest, cs = '&' :: '&' :: rest ∨ cs = '|' :: '|' :: rest := by
  unfold startsWithSeparator at hcs
  split at hcs
  · exact ⟨_, .inl rfl⟩
  · exact ⟨_, .inr rfl⟩
  · contradiction

theorem startsWithSeparator_cons_cons (c d : Char) (cs : List Char) :
    startsWithSeparator (c :: d :: cs) =
      (decide (c = '&' ∧ d = '&') || decide (c = '|' ∧ d = '|')) := by
  unfold startsWithSeparator
  split <;> simp_all

/-- No separator reaches across a character of another kind. -/
theorem startsWithSeparator_append_cons {mark : Char} (hand : mark ≠ '&') (hor : mark ≠ '|')
    (cs tail : List Char) : startsWithSeparator (cs ++ mark :: tail) = startsWithSeparator cs := by
  match cs with
  | [] => simp [startsWithSeparator, hand, hor]
  | [c] => simp [startsWithSeparator, hand, hor]
  | c :: d :: rest => simp only [List.cons_append, startsWithSeparator_cons_cons]

theorem Criteria.IsUndivided.startsWithSeparator_eq {cs : List Char} (hcs : IsUndivided cs) :
    startsWithSeparator cs = false := by
  rw [← Bool.not_eq_true]
  intro hstart
  obtain ⟨rest, rfl | rfl⟩ := exists_of_startsWithSeparator hstart
  · exact hcs.1 ⟨[], rest, rfl⟩
  · exact hcs.2 ⟨[], rest, rfl⟩

theorem Criteria.IsUndivided.of_suffix {cs part : List Char} (hcs : IsUndivided cs)
    (hpart : part <:+ cs) : IsUndivided part :=
  ⟨fun hand => hcs.1 (hand.trans hpart.isInfix), fun hor => hcs.2 (hor.trans hpart.isInfix)⟩

theorem Criteria.IsUndivided.of_prefix {cs part : List Char} (hcs : IsUndivided cs)
    (hpart : part <+: cs) : IsUndivided part :=
  ⟨fun hand => hcs.1 (hand.trans hpart.isInfix), fun hor => hcs.2 (hor.trans hpart.isInfix)⟩

theorem Criteria.IsUndivided.of_notMem {cs : List Char} (hand : '&' ∉ cs) (hor : '|' ∉ cs) :
    IsUndivided cs :=
  ⟨fun h => hand (h.subset (by simp)), fun h => hor (h.subset (by simp))⟩

theorem Criteria.IsTail.trimStart_eq {tail : List Char} (htail : IsTail tail) :
    Text.trimStart tail = [] ∨ startsWithSeparator (Text.trimStart tail) = true := by
  cases htail with
  | nothing => exact .inl rfl
  | @separator rest hrest =>
      right
      rw [Text.trimStart_cons_blank rfl]
      obtain ⟨more, rfl | rfl⟩ := exists_of_startsWithSeparator hrest <;> rfl

/-! ## Operators -/

namespace Operator

theorem symbol_append_read (cs : List Char) : (read cs).1.symbol.toList ++ (read cs).2 = cs := by
  unfold read
  split <;> simp [symbol]

theorem read_of_equal {cs : List Char} (hequal : (read cs).1 = .equal) :
    read cs = (.equal, cs) := by
  have hsymbol := symbol_append_read cs
  rw [hequal] at hsymbol
  exact Prod.ext hequal hsymbol

theorem notMem_symbol {c : Char} (hc : c ∉ ['>', '<', '!', '=']) (operator : Operator) :
    c ∉ operator.symbol.toList := by
  cases operator <;> simp_all [symbol]

theorem read_cons_cons (c d : Char) (cs : List Char) :
    read (c :: d :: cs) =
      if d = '=' ∧ c = '>' then (atLeast, cs)
      else if d = '=' ∧ c = '<' then (atMost, cs)
      else if d = '=' ∧ c = '!' then (notEqual, cs)
      else if c = '>' then (greater, d :: cs)
      else if c = '<' then (less, d :: cs)
      else (equal, c :: d :: cs) := by
  unfold read
  split <;> simp_all
  next hne heq => exact fun hd => hne cs (by rw [← heq.2, hd])
  next hne heq => exact fun hd => hne cs (by rw [← heq.2, hd])
  next hne _ _ => exact fun hd hc => hne hc hd

theorem read_singleton (c : Char) :
    read [c] = if c = '>' then (greater, []) else if c = '<' then (less, []) else (equal, [c]) := by
  unfold read
  split <;> simp_all

theorem read_append {cs tail : List Char} (hcs : cs ≠ []) (htail : ∀ rest, tail ≠ '=' :: rest) :
    read (cs ++ tail) = ((read cs).1, (read cs).2 ++ tail) := by
  match cs with
  | [] => contradiction
  | [c] =>
      cases tail with
      | nil => simp
      | cons d rest =>
          have hd : d ≠ '=' := fun h => htail rest (by rw [h])
          rw [List.singleton_append, read_cons_cons, read_singleton]
          simp only [hd, false_and, if_false]
          split_ifs <;> rfl
  | c :: d :: rest =>
      rw [List.cons_append, List.cons_append, read_cons_cons, read_cons_cons]
      simp only [apply_ite Prod.fst, apply_ite Prod.snd]
      split_ifs <;> rfl

/-- An operator that is written is read off before a text that does not extend it. -/
theorem read_written_append {operator : Operator} (hwritten : operator ≠ .equal) {cs : List Char}
    (hcs : operator = .greater ∨ operator = .less → ∀ rest, cs ≠ '=' :: rest) :
    read (operator.symbol.toList ++ cs) = (operator, cs) := by
  cases operator with
  | equal => contradiction
  | greater => exact read_append (List.cons_ne_nil '>' []) (hcs (.inl rfl))
  | less => exact read_append (List.cons_ne_nil '<' []) (hcs (.inr rfl))
  | _ => rfl

theorem trimStart_written_append {operator : Operator} (hwritten : operator ≠ .equal)
    (cs : List Char) :
    Text.trimStart (operator.symbol.toList ++ cs) = operator.symbol.toList ++ cs := by
  cases operator <;> first | contradiction | rfl

/-- The operator is read off before a text that does not extend it and starts with no other. -/
theorem read_symbol_append (operator : Operator) {c : Char} (hc : c ∉ ['>', '<', '!', '='])
    (rest : List Char) : read (operator.symbol.toList ++ c :: rest) = (operator, c :: rest) := by
  by_cases hequal : operator = .equal
  · subst hequal
    unfold read
    split <;> simp_all [symbol]
  · apply read_written_append hequal
    intro _ more heq
    simp_all

theorem trimStart_symbol_append (operator : Operator) {c : Char} (hc : Text.isBlank c = false)
    (rest : List Char) :
    Text.trimStart (operator.symbol.toList ++ c :: rest) = operator.symbol.toList ++ c :: rest := by
  cases operator with
  | equal => exact Text.trimStart_of_not_isBlank hc rest
  | _ => rfl

theorem blanks_append_ne_equals {blanks cs : List Char} (hblanks : Text.IsBlankText blanks)
    (hcs : ∀ rest, cs ≠ '=' :: rest) (rest : List Char) : blanks ++ cs ≠ '=' :: rest := by
  intro heq
  cases blanks with
  | nil => exact hcs rest heq
  | cons c more =>
      rw [List.cons_append, List.cons.injEq] at heq
      have hblank := hblanks c List.mem_cons_self
      rw [heq.1] at hblank
      contradiction

/-- A quote behind an operator and blanks is found there, whatever blanks they are. -/
theorem trimStart_read_quote (operator : Operator) {blanks : List Char}
    (hblanks : Text.IsBlankText blanks) (rest : List Char) :
    Text.trimStart (read (Text.trimStart
      (operator.symbol.toList ++ (blanks ++ '\'' :: rest)))).2 = '\'' :: rest := by
  have hquote : Text.trimStart (blanks ++ '\'' :: rest) = '\'' :: rest := by
    rw [Text.trimStart_blanks_append hblanks, Text.trimStart_of_not_isBlank rfl]
  have hequals : ∀ more, blanks ++ '\'' :: rest ≠ '=' :: more :=
    blanks_append_ne_equals hblanks (by simp)
  by_cases hequal : operator = .equal
  · subst hequal
    have hstart : equal.symbol.toList ++ (blanks ++ '\'' :: rest) = blanks ++ '\'' :: rest := rfl
    rw [hstart, hquote]
    rfl
  · rw [trimStart_written_append hequal, read_written_append hequal fun _ => hequals]
    exact hquote

end Operator

/-- The operator that is read, the longest one that fits, decides where the literal would start. -/
theorem Criteria.opensQuote_iff {cs : List Char} :
    OpensQuote cs ↔
      ∃ rest, Text.trimStart (Operator.read (Text.trimStart cs)).2 = '\'' :: rest := by
  constructor
  · rintro ⟨before, operator, between, rest, hbefore, hbetween, rfl⟩
    refine ⟨rest, ?_⟩
    rw [List.append_assoc, List.append_assoc, Text.trimStart_blanks_append hbefore]
    exact Operator.trimStart_read_quote operator hbetween rest
  · rintro ⟨rest, hrest⟩
    obtain ⟨before, hbefore, hstart⟩ := Text.exists_blanks_append cs
    obtain ⟨between, hbetween, hafter⟩ :=
      Text.exists_blanks_append (Operator.read (Text.trimStart cs)).2
    refine ⟨before, (Operator.read (Text.trimStart cs)).1, between, rest, hbefore, hbetween, ?_⟩
    rw [List.append_assoc, List.append_assoc, ← hrest, ← hafter, Operator.symbol_append_read,
      ← hstart]

/-! ## Literals -/

namespace Literal

theorem ofText_ne_empty {cs : List Char} (hcs : cs ≠ []) : ofText cs ≠ empty := by
  rw [ofText, if_neg hcs]
  split_ifs
  · simp
  · split <;> simp

theorem splitPlain_of_startsWithSeparator {rest : List Char}
    (hrest : startsWithSeparator rest = true) : splitPlain rest = ([], rest) := by
  cases rest with
  | nil => rfl
  | cons c cs => simp [splitPlain, hrest]

theorem splitPlain_self {plain : List Char} (hplain : IsUndivided plain) :
    splitPlain plain = (plain, []) := by
  induction plain with
  | nil => rfl
  | cons c cs ih =>
      have hstart := hplain.startsWithSeparator_eq
      have hrest := ih (hplain.of_suffix (List.suffix_cons c cs))
      simp [splitPlain, hstart, hrest]

theorem splitPlain_append {plain rest : List Char} (hplain : IsUndivided plain)
    (hrest : startsWithSeparator rest = true) :
    splitPlain (plain ++ ' ' :: rest) = (plain ++ [' '], rest) := by
  induction plain with
  | nil =>
      have hstart : startsWithSeparator (' ' :: rest) = false := rfl
      simp [splitPlain, hstart, splitPlain_of_startsWithSeparator hrest]
  | cons c cs ih =>
      have hstart : startsWithSeparator (c :: cs ++ ' ' :: rest) = false := by
        rw [startsWithSeparator_append_cons (by decide) (by decide)]
        exact hplain.startsWithSeparator_eq
      have hmore := ih (hplain.of_suffix (List.suffix_cons c cs))
      rw [List.cons_append] at hstart ⊢
      simp [splitPlain, hstart, hmore]

theorem readQuoted?_of_not_quote {cs : List Char} (hquote : ∀ rest, cs ≠ '\'' :: rest) :
    readQuoted? cs = none := by
  unfold readQuoted?
  split
  · exact absurd rfl (hquote _)
  · rfl

theorem read_of_readQuoted? {cs : List Char} (hnone : readQuoted? cs = none) :
    read cs = (ofText (Text.trim (splitPlain cs).1), (splitPlain cs).2) := by
  simp [read, hnone]

theorem read_of_not_quote {cs : List Char} (hquote : ∀ rest, cs ≠ '\'' :: rest) :
    read cs = (ofText (Text.trim (splitPlain cs).1), (splitPlain cs).2) :=
  read_of_readQuoted? (readQuoted?_of_not_quote hquote)

theorem read_tail {tail : List Char} (htail : IsTail tail) :
    read (Text.trimStart tail) = (empty, Text.trimStart tail) := by
  rcases htail.trimStart_eq with hnil | hseparator
  · rw [hnil]
    rfl
  · have hquote : ∀ rest, Text.trimStart tail ≠ '\'' :: rest := by
      intro rest hrest
      rw [hrest] at hseparator
      simp [startsWithSeparator] at hseparator
    rw [read_of_not_quote hquote, splitPlain_of_startsWithSeparator hseparator]
    rfl

theorem read_append_tail {cs tail : List Char} (hcs : IsUndivided cs)
    (hblank : ¬ Text.IsBlankText cs) (hquote : readQuoted? (cs ++ tail) = none)
    (htail : IsTail tail) :
    ∃ rest, read (cs ++ tail) = (ofText (Text.trim cs), rest) ∧
      Text.trimStart rest = Text.trimStart tail := by
  rw [read_of_readQuoted? hquote]
  cases htail with
  | nothing =>
      refine ⟨[], ?_, rfl⟩
      rw [List.append_nil, splitPlain_self hcs]
  | @separator rest hrest =>
      refine ⟨rest, ?_, ?_⟩
      · rw [splitPlain_append hcs hrest, Text.trim_append_blank rfl hblank]
      · rw [Text.trimStart_cons_blank rfl]

/-- The literal that a text after an operator stands for, whatever tail follows it. -/
theorem read_trimStart_append {cs tail : List Char} (hcs : IsUndivided cs)
    (hquote : ∀ rest, Text.trimStart cs ≠ '\'' :: rest) (htail : IsTail tail) :
    ∃ rest, read (Text.trimStart (cs ++ tail)) = (ofText (Text.trim cs), rest) ∧
      Text.trimStart rest = Text.trimStart tail := by
  by_cases hblank : Text.IsBlankText cs
  · refine ⟨Text.trimStart tail, ?_, Text.trimStart_trimStart tail⟩
    rw [Text.trimStart_blanks_append hblank, read_tail htail, Text.trim_of_isBlankText hblank]
    rfl
  · obtain ⟨blanks, -, hsplit⟩ := Text.exists_blanks_append cs
    have hstart := hcs.of_suffix ⟨blanks, hsplit.symm⟩
    have hstartBlank : ¬ Text.IsBlankText (Text.trimStart cs) :=
      fun h => hblank (Text.isBlankText_trimStart_iff.mp h)
    have happend : ∀ rest, Text.trimStart cs ++ tail ≠ '\'' :: rest := by
      intro rest hrest
      cases hcase : Text.trimStart cs with
      | nil => exact hstartBlank (by simp [hcase, Text.IsBlankText])
      | cons c more =>
          rw [hcase, List.cons_append, List.cons.injEq] at hrest
          exact hquote more (by rw [hcase, hrest.1])
    rw [Text.trimStart_append hblank, ← Text.trim_trimStart cs]
    exact read_append_tail hstart hstartBlank (readQuoted?_of_not_quote happend) htail

theorem atBoundary_of_isTail {tail : List Char} (htail : IsTail tail) :
    atBoundary tail = true := by
  unfold atBoundary
  rcases htail.trimStart_eq with hnil | hseparator
  · rw [hnil]
    rfl
  · simp [hseparator]

theorem atBoundary_append_quote (after tail : List Char) :
    atBoundary (after ++ '\'' :: tail) = startsWithSeparator (Text.trimStart after) := by
  unfold atBoundary
  by_cases hblank : Text.IsBlankText after
  · rw [Text.trimStart_blanks_append hblank, Text.trimStart_of_not_isBlank (by decide),
      Text.trimStart_eq_nil_iff.mpr hblank]
    simp [startsWithSeparator]
  · have hquote : startsWithSeparator (Text.trimStart after ++ '\'' :: tail) =
        startsWithSeparator (Text.trimStart after) :=
      startsWithSeparator_append_cons (by decide) (by decide) _ _
    rw [Text.trimStart_append hblank]
    simp [hquote]

/-- The first quote that ends a literal is the one after a text that has none inside. -/
theorem splitQuoted?_append {inner tail : List Char}
    (hinner : ∀ before after, inner = before ++ '\'' :: after →
      startsWithSeparator (Text.trimStart after) = false)
    (htail : atBoundary tail = true) :
    splitQuoted? (inner ++ '\'' :: tail) = some (inner, tail) := by
  induction inner with
  | nil => simp [splitQuoted?, htail]
  | cons c cs ih =>
      have hnot : ¬ (c = '\'' ∧ atBoundary (cs ++ '\'' :: tail) = true) := by
        rintro ⟨rfl, hboundary⟩
        have hafter := hinner [] cs rfl
        rw [atBoundary_append_quote, hafter] at hboundary
        contradiction
      have hrest : splitQuoted? (cs ++ '\'' :: tail) = some (cs, tail) := by
        apply ih
        intro before after hsplit
        exact hinner (c :: before) after (by rw [hsplit, List.cons_append])
      rw [List.cons_append, splitQuoted?, if_neg hnot, hrest]
      rfl

theorem read_quoted_append {inner tail : List Char}
    (hinner : ∀ before after, inner = before ++ '\'' :: after →
      startsWithSeparator (Text.trimStart after) = false)
    (htail : atBoundary tail = true) :
    read ('\'' :: (inner ++ '\'' :: tail)) = (.quoted (String.ofList inner), tail) := by
  simp [read, readQuoted?, splitQuoted?_append hinner htail]

end Literal

/-! ## Comparisons -/

namespace Comparison

/-- A text is read as a comparison whatever tail follows it. -/
def ReadsAs (cs : List Char) (comparison : Comparison) : Prop :=
  ∀ tail, IsTail tail → read (cs ++ tail) = (comparison, Text.trimStart tail)

theorem ReadsAs.read_eq {cs : List Char} {comparison : Comparison}
    (hreads : ReadsAs cs comparison) : read cs = (comparison, []) := by
  have hread := hreads [] .nothing
  rwa [List.append_nil] at hread

theorem rejectEmpty_ofParts {operator : Operator} {literal : Literal}
    (hliteral : operator = .equal → literal ≠ .empty) :
    (ofParts operator literal).rejectEmpty = ofParts operator literal := by
  cases operator <;> cases literal <;> first | rfl | simp at hliteral

theorem reads_plain {cs : List Char} (hblank : ¬ Text.IsBlankText cs) (hcs : IsUndivided cs)
    (hquote : ¬ OpensQuote cs) :
    ∃ comparison, comparison.rejectEmpty = comparison ∧ ReadsAs cs comparison := by
  obtain ⟨before, -, hsplit⟩ := Text.exists_blanks_append cs
  have hstart : Text.trimStart cs ≠ [] := fun h => hblank (Text.trimStart_eq_nil_iff.mp h)
  have hsymbol := Operator.symbol_append_read (Text.trimStart cs)
  generalize hoperator : Operator.read (Text.trimStart cs) = parts at hsymbol
  obtain ⟨operator, afterOperator⟩ := parts
  have hundivided : IsUndivided afterOperator := by
    apply hcs.of_suffix
    refine ⟨before ++ operator.symbol.toList, ?_⟩
    rw [List.append_assoc, hsymbol, ← hsplit]
  have hliteralQuote : ∀ rest, Text.trimStart afterOperator ≠ '\'' :: rest := by
    intro rest hrest
    apply hquote
    rw [Criteria.opensQuote_iff, hoperator]
    exact ⟨rest, hrest⟩
  refine ⟨ofParts operator (.ofText (Text.trim afterOperator)), ?_, ?_⟩
  · apply rejectEmpty_ofParts
    rintro rfl
    rw [show afterOperator = Text.trimStart cs from hsymbol, Text.trim_trimStart]
    exact Literal.ofText_ne_empty (Text.trim_ne_nil hblank)
  · intro tail htail
    -- A tail starts with a blank if at all, so the operator cannot reach into it.
    have htailEqual : ∀ rest, tail ≠ '=' :: rest := by
      rintro rest rfl
      cases htail
    obtain ⟨rest, hread, hrest⟩ :=
      Literal.read_trimStart_append hundivided hliteralQuote htail
    rw [read, Text.trimStart_append hblank, Operator.read_append hstart htailEqual, hoperator]
    simp only [hread, hrest]

theorem reads_quoted (operator : Operator) {inner : List Char}
    (hinner : ∀ before after, inner = before ++ '\'' :: after →
      startsWithSeparator (Text.trimStart after) = false) :
    ReadsAs (operator.symbol.toList ++ '\'' :: (inner ++ ['\'']))
      (test operator (.quoted (String.ofList inner))) := by
  intro tail htail
  have hquote : Text.trimStart ('\'' :: (inner ++ '\'' :: tail)) =
      '\'' :: (inner ++ '\'' :: tail) := rfl
  have hparts : ofParts operator (.quoted (String.ofList inner)) =
      test operator (.quoted (String.ofList inner)) := by
    cases operator <;> rfl
  rw [List.append_assoc, List.cons_append, List.append_assoc, List.singleton_append, read,
    Operator.trimStart_symbol_append operator (by decide),
    Operator.read_symbol_append operator (by decide)]
  simp only [hquote, Literal.read_quoted_append hinner (Literal.atBoundary_of_isTail htail), hparts]

/-- A fragment is read as what it is read as on its own, whatever tail follows it. -/
theorem reads_fragment {cs : List Char} (hfragment : IsFragment cs) :
    ReadsAs cs (read cs).1 ∧ (read cs).1.rejectEmpty = (read cs).1 := by
  have hexists : ∃ comparison, comparison.rejectEmpty = comparison ∧ ReadsAs cs comparison := by
    cases hfragment with
    | plain hblank hundivided hquote => exact reads_plain hblank hundivided hquote
    | quoted operator hinner =>
        exact ⟨_, by cases operator <;> rfl, reads_quoted operator hinner⟩
  obtain ⟨comparison, hreject, hreads⟩ := hexists
  rw [hreads.read_eq]
  exact ⟨hreads, hreject⟩

theorem read_blank_cons {c : Char} (hc : Text.isBlank c = true) (cs : List Char) :
    read (c :: cs) = read cs := by
  rw [read, Text.trimStart_cons_blank hc, read]

end Comparison

/-! ## Groups of comparisons -/

namespace Criteria

open Comparison (ReadsAs)

theorem readGroups_eq (cs : List Char) :
    readGroups cs =
      match Comparison.read cs with
      | (comparison, '&' :: '&' :: rest) =>
        (prependToFirst comparison (readGroups rest).1, (readGroups rest).2)
      | (comparison, '|' :: '|' :: rest) =>
        ([comparison] :: (readGroups rest).1, (readGroups rest).2)
      | (comparison, rest) => ([[comparison]], rest) := by
  rw [readGroups]
  split <;> simp_all

theorem readGroups_and {cs rest : List Char} {comparison : Comparison}
    (hread : Comparison.read cs = (comparison, '&' :: '&' :: rest)) :
    readGroups cs = (prependToFirst comparison (readGroups rest).1, (readGroups rest).2) := by
  rw [readGroups_eq, hread]
  rfl

theorem readGroups_or {cs rest : List Char} {comparison : Comparison}
    (hread : Comparison.read cs = (comparison, '|' :: '|' :: rest)) :
    readGroups cs = ([comparison] :: (readGroups rest).1, (readGroups rest).2) := by
  rw [readGroups_eq, hread]
  rfl

theorem readGroups_blank_cons {c : Char} (hc : Text.isBlank c = true) (cs : List Char) :
    readGroups (c :: cs) = readGroups cs := by
  rw [readGroups_eq, Comparison.read_blank_cons hc, ← readGroups_eq]

/-- What the text after a group comes to: nothing, or the groups after a separator. -/
inductive Continues : List Char → List (List Comparison) → Prop where
  | nothing : Continues [] []
  | groups {rest : List Char} {later : List (List Comparison)}
      (hrest : readGroups rest = (later, [])) : Continues (' ' :: '|' :: '|' :: rest) later

theorem Continues.isTail {tail : List Char} {later : List (List Comparison)}
    (hcontinues : Continues tail later) : IsTail tail := by
  cases hcontinues with
  | nothing => exact .nothing
  | groups hrest => exact .separator rfl

theorem readGroups_last {cs tail : List Char} {comparison : Comparison}
    {later : List (List Comparison)} (hreads : ReadsAs cs comparison)
    (hcontinues : Continues tail later) :
    readGroups (cs ++ tail) = ([comparison] :: later, []) := by
  have hread := hreads tail hcontinues.isTail
  cases hcontinues with
  | nothing =>
      rw [readGroups_eq, hread]
      rfl
  | groups hrest =>
      rw [Text.trimStart_cons_blank rfl, Text.trimStart_of_not_isBlank rfl] at hread
      rw [readGroups_or hread, hrest]

theorem readGroups_next {cs rest : List Char} {comparison : Comparison}
    (hreads : ReadsAs cs comparison) :
    readGroups (cs ++ " && ".toList ++ rest) =
      (prependToFirst comparison (readGroups rest).1, (readGroups rest).2) := by
  have hread := hreads (' ' :: '&' :: '&' :: ' ' :: rest) (.separator rfl)
  have htext : cs ++ " && ".toList ++ rest = cs ++ ' ' :: '&' :: '&' :: ' ' :: rest := by
    rw [List.append_assoc]
    rfl
  rw [Text.trimStart_cons_blank rfl, Text.trimStart_of_not_isBlank rfl] at hread
  rw [htext, readGroups_and hread, readGroups_blank_cons rfl]

theorem toList_join_cons (separator first second : String) (rest : List String) :
    (Text.join separator (first :: second :: rest)).toList =
      first.toList ++ separator.toList ++ (Text.join separator (second :: rest)).toList := by
  simp [Text.join]

/-- The comparison of a fragment. -/
def comparisonOf (source : String) : Comparison :=
  (Comparison.read source.toList).1

theorem readGroups_group {group : List String} {tail : List Char}
    {later : List (List Comparison)} (hne : group ≠ [])
    (hgroup : ∀ source ∈ group, IsFragment source.toList) (hcontinues : Continues tail later) :
    readGroups ((Text.join " && " group).toList ++ tail) =
      (group.map comparisonOf :: later, []) := by
  induction group with
  | nil => contradiction
  | cons source rest ih =>
      have hreads := (Comparison.reads_fragment (hgroup source List.mem_cons_self)).1
      cases rest with
      | nil => exact readGroups_last hreads hcontinues
      | cons second rest =>
          have hrest := ih (by simp) fun s hs => hgroup s (List.mem_cons_of_mem _ hs)
          rw [toList_join_cons, List.append_assoc, readGroups_next hreads, hrest]
          rfl

theorem readGroups_join {groups : List (List String)} (hne : groups ≠ [])
    (hgroups : ∀ group ∈ groups, group ≠ [] ∧ ∀ source ∈ group, IsFragment source.toList) :
    readGroups (Text.join " || " (groups.map (Text.join " && "))).toList =
      (groups.map (List.map comparisonOf), []) := by
  induction groups with
  | nil => contradiction
  | cons group rest ih =>
      obtain ⟨hgroup, hsources⟩ := hgroups group List.mem_cons_self
      cases rest with
      | nil =>
          have hread := readGroups_group hgroup hsources .nothing
          rwa [List.append_nil] at hread
      | cons second rest =>
          have hrest := ih (by simp) fun g hg => hgroups g (List.mem_cons_of_mem _ hg)
          have hlater := (readGroups_blank_cons (c := ' ') rfl _).trans hrest
          have hread := readGroups_group hgroup hsources (.groups hlater)
          simp only [List.map_cons, toList_join_cons] at hread ⊢
          rw [List.append_assoc]
          exact hread

/-- No comparison of fragments is rejected for consisting of nothing. -/
theorem rejectEmptyAmongOthers_fragments {groups : List (List String)}
    (hgroups : ∀ group ∈ groups, ∀ source ∈ group, IsFragment source.toList) :
    rejectEmptyAmongOthers (groups.map (List.map comparisonOf)) =
      groups.map (List.map comparisonOf) := by
  unfold rejectEmptyAmongOthers
  split_ifs
  · rfl
  · rw [List.map_map]
    apply List.map_congr_left
    intro group hgroup
    rw [Function.comp_apply, List.map_map]
    apply List.map_congr_left
    intro source hsource
    exact (Comparison.reads_fragment (hgroups group hgroup source hsource)).2

theorem parse_join {groups : List (List String)} (hne : groups ≠ [])
    (hgroups : ∀ group ∈ groups, group ≠ [] ∧ ∀ source ∈ group, IsFragment source.toList) :
    parse (Text.join " || " (groups.map (Text.join " && "))) =
      expression (groups.map (List.map comparisonOf)) := by
  have hfragments := rejectEmptyAmongOthers_fragments fun group hgroup => (hgroups group hgroup).2
  rw [parse, readGroups_join hne hgroups]
  simp only [hfragments]

theorem parse_fragment {source : String} (hsource : IsFragment source.toList) :
    parse source = expression [[comparisonOf source]] := by
  have hgroups : ∀ group ∈ [[source]], group ≠ [] ∧ ∀ s ∈ group, IsFragment s.toList := by
    simpa using hsource
  exact parse_join (by simp) hgroups

theorem holds_expression (groups : List (List Comparison)) (tested : Option Json)
    (options : CriteriaOptions) :
    (expression groups).holds tested options =
      groups.any fun group => group.all fun c => c.holds (present? tested) options :=
  rfl

/-- Joined fragments hold just where all fragments of one group do, each by itself. -/
theorem holds_parse_join {groups : List (List String)} (hne : groups ≠ [])
    (hgroups : ∀ group ∈ groups, group ≠ [] ∧ ∀ source ∈ group, IsFragment source.toList)
    (tested : Option Json) (options : CriteriaOptions) :
    (parse (Text.join " || " (groups.map (Text.join " && ")))).holds tested options =
      groups.any fun group => group.all fun source => (parse source).holds tested options := by
  have hown : ∀ group ∈ groups, ∀ source ∈ group, (parse source).holds tested options =
      (comparisonOf source).holds (present? tested) options := by
    intro group hgroup source hsource
    rw [parse_fragment ((hgroups group hgroup).2 source hsource), holds_expression]
    simp
  rw [parse_join hne hgroups, holds_expression, Bool.eq_iff_iff]
  simp only [List.any_map, List.any_eq_true, Function.comp_apply, List.all_map, List.all_eq_true]
  refine exists_congr fun group => and_congr_right fun hgroup => ?_
  refine forall₂_congr fun source hsource => ?_
  rw [hown group hgroup source hsource]

/-- A malformed comparison and one whose text looks like two, beside a group of one. -/
theorem holds_parse_join_mixed :
    (parse (Text.join " || " ([[">", "!='a && b'"], ["gold"]].map (Text.join " && ")))).holds
        (some (.string "gold")) {} =
      [[">", "!='a && b'"], ["gold"]].any fun group =>
        group.all fun source => (parse source).holds (some (.string "gold")) {} := by
  have hmalformed : IsFragment ">".toList :=
    .of_not_mem_quote (by decide) ⟨by decide, by decide⟩ (by decide)
  have hgold : IsFragment "gold".toList :=
    .of_not_mem_quote (by decide) ⟨by decide, by decide⟩ (by decide)
  have hquoted : IsFragment "!='a && b'".toList := by
    have hinner : ∀ before after, "a && b".toList = before ++ '\'' :: after →
        startsWithSeparator (Text.trimStart after) = false := by
      intro before after hsplit
      have hmem : '\'' ∈ "a && b".toList := by simp [hsplit]
      exact absurd hmem (by decide)
    exact .quoted .notEqual hinner
  have hgroups : ∀ group ∈ [[">", "!='a && b'"], ["gold"]],
      group ≠ [] ∧ ∀ source ∈ group, IsFragment source.toList := by
    simpa using ⟨⟨hmalformed, hquoted⟩, hgold⟩
  exact holds_parse_join (by simp) hgroups _ _

end Criteria

end DecisionTables
