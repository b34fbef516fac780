import DecisionTables.Criteria.Display
import DecisionTables.Proofs.Criteria.Composition

/-!
# Displayed literals

A literal is displayed as its text without the blanks around it, and read back from there as long as
it ends at a separator again.  A quote that opens a text without being closed is the one part that
depends on what stands behind it: no quote up to the end of the whole text may close it.  Displaying
keeps it open, as it moves no quote in front of a separator that was not in front of one before.
-/

namespace DecisionTables

open Criteria (IsUndivided IsTail)

/-- The text is at its end or at a separator. -/
def EndsFragment (cs : List Char) : Prop :=
  cs = [] ∨ startsWithSeparator cs = true

theorem EndsFragment.trimStart_eq {cs : List Char} (hcs : EndsFragment cs) :
    Text.trimStart cs = cs := by
  rcases hcs with rfl | hseparator
  · rfl
  · obtain ⟨rest, rfl | rfl⟩ := exists_of_startsWithSeparator hseparator <;> rfl

theorem EndsFragment.ne_equals {cs : List Char} (hcs : EndsFragment cs) (rest : List Char) :
    cs ≠ '=' :: rest := by
  rintro rfl
  rcases hcs with hnil | hseparator
  · contradiction
  · simp [startsWithSeparator] at hseparator

theorem Criteria.IsTail.startsWithSeparator_append {tail : List Char} (htail : IsTail tail)
    (cs : List Char) : startsWithSeparator (cs ++ tail) = startsWithSeparator cs := by
  cases htail with
  | nothing => rw [List.append_nil]
  | separator _ => exact startsWithSeparator_append_cons (by decide) (by decide) cs _

theorem Criteria.IsTail.ne_equals {tail : List Char} (htail : IsTail tail) (rest : List Char) :
    tail ≠ '=' :: rest := by
  cases htail <;> simp

namespace Literal

/-! ## Closing quotes -/

/-- No quote of the text stands where a quoted literal ends. -/
def NoneCloses (cs : List Char) : Prop :=
  ∀ before after, cs = before ++ '\'' :: after → atBoundary after = false

theorem NoneCloses.of_suffix {cs part : List Char} (hcs : NoneCloses cs) (hpart : part <:+ cs) :
    NoneCloses part := by
  rintro before after rfl
  obtain ⟨front, rfl⟩ := hpart
  exact hcs (front ++ before) after (List.append_assoc _ _ _).symm

theorem noneCloses_append {part tail : List Char}
    (hpart : ∀ before after, part = before ++ '\'' :: after → atBoundary (after ++ tail) = false)
    (htail : NoneCloses tail) : NoneCloses (part ++ tail) := by
  intro before after hsplit
  rcases List.append_eq_append_iff.mp hsplit with ⟨middle, rfl, rfl⟩ | ⟨middle, rfl, hmiddle⟩
  · exact htail middle after rfl
  · cases middle with
    | nil => exact htail [] after (by simpa using hmiddle.symm)
    | cons c middle =>
        rw [List.cons_append, List.cons.injEq] at hmiddle
        rw [hmiddle.2]
        exact hpart before middle (by rw [hmiddle.1])

theorem noneCloses_append_of_notMem {part tail : List Char} (hpart : '\'' ∉ part)
    (htail : NoneCloses tail) : NoneCloses (part ++ tail) := by
  apply noneCloses_append _ htail
  rintro before after rfl
  exact absurd (by simp) hpart

theorem noneCloses_cons_iff {c : Char} {cs : List Char} :
    NoneCloses (c :: cs) ↔ (c = '\'' → atBoundary cs = false) ∧ NoneCloses cs := by
  constructor
  · intro hnone
    refine ⟨fun hc => hnone [] cs (by rw [hc, List.nil_append]), ?_⟩
    exact hnone.of_suffix (List.suffix_cons c cs)
  · rintro ⟨hhead, hnone⟩ before after hsplit
    cases before with
    | nil =>
        obtain ⟨hc, rfl⟩ := List.cons.inj hsplit
        exact hhead hc
    | cons d before => exact hnone before after (List.cons.inj hsplit).2

theorem splitQuoted?_eq_none_iff {cs : List Char} : splitQuoted? cs = none ↔ NoneCloses cs := by
  induction cs with
  | nil => simp [splitQuoted?, NoneCloses]
  | cons c cs ih =>
      rw [noneCloses_cons_iff, splitQuoted?, ← ih]
      split_ifs with hcloses
      · simp [hcloses.1, hcloses.2]
      · simpa using fun _ hc => by simpa [hc] using hcloses

theorem readQuoted?_eq_none_iff {cs : List Char} :
    readQuoted? cs = none ↔ ∀ rest, cs = '\'' :: rest → NoneCloses rest := by
  unfold readQuoted?
  split
  · simp [splitQuoted?_eq_none_iff]
  · next hquote => simpa using fun rest heq => absurd heq (hquote rest)

/-- The text before the first quote that closes. -/
theorem splitQuoted?_eq_some {cs inner rest : List Char}
    (hsplit : splitQuoted? cs = some (inner, rest)) :
    cs = inner ++ '\'' :: rest ∧ atBoundary rest = true ∧
      ∀ before after, inner = before ++ '\'' :: after →
        atBoundary (after ++ '\'' :: rest) = false := by
  induction cs generalizing inner with
  | nil => contradiction
  | cons c cs ih =>
      unfold splitQuoted? at hsplit
      split_ifs at hsplit with hcloses
      · simp only [Option.some.injEq, Prod.mk.injEq] at hsplit
        obtain ⟨rfl, rfl⟩ := hsplit
        exact ⟨by rw [hcloses.1, List.nil_append], hcloses.2, by simp⟩
      · obtain ⟨⟨found, left⟩, hfound, heq⟩ := Option.map_eq_some_iff.mp hsplit
        simp only [Prod.mk.injEq] at heq
        obtain ⟨rfl, rfl⟩ := heq
        obtain ⟨hcs, hrest, hopen⟩ := ih hfound
        refine ⟨by rw [hcs, List.cons_append], hrest, ?_⟩
        intro before after hinner
        cases before with
        | nil =>
            rw [List.nil_append, List.cons.injEq] at hinner
            rw [← hinner.2, ← hcs]
            simpa [hinner.1] using hcloses
        | cons d before => exact hopen before after (List.cons.inj hinner).2

/-! ## How a literal stands in a text -/

/-- The literal at the start of a text, with what is left behind it. -/
inductive ReadsTo : List Char → Literal → List Char → Prop where
  | quoted {inner rest : List Char} (hrest : atBoundary rest = true)
      (hinner : ∀ before after, inner = before ++ '\'' :: after →
        startsWithSeparator (Text.trimStart after) = false) :
      ReadsTo ('\'' :: (inner ++ '\'' :: rest)) (.quoted (String.ofList inner)) rest
  | plain {shown rest : List Char} (hundivided : IsUndivided shown) (hrest : EndsFragment rest)
      (hquote : readQuoted? (shown ++ rest) = none) :
      ReadsTo (shown ++ rest) (ofText (Text.trim shown)) rest

theorem isUndivided_cons {c : Char} {cs rest : List Char}
    (hstart : startsWithSeparator (c :: (cs ++ rest)) = false) (hcs : IsUndivided cs) :
    IsUndivided (c :: cs) := by
  have hhead : ∀ mark, mark = '&' ∨ mark = '|' → ¬ [mark, mark] <+: c :: cs := by
    rintro mark hmark ⟨behind, hstarts⟩
    obtain ⟨rfl, rfl⟩ := List.cons.inj hstarts
    rcases hmark with rfl | rfl <;> simp [startsWithSeparator] at hstart
  constructor
  · intro hinside
    exact (List.infix_cons_iff.mp hinside).elim (hhead '&' (.inl rfl)) hcs.1
  · intro hinside
    exact (List.infix_cons_iff.mp hinside).elim (hhead '|' (.inr rfl)) hcs.2

theorem splitPlain_eq {cs shown rest : List Char} (hsplit : splitPlain cs = (shown, rest)) :
    cs = shown ++ rest ∧ IsUndivided shown ∧ EndsFragment rest := by
  induction cs generalizing shown with
  | nil =>
      obtain ⟨rfl, rfl⟩ := Prod.mk.inj hsplit
      exact ⟨rfl, ⟨by simp, by simp⟩, .inl rfl⟩
  | cons c cs ih =>
      unfold splitPlain at hsplit
      split_ifs at hsplit with hstart
      · obtain ⟨rfl, rfl⟩ := Prod.mk.inj hsplit
        exact ⟨rfl, ⟨by simp, by simp⟩, .inr hstart⟩
      · obtain ⟨rfl, rfl⟩ := Prod.mk.inj hsplit
        obtain ⟨hcs, hundivided, hrest⟩ := ih rfl
        have hshown :
            startsWithSeparator (c :: ((splitPlain cs).1 ++ (splitPlain cs).2)) = false := by
          rw [← hcs]
          simpa using hstart
        exact ⟨congrArg (c :: ·) hcs, isUndivided_cons hshown hundivided, hrest⟩

theorem readsTo_read (cs : List Char) : ReadsTo cs (read cs).1 (read cs).2 := by
  cases hquoted : readQuoted? cs with
  | none =>
      obtain ⟨hcs, hundivided, hrest⟩ := splitPlain_eq (rfl : splitPlain cs = (_, _))
      rw [read_of_readQuoted? hquoted]
      rw [hcs] at hquoted
      conv => arg 1; rw [hcs]
      exact .plain hundivided hrest hquoted
  | some result =>
      have hread : read cs = result := by simp [read, hquoted]
      rw [hread]
      unfold readQuoted? at hquoted
      split at hquoted
      · obtain ⟨⟨inner, rest⟩, hsplit, rfl⟩ := Option.map_eq_some_iff.mp hquoted
        obtain ⟨rfl, hrest, hinner⟩ := splitQuoted?_eq_some hsplit
        simp only [atBoundary_append_quote] at hinner
        exact .quoted hrest hinner
      · contradiction

theorem ReadsTo.suffix {cs rest : List Char} {literal : Literal}
    (hreads : ReadsTo cs literal rest) : rest <:+ cs := by
  cases hreads with
  | @quoted inner _ _ _ => exact ⟨'\'' :: (inner ++ ['\'']), by simp⟩
  | plain _ _ _ => exact List.suffix_append _ _

theorem display_ofText (cs : List Char) : (ofText cs).display.toList = cs := by
  unfold ofText
  split_ifs with hnil
  · rw [hnil]
    rfl
  · exact String.toList_ofList
  · split <;> exact String.toList_ofList

theorem display_quoted_append (inner tail : List Char) :
    (quoted (String.ofList inner)).display.toList ++ tail = '\'' :: (inner ++ '\'' :: tail) := by
  simp [display]

/-- A quote that closes nothing in front of one end of a fragment does so in front of no other. -/
theorem noneCloses_append_tail {part blanks rest tail : List Char} (hpart : IsUndivided part)
    (hblanks : Text.IsBlankText blanks) (hrest : EndsFragment rest)
    (hnone : NoneCloses (part ++ (blanks ++ rest))) (htail : IsTail tail)
    (htailNone : NoneCloses tail) : NoneCloses (part ++ tail) := by
  apply noneCloses_append _ htailNone
  rintro before after rfl
  have hopen := hnone before (after ++ (blanks ++ rest)) (by simp)
  -- With nothing but blanks up to the end of the part, the quote would have closed there already.
  have hafter : ¬ Text.IsBlankText after := by
    intro hblank
    rw [atBoundary, Text.trimStart_blanks_append hblank, Text.trimStart_blanks_append hblanks,
      hrest.trimStart_eq] at hopen
    rcases hrest with rfl | hseparator
    · simp at hopen
    · simp [hseparator] at hopen
  obtain ⟨skipped, -, hskipped⟩ := Text.exists_blanks_append after
  have hsuffix : Text.trimStart after <:+ before ++ '\'' :: after :=
    ⟨before ++ '\'' :: skipped, by rw [List.append_assoc, List.cons_append, ← hskipped]⟩
  have hne : Text.trimStart after ≠ [] := fun h => hafter (Text.trimStart_eq_nil_iff.mp h)
  rw [atBoundary, Text.trimStart_append hafter, htail.startsWithSeparator_append,
    (hpart.of_suffix hsuffix).startsWithSeparator_eq]
  simp [hne]

/-- A text that starts with no blank is what is left of it when it is trimmed, and some blanks. -/
theorem exists_trim_append {shown rest : List Char}
    (hstart : Text.trimStart (shown ++ rest) = shown ++ rest) (hne : Text.trim shown ≠ []) :
    ¬ Text.IsBlankText (Text.trim shown) ∧
      ∃ blanks, Text.IsBlankText blanks ∧ shown = Text.trim shown ++ blanks := by
  have hblank : ¬ Text.IsBlankText shown := fun h => hne (Text.trim_of_isBlankText h)
  rw [Text.trimStart_append hblank] at hstart
  have hshown := List.append_cancel_right hstart
  obtain ⟨blanks, hblanks, hsplit⟩ := Text.exists_trimEnd_append shown
  refine ⟨?_, blanks, hblanks, by rw [Text.trim, hshown, ← hsplit]⟩
  rw [← Text.trimStart_eq_nil_iff, Text.trimStart_of_trim (Text.trim_trim shown)]
  exact hne

/-- A literal is read back from what is displayed of it. -/
theorem read_display_append {cs rest tail : List Char} {literal : Literal}
    (hreads : ReadsTo cs literal rest) (hstart : Text.trimStart cs = cs) (htail : IsTail tail)
    (hnone : NoneCloses rest → NoneCloses tail) :
    ∃ left, read (Text.trimStart (literal.display.toList ++ tail)) = (literal, left) ∧
      Text.trimStart left = Text.trimStart tail := by
  cases hreads with
  | @quoted inner _ _ hinner =>
      rw [display_quoted_append, Text.trimStart_of_not_isBlank rfl,
        read_quoted_append hinner (atBoundary_of_isTail htail)]
      exact ⟨tail, rfl, rfl⟩
  | @plain shown _ hundivided hrest hquote =>
      rw [display_ofText]
      by_cases hempty : Text.trim shown = []
      · rw [hempty]
        exact ⟨_, read_tail htail, Text.trimStart_trimStart tail⟩
      · obtain ⟨hblank, blanks, hblanks, hsplit⟩ := exists_trim_append hstart hempty
        have htrim := Text.trim_trim shown
        generalize Text.trim shown = trimmed at hempty hblank hsplit htrim
        subst hsplit
        have hpart := hundivided.of_prefix (List.prefix_append trimmed blanks)
        have hunquoted : readQuoted? (trimmed ++ tail) = none := by
          rw [readQuoted?_eq_none_iff] at hquote ⊢
          intro behind hbehind
          obtain ⟨c, inside, rfl⟩ := List.exists_cons_of_ne_nil hempty
          obtain ⟨rfl, rfl⟩ := List.cons.inj hbehind
          have hopen := hquote (inside ++ (blanks ++ rest)) (by simp)
          have hrestNone := hopen.of_suffix ⟨inside ++ blanks, List.append_assoc _ _ _⟩
          exact noneCloses_append_tail (hpart.of_suffix (List.suffix_cons '\'' inside)) hblanks
            hrest hopen htail (hnone hrestNone)
        have hread := read_append_tail hpart hblank hunquoted htail
        rw [htrim] at hread
        rwa [Text.trimStart_append hblank, Text.trimStart_of_trim htrim]

theorem noneCloses_display_append {cs rest tail : List Char} {literal : Literal}
    (hreads : ReadsTo cs literal rest) (hstart : Text.trimStart cs = cs) (hcs : NoneCloses cs)
    (htail : IsTail tail) (htailNone : NoneCloses tail) :
    NoneCloses (literal.display.toList ++ tail) := by
  cases hreads with
  | @quoted inner _ hrest _ =>
      have hopen := hcs ('\'' :: inner) rest rfl
      rw [hrest] at hopen
      contradiction
  | @plain shown _ hundivided hrest _ =>
      rw [display_ofText]
      by_cases hempty : Text.trim shown = []
      · rwa [hempty]
      · obtain ⟨-, blanks, hblanks, hsplit⟩ := exists_trim_append hstart hempty
        have hpart := hundivided.of_prefix ⟨blanks, hsplit.symm⟩
        rw [hsplit, List.append_assoc] at hcs
        exact noneCloses_append_tail hpart hblanks hrest hcs htail htailNone

end Literal

end DecisionTables
