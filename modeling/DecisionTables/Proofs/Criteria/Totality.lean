import DecisionTables.Proofs.Criteria.Display

/-!
# Reading any text

Any text can be read as criteria.  A comparison always ends at a separator or at the end of the
text: a quoted literal closes only there, and a text that opens a quote without closing it extends
to the next separator like any other.  So reading goes on behind a separator until nothing is left,
and the pieces between the separators are read as they are on their own, every one an operator and a
literal with blanks around them.  What comes of it is proper: a literal that is not quoted is a
wildcard, a number or other text by its characters alone, and nothing is ordered against a wildcard
or against no text at all.
-/

namespace DecisionTables

open Criteria (IsUndivided)

/-- Some text with no blanks around it and no separator in it. -/
structure Literal.IsBare (text : String) : Prop where
  nonempty : text ≠ ""
  first : ∀ c ∈ text.toList.head?, Text.isBlank c = false
  last : ∀ c ∈ text.toList.getLast?, Text.isBlank c = false
  undivided : IsUndivided text.toList

/-- Unless it is quoted, a text is a wildcard where it has stars, and else a number if it can be. -/
def Literal.IsProper : Literal → Prop
  | .number value written =>
    IsBare written ∧ '*' ∉ written.toList ∧ readNumber? written.toList = some value
  | .text written =>
    IsBare written ∧ '*' ∉ written.toList ∧ readNumber? written.toList = none
  | .quoted _ => True
  | .wildcard pattern => IsBare pattern ∧ '*' ∈ pattern.toList
  | .empty => True

def Comparison.IsProper : Comparison → Prop
  | test operator literal => literal.IsProper ∧ (operator.isRelational = true →
      literal ≠ .empty ∧ ∀ pattern, literal ≠ .wildcard pattern)
  | malformed _ => True

/-- The text is an operator and a literal, as they are displayed, with blanks around them. -/
def Comparison.IsSpelledBy (cs : List Char) (comparison : Comparison) : Prop :=
  ∃ (operator : Operator) (literal : Literal) (before between after : List Char),
    Text.IsBlankText before ∧ Text.IsBlankText between ∧ Text.IsBlankText after ∧
      cs = before ++ (operator.symbol.toList ++ (between ++ (literal.display.toList ++ after))) ∧
      comparison = ofParts operator literal

/-- Some groups of some proper comparisons, where a test for nothing stands alone. -/
structure Criteria.IsProper (groups : List (List Comparison)) : Prop where
  nonempty : groups ≠ []
  groupsNonempty : ∀ group ∈ groups, group ≠ []
  comparisons : ∀ comparison ∈ groups.flatten, comparison.IsProper
  lone : .test .equal .empty ∈ groups.flatten → groups = [[.test .equal .empty]]

/-! ## Ends of comparisons -/

theorem endsFragment_of_atBoundary {cs : List Char} (hcs : Literal.atBoundary cs = true) :
    EndsFragment (Text.trimStart cs) := by
  unfold Literal.atBoundary at hcs
  simpa [EndsFragment] using hcs

theorem EndsFragment.trimStart_append {rest : List Char} (hrest : EndsFragment rest)
    (cs : List Char) : Text.trimStart (cs ++ rest) = Text.trimStart cs ++ rest := by
  by_cases hblank : Text.IsBlankText cs
  · rw [Text.trimStart_blanks_append hblank, hrest.trimStart_eq,
      Text.trimStart_eq_nil_iff.mpr hblank, List.nil_append]
  · exact Text.trimStart_append hblank rest

/-- No operator reaches across the end of a comparison. -/
theorem EndsFragment.read_append {rest : List Char} (hrest : EndsFragment rest) (cs : List Char) :
    Operator.read (cs ++ rest) = ((Operator.read cs).1, (Operator.read cs).2 ++ rest) := by
  by_cases hcs : cs = []
  · subst hcs
    rcases hrest with rfl | hseparator
    · rfl
    · obtain ⟨more, rfl | rfl⟩ := exists_of_startsWithSeparator hseparator <;> rfl
  · exact Operator.read_append hcs hrest.ne_equals

namespace Literal

theorem ReadsTo.endsFragment {cs behind : List Char} {literal : Literal}
    (hreads : ReadsTo cs literal behind) : EndsFragment (Text.trimStart behind) := by
  cases hreads with
  | quoted hboundary _ => exact endsFragment_of_atBoundary hboundary
  | plain _ hends _ => rwa [hends.trimStart_eq]

/-- A text starts with what is displayed of the literal that it is read as. -/
theorem ReadsTo.exists_display_append {cs behind : List Char} {literal : Literal}
    (hreads : ReadsTo cs literal behind) (hstart : Text.trimStart cs = cs) :
    ∃ blanks, Text.IsBlankText blanks ∧ cs = literal.display.toList ++ (blanks ++ behind) := by
  cases hreads with
  | quoted _ _ => exact ⟨[], by simp [Text.IsBlankText], (display_quoted_append _ _).symm⟩
  | @plain shown _ _ _ _ =>
      rw [display_ofText]
      by_cases hempty : Text.trim shown = []
      · have hblank : Text.IsBlankText shown := by
          by_contra hnot
          exact Text.trim_ne_nil hnot hempty
        exact ⟨shown, hblank, by rw [hempty, List.nil_append]⟩
      · obtain ⟨-, blanks, hblanks, hshown⟩ := exists_trim_append hstart hempty
        exact ⟨blanks, hblanks, by rw [← List.append_assoc, ← hshown]⟩

/-- A quote that no quote closes in a text is not closed in the part before a separator either. -/
theorem readQuoted?_of_append {shown rest : List Char} (hundivided : IsUndivided shown)
    (hrest : EndsFragment rest) (hquote : readQuoted? (shown ++ rest) = none) :
    readQuoted? shown = none := by
  rw [readQuoted?_eq_none_iff] at hquote ⊢
  rintro inside rfl
  have hopen : NoneCloses (inside ++ ([] ++ rest)) := hquote (inside ++ rest) rfl
  have hinside := hundivided.of_suffix (List.suffix_cons '\'' inside)
  have hblanks : Text.IsBlankText [] := by decide
  have hnothing : NoneCloses [] := by simp [NoneCloses]
  simpa using noneCloses_append_tail hinside hblanks hrest hopen .nothing hnothing

/-- A literal is read from its own part of the text as well. -/
theorem ReadsTo.read_part {part rest behind : List Char} {literal : Literal}
    (hreads : ReadsTo (part ++ rest) literal behind) (hrest : Text.trimStart behind = rest) :
    ∃ left, read part = (literal, left) ∧ Text.trimStart left = [] := by
  obtain ⟨blanks, hblanks, hbehind⟩ := Text.exists_blanks_append behind
  rw [hrest] at hbehind
  generalize hcs : part ++ rest = cs at hreads
  cases hreads with
  | @quoted inner _ hboundary hinner =>
      have hpart : part = '\'' :: (inner ++ '\'' :: blanks) := by
        apply List.append_cancel_right
        rw [hcs, hbehind, List.cons_append, List.append_assoc, List.cons_append]
      have hleft := Text.trimStart_eq_nil_iff.mpr hblanks
      have hclosed : atBoundary blanks = true := by simp [atBoundary, hleft]
      exact ⟨blanks, by rw [hpart, read_quoted_append hinner hclosed], hleft⟩
  | @plain shown _ hundivided hends hquote =>
      rw [← hrest, hends.trimStart_eq, List.append_cancel_right_eq] at hcs
      subst hcs
      refine ⟨[], ?_, rfl⟩
      rw [read_of_readQuoted? (readQuoted?_of_append hundivided hends hquote),
        splitPlain_self hundivided]

end Literal

namespace Comparison

theorem endsFragment_read (cs : List Char) : EndsFragment (read cs).2 :=
  (Literal.readsTo_read _).endsFragment

/-- A comparison is read from its own piece of the text as well, of which nothing is left. -/
theorem read_piece {piece rest : List Char} {comparison : Comparison}
    (hread : read (piece ++ rest) = (comparison, rest)) : read piece = (comparison, []) := by
  have hrest : EndsFragment rest := by simpa [hread] using endsFragment_read (piece ++ rest)
  rw [read, hrest.trimStart_append, hrest.read_append] at hread
  simp only [hrest.trimStart_append, Prod.mk.injEq] at hread
  have hreads := Literal.readsTo_read
    (Text.trimStart (Operator.read (Text.trimStart piece)).2 ++ rest)
  obtain ⟨left, hliteral, hleft⟩ := hreads.read_part hread.2
  rw [read]
  simp only [hliteral, hleft, hread.1]

theorem isSpelledBy_of_read {cs : List Char} {comparison : Comparison}
    (hread : read cs = (comparison, [])) : comparison.IsSpelledBy cs := by
  obtain ⟨operator, literal, before, between, start, behind, hbefore, hbetween, hcs, hstart, hreads,
    -, hparts⟩ := exists_parts cs
  obtain ⟨rfl, hbehind⟩ := Prod.mk.inj (hread.symm.trans hparts)
  obtain ⟨blanks, hblanks, rfl⟩ := hreads.exists_display_append hstart
  have hafter : Text.IsBlankText (blanks ++ behind) := by
    rw [← Text.trimStart_eq_nil_iff, Text.trimStart_blanks_append hblanks]
    exact hbehind.symm
  exact ⟨operator, literal, before, between, blanks ++ behind, hbefore, hbetween, hafter, hcs, rfl⟩

end Comparison

/-! ## Pieces -/

namespace Criteria

/-- The text of a comparison is its own piece and what stands behind it. -/
theorem exists_piece {cs rest : List Char} {comparison : Comparison}
    (hread : Comparison.read cs = (comparison, rest)) :
    ∃ piece : String, cs = piece.toList ++ rest ∧ comparisonOf piece = comparison ∧
      Comparison.read piece.toList = (comparisonOf piece, []) := by
  have hsuffix : rest <:+ cs := by simpa [hread] using Comparison.suffix_read cs
  obtain ⟨characters, rfl⟩ := hsuffix
  have hpiece := Comparison.read_piece hread
  refine ⟨String.ofList characters, ?_⟩
  simp [comparisonOf, hpiece]

/-- The text in which `&&` joins the pieces of every group, and `||` joins the groups. -/
def joined (pieces : List (List String)) : String :=
  Text.join "||" (pieces.map (Text.join "&&"))

/-- The pieces of a text, each of which is read in full and as it is spelled. -/
structure DividesInto (cs : List Char) (pieces : List (List String)) : Prop where
  nonempty : pieces ≠ []
  groups : ∀ group ∈ pieces, group ≠ []
  joins : (joined pieces).toList = cs
  reads : ∀ piece ∈ pieces.flatten, Comparison.read piece.toList = (comparisonOf piece, []) ∧
    (comparisonOf piece).IsSpelledBy piece.toList

theorem toList_joined_and (piece : String) {group : List String} (hgroup : group ≠ [])
    (later : List (List String)) :
    (joined ((piece :: group) :: later)).toList =
      piece.toList ++ '&' :: '&' :: (joined (group :: later)).toList := by
  obtain ⟨second, rest, rfl⟩ := List.exists_cons_of_ne_nil hgroup
  cases later <;> simp [joined, Text.join]

theorem toList_joined_or (piece : String) {pieces : List (List String)} (hpieces : pieces ≠ []) :
    (joined ([piece] :: pieces)).toList =
      piece.toList ++ '|' :: '|' :: (joined pieces).toList := by
  obtain ⟨group, later, rfl⟩ := List.exists_cons_of_ne_nil hpieces
  simp [joined, Text.join]

namespace DividesInto

variable {piece : String} {rest : List Char} {group : List String} {pieces : List (List String)}

theorem single (hpiece : Comparison.read piece.toList = (comparisonOf piece, [])) :
    DividesInto piece.toList [[piece]] where
  nonempty := List.cons_ne_nil _ _
  groups := by simp
  joins := rfl
  reads := by simpa using ⟨hpiece, Comparison.isSpelledBy_of_read hpiece⟩

theorem and (hpiece : Comparison.read piece.toList = (comparisonOf piece, []))
    (hrest : DividesInto rest (group :: pieces)) :
    DividesInto (piece.toList ++ '&' :: '&' :: rest) ((piece :: group) :: pieces) where
  nonempty := List.cons_ne_nil _ _
  groups := by
    obtain ⟨-, hpieces⟩ := List.forall_mem_cons.mp hrest.groups
    exact List.forall_mem_cons.mpr ⟨List.cons_ne_nil _ _, hpieces⟩
  joins := by
    rw [toList_joined_and piece (hrest.groups group List.mem_cons_self), hrest.joins]
  reads := List.forall_mem_cons.mpr
    ⟨⟨hpiece, Comparison.isSpelledBy_of_read hpiece⟩, hrest.reads⟩

theorem or (hpiece : Comparison.read piece.toList = (comparisonOf piece, []))
    (hrest : DividesInto rest pieces) :
    DividesInto (piece.toList ++ '|' :: '|' :: rest) ([piece] :: pieces) where
  nonempty := List.cons_ne_nil _ _
  groups := List.forall_mem_cons.mpr ⟨List.cons_ne_nil _ _, hrest.groups⟩
  joins := by rw [toList_joined_or piece hrest.nonempty, hrest.joins]
  reads := List.forall_mem_cons.mpr
    ⟨⟨hpiece, Comparison.isSpelledBy_of_read hpiece⟩, hrest.reads⟩

end DividesInto

/-- Every text divides into pieces, and it is read as what they are read as. -/
theorem exists_dividesInto (cs : List Char) :
    ∃ pieces, DividesInto cs pieces ∧ readGroups cs = (pieces.map (List.map comparisonOf), []) := by
  induction cs using readGroups.induct with
  | case1 cs comparison rest hread _ _ _ _ ih =>
      obtain ⟨pieces, hrest, hgroups⟩ := ih
      obtain ⟨group, later, rfl⟩ := List.exists_cons_of_ne_nil hrest.nonempty
      obtain ⟨piece, rfl, rfl, hpiece⟩ := exists_piece hread
      refine ⟨(piece :: group) :: later, hrest.and hpiece, ?_⟩
      rw [readGroups_and hread, hgroups]
      rfl
  | case2 cs comparison rest hread _ _ _ _ ih =>
      obtain ⟨pieces, hrest, hgroups⟩ := ih
      obtain ⟨piece, rfl, rfl, hpiece⟩ := exists_piece hread
      refine ⟨[piece] :: pieces, hrest.or hpiece, ?_⟩
      rw [readGroups_or hread, hgroups]
      rfl
  | case3 cs comparison rest hand hor hread =>
      -- What is left starts with no separator, so nothing is left.
      have hend : EndsFragment rest := by simpa [hread] using Comparison.endsFragment_read cs
      obtain rfl : rest = [] := by
        rcases hend with hnil | hseparator
        · exact hnil
        · obtain ⟨more, hmore | hmore⟩ := exists_of_startsWithSeparator hseparator
          · exact absurd hmore (hand more)
          · exact absurd hmore (hor more)
      obtain ⟨piece, rfl, rfl, hpiece⟩ := exists_piece hread
      rw [List.append_nil]
      exact ⟨[[piece]], .single hpiece, readGroups_eq_single_iff.mpr hpiece⟩

end Criteria

/-! ## Proper criteria -/

namespace Literal

theorem isBare_trim {cs : List Char} (hundivided : IsUndivided cs) (hne : Text.trim cs ≠ []) :
    IsBare (String.ofList (Text.trim cs)) := by
  constructor
  case nonempty => simpa using hne
  case first =>
    rw [String.toList_ofList, Text.head?_trim]
    intro c hc
    obtain ⟨rest, hrest⟩ := List.head?_eq_some_iff.mp hc
    exact Text.not_isBlank_head_trimStart hrest
  case last =>
    rw [String.toList_ofList, Text.getLast?_trim]
    intro c hc
    obtain ⟨rest, hrest⟩ := List.head?_eq_some_iff.mp hc
    exact Text.not_isBlank_head_trimStart hrest
  case undivided =>
    obtain ⟨blanks, -, hstart⟩ := Text.exists_trimEnd_append (Text.trimStart cs)
    rw [String.toList_ofList]
    have hstarted := hundivided.of_suffix (List.dropWhile_suffix Text.isBlank)
    exact hstarted.of_prefix ⟨blanks, hstart.symm⟩

theorem isProper_ofText {cs : List Char} (hundivided : IsUndivided cs) :
    (ofText (Text.trim cs)).IsProper := by
  have hbare := isBare_trim hundivided
  generalize Text.trim cs = trimmed at hbare ⊢
  unfold ofText
  split_ifs with hnil hstar
  · trivial
  · exact ⟨hbare hnil, by rwa [String.toList_ofList]⟩
  · cases hread : readNumber? trimmed with
    | some value => exact ⟨hbare hnil, by rwa [String.toList_ofList], by rwa [String.toList_ofList]⟩
    | none => exact ⟨hbare hnil, by rwa [String.toList_ofList], by rwa [String.toList_ofList]⟩

theorem ReadsTo.isProper {cs rest : List Char} {literal : Literal}
    (hreads : ReadsTo cs literal rest) : literal.IsProper := by
  cases hreads with
  | quoted _ _ => trivial
  | plain hundivided _ _ => exact isProper_ofText hundivided

end Literal

namespace Comparison

theorem isProper_ofParts {literal : Literal} (hliteral : literal.IsProper) (operator : Operator) :
    (ofParts operator literal).IsProper := by
  unfold ofParts
  split_ifs with hrelational
  · split
    · trivial
    · trivial
    · next hempty hwildcard => exact ⟨hliteral, fun _ => ⟨hempty, hwildcard⟩⟩
  · exact ⟨hliteral, fun h => absurd h hrelational⟩

theorem isProper_read (cs : List Char) : (read cs).1.IsProper :=
  isProper_ofParts (Literal.readsTo_read _).isProper _

theorem IsProper.rejectEmpty {comparison : Comparison} (hproper : comparison.IsProper) :
    comparison.rejectEmpty.IsProper := by
  unfold Comparison.rejectEmpty
  split
  · trivial
  · exact hproper

theorem rejectEmpty_ne (comparison : Comparison) : comparison.rejectEmpty ≠ test .equal .empty := by
  unfold rejectEmpty
  split
  · simp
  · assumption

end Comparison

namespace Criteria

theorem eq_single_of_length_flatten {groups : List (List Comparison)} (hne : groups ≠ [])
    (hgroups : ∀ group ∈ groups, group ≠ []) (hlength : groups.flatten.length ≤ 1) :
    ∃ comparison, groups = [[comparison]] := by
  obtain ⟨group, later, rfl⟩ := List.exists_cons_of_ne_nil hne
  obtain ⟨hgroup, hlater⟩ := List.forall_mem_cons.mp hgroups
  obtain ⟨comparison, more, rfl⟩ := List.exists_cons_of_ne_nil hgroup
  rw [List.flatten_cons, List.length_append, List.length_cons] at hlength
  have hmore : more = [] := List.eq_nil_of_length_eq_zero (by omega)
  have hflat : later.flatten = [] := List.eq_nil_of_length_eq_zero (by omega)
  have hnone : later = [] := by
    apply List.eq_nil_iff_forall_not_mem.mpr
    intro other hother
    exact hlater other hother (List.flatten_eq_nil_iff.mp hflat other hother)
  exact ⟨comparison, by rw [hmore, hnone]⟩

theorem isProper_rejectEmptyAmongOthers {groups : List (List Comparison)} (hne : groups ≠ [])
    (hgroups : ∀ group ∈ groups, group ≠ [])
    (hproper : ∀ comparison ∈ groups.flatten, comparison.IsProper) :
    IsProper (rejectEmptyAmongOthers groups) := by
  unfold rejectEmptyAmongOthers
  split_ifs with hlength
  · refine ⟨hne, hgroups, hproper, fun hempty => ?_⟩
    obtain ⟨comparison, rfl⟩ := eq_single_of_length_flatten hne hgroups hlength
    have hself : Comparison.test .equal .empty = comparison := by simpa using hempty
    rw [hself]
  · constructor
    case nonempty => simpa using hne
    case groupsNonempty => simpa using hgroups
    case comparisons =>
      rw [← List.map_flatten]
      exact List.forall_mem_map.mpr fun comparison hmem => (hproper comparison hmem).rejectEmpty
    case lone =>
      rw [← List.map_flatten]
      intro hempty
      obtain ⟨comparison, -, hcomparison⟩ := List.mem_map.mp hempty
      exact absurd hcomparison comparison.rejectEmpty_ne

/--
Any text is read in full, and as its pieces are each read on their own, but for pieces of nothing
among others, which are rejected.  The criteria that come of it are proper.
-/
theorem parse_total (source : String) :
    ∃ pieces, DividesInto source.toList pieces ∧
      readGroups source.toList = (pieces.map (List.map comparisonOf), []) ∧
      parse source = expression (rejectEmptyAmongOthers (pieces.map (List.map comparisonOf))) ∧
      IsProper (rejectEmptyAmongOthers (pieces.map (List.map comparisonOf))) := by
  obtain ⟨pieces, hpieces, hgroups⟩ := exists_dividesInto source.toList
  refine ⟨pieces, hpieces, hgroups, ?_, ?_⟩
  · rw [parse, hgroups]
  · apply isProper_rejectEmptyAmongOthers
    · simpa using hpieces.nonempty
    · simpa using hpieces.groups
    · rw [← List.map_flatten]
      exact List.forall_mem_map.mpr fun piece _ => Comparison.isProper_read piece.toList

end Criteria

end DecisionTables
