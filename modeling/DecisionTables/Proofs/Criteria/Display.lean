import DecisionTables.Proofs.Criteria.Literals
import DecisionTables.Proofs.Criteria.Single

/-!
# Reading displayed criteria

A displayed criteria shows its comparisons with no blanks but those around the separators.  Leaving
a blank out can only bring two characters together that stood apart, and of these only an operator
and an equals sign behind it mean something else together: `> =5` asks for what comes after the text
`=5`, yet is displayed as `>=5`.  All other criteria are read back from what is displayed.
-/

namespace DecisionTables

open Criteria (IsTail)

/-! ## Operators and literals -/

namespace Comparison

/-- The displayed operator and the equals sign behind it are one operator when they are read. -/
def Fuses : Comparison → Prop
  | test operator literal =>
    (operator = .greater ∨ operator = .less) ∧ literal.display.toList.head? = some '='
  | malformed _ => False

theorem toList_display_test (operator : Operator) (literal : Literal) :
    (test operator literal).display.toList =
      operator.symbol.toList ++ literal.display.toList :=
  String.toList_append

/-- The text of a comparison is an operator and what a literal is read from, with blanks between. -/
theorem exists_parts (cs : List Char) :
    ∃ (operator : Operator) (literal : Literal) (before between start behind : List Char),
      Text.IsBlankText before ∧ Text.IsBlankText between ∧
        cs = before ++ (operator.symbol.toList ++ (between ++ start)) ∧
        Text.trimStart start = start ∧ Literal.ReadsTo start literal behind ∧
        (operator = .equal → (Operator.read start).1 = .equal) ∧
        read cs = (ofParts operator literal, Text.trimStart behind) := by
  obtain ⟨before, hbefore, hcs⟩ := Text.exists_blanks_append cs
  have hsymbol := Operator.symbol_append_read (Text.trimStart cs)
  rw [read]
  generalize hoperator : Operator.read (Text.trimStart cs) = parts at hsymbol ⊢
  obtain ⟨operator, afterOperator⟩ := parts
  obtain ⟨between, hbetween, hafter⟩ := Text.exists_blanks_append afterOperator
  refine ⟨operator, _, before, between, Text.trimStart afterOperator, _, hbefore, hbetween, ?_,
    Text.trimStart_trimStart _, Literal.readsTo_read _, ?_, rfl⟩
  · rw [← hafter, hsymbol, ← hcs]
  · rintro rfl
    have hself : afterOperator = Text.trimStart cs := hsymbol
    rw [hself, Text.trimStart_trimStart, hoperator]

theorem suffix_read (cs : List Char) : (read cs).2 <:+ cs := by
  obtain ⟨operator, literal, before, between, start, behind, -, -, hcs, -, hreads, -, hread⟩ :=
    exists_parts cs
  have hstart : start <:+ cs := ⟨before ++ (operator.symbol.toList ++ between), by simp [hcs]⟩
  calc (read cs).2
    _ = Text.trimStart behind := by rw [hread]
    _ <:+ behind := List.dropWhile_suffix _
    _ <:+ start := hreads.suffix
    _ <:+ cs := hstart

/-- The text of a test ends with what its literal is read from. -/
theorem exists_literal_of_read {cs rest : List Char} {operator : Operator} {literal : Literal}
    (hread : read cs = (test operator literal, rest)) :
    ofParts operator literal = test operator literal ∧
      ∃ start behind, start <:+ cs ∧ rest <:+ behind ∧ Text.trimStart start = start ∧
        Literal.ReadsTo start literal behind ∧
        (operator = .equal → (Operator.read start).1 = .equal) := by
  obtain ⟨found, written, before, between, start, behind, -, -, hcs, hstart, hreads, hequal,
    hparts⟩ := exists_parts cs
  obtain ⟨hcomparison, rfl⟩ := Prod.mk.inj (hread.symm.trans hparts)
  obtain ⟨rfl, rfl⟩ := eq_of_ofParts_eq_test hcomparison.symm
  have hsuffix : start <:+ cs := ⟨before ++ (found.symbol.toList ++ between), by simp [hcs]⟩
  exact ⟨hcomparison.symm, start, behind, hsuffix, List.dropWhile_suffix _, hstart, hreads, hequal⟩

/-- No operator stands at the start of what is displayed of a literal that was read behind none. -/
theorem read_display_of_equal {start rest tail : List Char} {literal : Literal}
    (hreads : Literal.ReadsTo start literal rest) (hstart : Text.trimStart start = start)
    (hequal : (Operator.read start).1 = .equal) (htail : IsTail tail) :
    (Operator.read (Text.trimStart (literal.display.toList ++ tail))).1 = .equal := by
  cases hreads with
  | @quoted inner _ _ _ =>
      rw [Literal.display_quoted_append, Text.trimStart_of_not_isBlank rfl]
      rfl
  | @plain shown _ hundivided hrest _ =>
      rw [Literal.display_ofText]
      by_cases hempty : Text.trim shown = []
      · rw [hempty, List.nil_append]
        rcases htail.trimStart_eq with hnil | hseparator
        · rw [hnil]
          rfl
        · obtain ⟨more, hmore | hmore⟩ := exists_of_startsWithSeparator hseparator <;>
            rw [hmore] <;> rfl
      · obtain ⟨hblank, blanks, hblanks, hsplit⟩ := Literal.exists_trim_append hstart hempty
        have htrim := Text.trim_trim shown
        generalize Text.trim shown = trimmed at hempty hblank hsplit htrim
        subst hsplit
        have hbehind := Operator.blanks_append_ne_equals hblanks hrest.ne_equals
        rw [List.append_assoc, Operator.read_append hempty hbehind] at hequal
        rw [Text.trimStart_append hblank, Text.trimStart_of_trim htrim,
          Operator.read_append hempty htail.ne_equals]
        exact hequal

/-- The operator of a comparison is read off what is displayed of it, unless it fuses. -/
theorem exists_read_operator {start rest tail : List Char} {operator : Operator}
    {literal : Literal} (hreads : Literal.ReadsTo start literal rest)
    (hstart : Text.trimStart start = start)
    (hequal : operator = .equal → (Operator.read start).1 = .equal)
    (hfuses : ¬ (test operator literal).Fuses) (htail : IsTail tail) :
    ∃ afterOperator,
      Operator.read (Text.trimStart
        (operator.symbol.toList ++ (literal.display.toList ++ tail))) = (operator, afterOperator) ∧
      Text.trimStart afterOperator = Text.trimStart (literal.display.toList ++ tail) := by
  by_cases hwritten : operator = .equal
  · subst hwritten
    have hread := read_display_of_equal hreads hstart (hequal rfl) htail
    exact ⟨_, Operator.read_of_equal hread, Text.trimStart_trimStart _⟩
  · have hsign : operator = .greater ∨ operator = .less →
        ∀ more, literal.display.toList ++ tail ≠ '=' :: more := by
      intro hoperator more heq
      cases hshown : literal.display.toList with
      | nil => exact htail.ne_equals more (by rw [← heq, hshown, List.nil_append])
      | cons c shown =>
          rw [hshown, List.cons_append, List.cons.injEq] at heq
          exact hfuses ⟨hoperator, by rw [hshown, heq.1, List.head?_cons]⟩
    rw [Operator.trimStart_written_append hwritten, Operator.read_written_append hwritten hsign]
    exact ⟨_, rfl, rfl⟩

theorem read_display_append {cs rest tail : List Char} {operator : Operator} {literal : Literal}
    (hread : read cs = (test operator literal, rest))
    (hfuses : ¬ (test operator literal).Fuses) (htail : IsTail tail)
    (hnone : Literal.NoneCloses rest → Literal.NoneCloses tail) :
    read ((test operator literal).display.toList ++ tail) =
      (test operator literal, Text.trimStart tail) := by
  obtain ⟨hparts, start, behind, -, hbehind, hstart, hreads, hequal⟩ := exists_literal_of_read hread
  obtain ⟨left, hliteral, hleft⟩ := Literal.read_display_append hreads hstart htail
    fun h => hnone (h.of_suffix hbehind)
  obtain ⟨afterOperator, hoperator, hafter⟩ :=
    exists_read_operator hreads hstart hequal hfuses htail
  rw [toList_display_test, List.append_assoc, read]
  simp only [hoperator, hafter, hliteral, hparts, hleft]

theorem read_display_ne {comparison : Comparison} (hfuses : comparison.Fuses) (tail : List Char) :
    (read (comparison.display.toList ++ tail)).1 ≠ comparison := by
  cases comparison with
  | malformed fault => exact hfuses.elim
  | test operator literal =>
      obtain ⟨hoperator, hhead⟩ := hfuses
      obtain ⟨shown, hshown⟩ := List.head?_eq_some_iff.mp hhead
      rw [toList_display_test, hshown, read]
      intro hsame
      have hparts := (eq_of_ofParts_eq_test hsame).1
      rcases hoperator with rfl | rfl <;> contradiction

theorem noneCloses_display_append {cs rest tail : List Char} {operator : Operator}
    {literal : Literal} (hread : read cs = (test operator literal, rest))
    (hcs : Literal.NoneCloses cs) (htail : IsTail tail) (htailNone : Literal.NoneCloses tail) :
    Literal.NoneCloses ((test operator literal).display.toList ++ tail) := by
  obtain ⟨-, start, behind, hsuffix, -, hstart, hreads, -⟩ := exists_literal_of_read hread
  have hsymbol : '\'' ∉ operator.symbol.toList := Operator.notMem_symbol (by decide) operator
  rw [toList_display_test, List.append_assoc]
  exact Literal.noneCloses_append_of_notMem hsymbol
    (Literal.noneCloses_display_append hreads hstart (hcs.of_suffix hsuffix) htail htailNone)

theorem read_display {cs rest tail : List Char} {comparison : Comparison}
    (hread : read cs = (comparison, rest)) (hformed : comparison.isMalformed = false)
    (htail : IsTail tail) (hnone : Literal.NoneCloses rest → Literal.NoneCloses tail) :
    (Literal.NoneCloses cs → Literal.NoneCloses (comparison.display.toList ++ tail)) ∧
      (¬ comparison.Fuses →
        read (comparison.display.toList ++ tail) = (comparison, Text.trimStart tail)) := by
  cases comparison with
  | malformed fault => contradiction
  | test operator literal =>
      refine ⟨fun hcs => ?_, fun hfuses => read_display_append hread hfuses htail hnone⟩
      have hrest := hcs.of_suffix (by simpa [hread] using suffix_read cs)
      exact noneCloses_display_append hread hcs htail (hnone hrest)

end Comparison

/-! ## Groups of comparisons -/

namespace Criteria

theorem flatten_prependToFirst (comparison : Comparison) (groups : List (List Comparison)) :
    (prependToFirst comparison groups).flatten = comparison :: groups.flatten := by
  cases groups <;> rfl

theorem prependToFirst_readGroups_inj {comparison : Comparison} {cs ds : List Char} :
    prependToFirst comparison (readGroups cs).1 = prependToFirst comparison (readGroups ds).1 ↔
      (readGroups cs).1 = (readGroups ds).1 := by
  rcases exists_cons_readGroups cs with ⟨_, _, hcs⟩
  rcases exists_cons_readGroups ds with ⟨_, _, hds⟩
  rw [hcs, hds]
  simp [prependToFirst]

/-! ## What is displayed -/

theorem display_single (comparison : Comparison) :
    (expression [[comparison]]).display = comparison.display :=
  rfl

theorem toList_display_and (comparison : Comparison) (cs : List Char) :
    (expression (prependToFirst comparison (readGroups cs).1)).display.toList =
      comparison.display.toList ++
        ' ' :: '&' :: '&' :: ' ' :: (expression (readGroups cs).1).display.toList := by
  rcases exists_cons_readGroups cs with ⟨group, later, hcs⟩
  rw [hcs]
  cases later <;> simp [prependToFirst, display, Text.join]

theorem toList_display_or (comparison : Comparison) (cs : List Char) :
    (expression ([comparison] :: (readGroups cs).1)).display.toList =
      comparison.display.toList ++
        ' ' :: '|' :: '|' :: ' ' :: (expression (readGroups cs).1).display.toList := by
  rcases exists_cons_readGroups cs with ⟨group, later, hcs⟩
  rw [hcs]
  simp [display, Text.join]

theorem noneCloses_separator {mark : Char} (hmark : '\'' ≠ mark) {rest shown : List Char}
    (hnone : Literal.NoneCloses rest → Literal.NoneCloses shown)
    (hrest : Literal.NoneCloses (mark :: mark :: rest)) :
    Literal.NoneCloses (' ' :: mark :: mark :: ' ' :: shown) := by
  have hshown := hnone (hrest.of_suffix ⟨[mark, mark], rfl⟩)
  have hseparator : '\'' ∉ [' ', mark, mark, ' '] := by simp [hmark]
  exact Literal.noneCloses_append_of_notMem hseparator hshown

theorem not_fuses_of_readGroups {comparison : Comparison} {tail : List Char}
    {groups : List (List Comparison)}
    (hread : readGroups (comparison.display.toList ++ tail) = (groups, []))
    (hfirst : groups.flatten.head? = some comparison) : ¬ comparison.Fuses := by
  intro hfuses
  rcases exists_cons_readGroups (comparison.display.toList ++ tail) with ⟨group, later, hcons⟩
  rw [hread] at hcons
  obtain rfl : groups = _ := hcons
  exact Comparison.read_display_ne hfuses tail (Option.some.inj hfirst)

/--
Well-formed groups are read back from what is displayed of them just where no operator fuses, and no
quote closes there if none did before.
-/
theorem readGroups_display {cs : List Char} {groups : List (List Comparison)}
    (hread : readGroups cs = (groups, []))
    (hformed : ∀ comparison ∈ groups.flatten, comparison.isMalformed = false) :
    (Literal.NoneCloses cs → Literal.NoneCloses (expression groups).display.toList) ∧
      (readGroups (expression groups).display.toList = (groups, []) ↔
        ∀ comparison ∈ groups.flatten, ¬ comparison.Fuses) := by
  -- The first half is the invariant: whether a quote that the first comparison leaves open stays
  -- open depends on what is displayed behind it.
  induction cs using readGroups.induct generalizing groups with
  | case1 cs comparison rest hfirst _ later unread hrest ih =>
      rw [readGroups_and hfirst] at hread
      obtain ⟨rfl, hunread⟩ := Prod.mk.inj hread
      rw [flatten_prependToFirst, List.forall_mem_cons] at hformed
      obtain ⟨hnone, hlater⟩ := ih (Prod.ext rfl hunread) hformed.2
      obtain ⟨hclosed, hreads⟩ := Comparison.read_display hfirst hformed.1
        (.separator rfl) (noneCloses_separator (by decide) hnone)
      rw [toList_display_and, flatten_prependToFirst, List.forall_mem_cons, ← hlater]
      refine ⟨hclosed, fun hback => ?_, fun ⟨hfuses, hback⟩ => ?_⟩
      · have hfuses := not_fuses_of_readGroups hback (by rw [flatten_prependToFirst]; rfl)
        rw [readGroups_and (hreads hfuses), readGroups_blank_cons rfl] at hback
        obtain ⟨hsame, hleft⟩ := Prod.mk.inj hback
        exact ⟨hfuses, Prod.ext (prependToFirst_readGroups_inj.mp hsame) hleft⟩
      · rw [readGroups_and (hreads hfuses), readGroups_blank_cons rfl, hback]
  | case2 cs comparison rest hfirst _ later unread hrest ih =>
      rw [readGroups_or hfirst] at hread
      obtain ⟨rfl, hunread⟩ := Prod.mk.inj hread
      rw [List.flatten_cons, List.singleton_append, List.forall_mem_cons] at hformed
      obtain ⟨hnone, hlater⟩ := ih (Prod.ext rfl hunread) hformed.2
      obtain ⟨hclosed, hreads⟩ := Comparison.read_display hfirst hformed.1
        (.separator rfl) (noneCloses_separator (by decide) hnone)
      rw [toList_display_or, List.flatten_cons, List.singleton_append, List.forall_mem_cons,
        ← hlater]
      refine ⟨hclosed, fun hback => ?_, fun ⟨hfuses, hback⟩ => ?_⟩
      · have hfuses := not_fuses_of_readGroups hback rfl
        rw [readGroups_or (hreads hfuses), readGroups_blank_cons rfl] at hback
        obtain ⟨hsame, hleft⟩ := Prod.mk.inj hback
        exact ⟨hfuses, Prod.ext (List.cons.inj hsame).2 hleft⟩
      · rw [readGroups_or (hreads hfuses), readGroups_blank_cons rfl, hback]
  | case3 cs comparison rest hand hor hfirst =>
      have hend : readGroups cs = ([[comparison]], rest) := by
        rw [readGroups_eq, hfirst]
        split <;> simp_all
      rw [hend] at hread
      obtain ⟨rfl, rfl⟩ := Prod.mk.inj hread
      have hone : comparison.isMalformed = false := hformed comparison (by simp)
      obtain ⟨hclosed, hreads⟩ := Comparison.read_display hfirst hone .nothing fun hnone => hnone
      rw [List.append_nil] at hclosed hreads
      rw [display_single]
      refine ⟨hclosed, fun hback => ?_, fun hfuses => ?_⟩
      · rw [← List.append_nil comparison.display.toList] at hback
        simpa using not_fuses_of_readGroups hback rfl
      · exact readGroups_eq_single_iff.mpr (hreads (hfuses comparison (by simp)))

/-! ## Parsed criteria -/

theorem rejectEmptyAmongOthers_of_formed {groups : List (List Comparison)}
    (hformed : ∀ comparison ∈ (rejectEmptyAmongOthers groups).flatten,
      comparison.isMalformed = false) :
    rejectEmptyAmongOthers groups = groups := by
  unfold rejectEmptyAmongOthers at hformed ⊢
  split_ifs at hformed ⊢ with hlone
  · rfl
  · -- A comparison that was rejected would have become malformed.
    have hkept : ∀ comparison : Comparison, comparison.rejectEmpty.isMalformed = false →
        comparison.rejectEmpty = comparison := by
      intro comparison hcomparison
      unfold Comparison.rejectEmpty at hcomparison ⊢
      split at hcomparison <;> first | contradiction | rfl
    refine (List.map_congr_left fun group hgroup => ?_).trans (List.map_id groups)
    refine (List.map_congr_left fun comparison hcomparison => ?_).trans (List.map_id group)
    apply hkept
    apply hformed
    rw [← List.map_flatten]
    exact List.mem_map_of_mem (List.mem_flatten_of_mem hgroup hcomparison)

theorem exists_groups_of_formed {source : String} (hformed : (parse source).isMalformed = false) :
    ∃ groups, parse source = expression groups ∧
      ∀ comparison ∈ groups.flatten, comparison.isMalformed = false := by
  cases hparse : parse source with
  | expression groups =>
      rw [hparse] at hformed
      refine ⟨groups, rfl, fun comparison hcomparison => ?_⟩
      obtain ⟨group, hgroup, hmem⟩ := List.mem_flatten.mp hcomparison
      have hall : ∀ group ∈ groups, ∀ comparison ∈ group, comparison.isMalformed = false := by
        simpa [isMalformed] using hformed
      exact hall group hgroup comparison hmem
  | malformed fault =>
      rw [hparse] at hformed
      contradiction
  | _ =>
      unfold parse at hparse
      split at hparse <;> contradiction

/-- Well-formed groups are parsed just where they are read in full and none is rejected. -/
theorem parse_eq_iff {source : String} {groups : List (List Comparison)}
    (hformed : ∀ comparison ∈ groups.flatten, comparison.isMalformed = false) :
    parse source = expression groups ↔
      readGroups source.toList = (groups, []) ∧ rejectEmptyAmongOthers groups = groups := by
  unfold parse
  constructor
  · intro hparse
    split at hparse
    · next found hread =>
      obtain rfl := expression.inj hparse
      have hself := rejectEmptyAmongOthers_of_formed hformed
      rw [hread, hself]
      exact ⟨rfl, hself⟩
    · contradiction
  · rintro ⟨hread, hself⟩
    rw [hread]
    exact congrArg expression hself

def comparisons : Criteria → List Comparison
  | expression groups => groups.flatten
  | _ => []

/--
Criteria with no malformed part are read back from what is displayed of them just where no operator
fuses with an equals sign that the literal starts with.
-/
theorem display_reads_back_iff {source : String}
    (hformed : (parse source).isMalformed = false) :
    parse (parse source).display = parse source ↔
      ∀ comparison ∈ (parse source).comparisons, ¬ comparison.Fuses := by
  obtain ⟨groups, hparse, hgroups⟩ := exists_groups_of_formed hformed
  obtain ⟨hread, hself⟩ := (parse_eq_iff hgroups).mp hparse
  rw [hparse, parse_eq_iff hgroups, and_iff_left hself]
  exact (readGroups_display hread hgroups).2

/-- An inequality with a text, which is displayed without the blank between them. -/
theorem display_reads_back_gold :
    (parse "!= gold").isMalformed = false ∧
      parse (parse "!= gold").display = parse "!= gold" := by
  have hparse : parse "!= gold" = expression [[.test .notEqual (.text "gold")]] :=
    parse_eq_single_iff.mpr (by decide)
  have hformed : (parse "!= gold").isMalformed = false := by
    rw [hparse]
    rfl
  refine ⟨hformed, (display_reads_back_iff hformed).mpr ?_⟩
  rw [hparse]
  simp [comparisons, Comparison.Fuses]

/-- A text with an equals sign at its start, behind the operator that the sign extends. -/
theorem display_fuses_operator :
    ¬ ∀ source : String, (parse source).isMalformed = false →
      parse (parse source).display = parse source := by
  intro hback
  have hparse : parse "> =5" = expression [[.test .greater (.text "=5")]] :=
    parse_eq_single_iff.mpr (by decide)
  have hsame := hback "> =5" (by rw [hparse]; rfl)
  rw [hparse, display_single, parse_eq_single_iff] at hsame
  have hfuses : (Comparison.test .greater (.text "=5")).Fuses := ⟨.inl rfl, by decide⟩
  have hother := Comparison.read_display_ne hfuses []
  rw [List.append_nil, hsame] at hother
  exact hother rfl

end Criteria

end DecisionTables
