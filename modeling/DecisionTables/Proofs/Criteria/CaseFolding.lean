import DecisionTables.Criteria.Matching
import DecisionTables.Criteria.Reader
import DecisionTables.Proofs.Criteria.Glob
import DecisionTables.Proofs.Text.Lowercase

/-!
# Wildcards without case sensitivity

Without case sensitivity a pattern and a text are lowercased each by itself.  All characters but the
capital sigma are lowercased the same wherever they stand, so what a pattern covers is still covered.
A capital sigma takes its form from the letters around it, and next to a star the pattern does not
show them: `ΑΣ*` is lowercased to `ας*`, yet `ΑΣΑ` to `ασα`.  The patterns that keep all their
matches are just those in which every capital sigma has its form settled before a star comes.
-/

namespace DecisionTables

open Text (Stops inRanges caseIgnorableRanges casedRanges meetsCased lowercase lowercaseFrom
  lowercaseIn)

namespace Glob

/-- Whether a star comes before any character that does not ignore case. -/
def reachesStar : List Char → Bool
  | [] => false
  | c :: rest => c == '*' || (inRanges caseIgnorableRanges c && reachesStar rest)

/--
What the stars next to a capital sigma stand for does not matter for its form.  The text before it
is given backwards.
-/
def SettlesSigma (before after : List Char) : Prop :=
  (reachesStar before = true → meetsCased after = true) ∧
    (reachesStar after = true → meetsCased before = false)

instance (before after : List Char) : Decidable (SettlesSigma before after) :=
  inferInstanceAs (Decidable (_ ∧ _))

/-- Every capital sigma of the second text, which stands behind the first one, is settled. -/
def SettlesSigmas : List Char → List Char → Prop
  | _, [] => True
  | before, c :: after =>
    (c = 'Σ' → SettlesSigma before after) ∧ SettlesSigmas (c :: before) after

def decideSettlesSigmas : (before after : List Char) → Decidable (SettlesSigmas before after)
  | _, [] => .isTrue trivial
  | before, c :: after =>
    have := decideSettlesSigmas (c :: before) after
    inferInstanceAs (Decidable (_ ∧ _))

instance (before after : List Char) : Decidable (SettlesSigmas before after) :=
  decideSettlesSigmas before after

theorem settlesSigmas_of_notMem {before pattern : List Char} (hpattern : 'Σ' ∉ pattern) :
    SettlesSigmas before pattern := by
  induction pattern generalizing before with
  | nil => trivial
  | cons c pattern ih =>
      have hc : c ≠ 'Σ' := fun h => hpattern (by simp [h])
      have hrest : 'Σ' ∉ pattern := fun h => hpattern (List.mem_cons_of_mem c h)
      exact ⟨fun h => absurd h hc, ih hrest⟩

theorem stops_star : Stops '*' := by
  decide +kernel

theorem lowercaseIn_star (before after : List Char) : lowercaseIn before '*' after = ['*'] := by
  rw [Text.lowercaseIn_of_ne (by decide) before after [] []]
  decide

theorem meetsCased_of_reachesStar {cs : List Char} (hcs : reachesStar cs = true) :
    meetsCased cs = false := by
  induction cs with
  | nil => rfl
  | cons c cs ih =>
      by_cases hstar : c = '*'
      · rw [hstar, Text.meetsCased_cons_of_stops stops_star]
        decide
      · have hboth : inRanges caseIgnorableRanges c = true ∧ reachesStar cs = true := by
          simpa [reachesStar, hstar] using hcs
        have hpasses : ¬ Stops c := by simp [Stops, hboth.1]
        rw [Text.meetsCased_cons_of_not_stops hpasses]
        exact ih hboth.2

/-- Where no star comes first, a text meets a cased character just where its pattern does. -/
theorem Covers.meetsCased_eq {pattern text : List Char} (hcovers : Covers pattern text)
    (hstar : reachesStar pattern = false) : meetsCased pattern = meetsCased text := by
  induction hcovers with
  | nothing => rfl
  | @same c pattern text _ ih =>
      by_cases hstops : Stops c
      · rw [Text.meetsCased_cons_of_stops hstops, Text.meetsCased_cons_of_stops hstops]
      · rw [Text.meetsCased_cons_of_not_stops hstops, Text.meetsCased_cons_of_not_stops hstops]
        have hignorable : inRanges caseIgnorableRanges c = true := by simpa [Stops] using hstops
        apply ih
        by_contra hreaches
        simp [reachesStar, hignorable, hreaches] at hstar
  | pass _ _ => simp [reachesStar] at hstar
  | take _ _ _ => simp [reachesStar] at hstar

/-- A settled sigma has in the text the form that it has in the pattern. -/
theorem lowercaseIn_sigma_of_settled {before after textBefore textAfter : List Char}
    (hsettled : SettlesSigma before after) (hbefore : Covers before textBefore)
    (hafter : Covers after textAfter) :
    lowercaseIn before 'Σ' after = lowercaseIn textBefore 'Σ' textAfter := by
  have hform : (meetsCased before && !meetsCased after) =
      (meetsCased textBefore && !meetsCased textAfter) := by
    by_cases hleft : reachesStar before = true
    · have hcased := hsettled.1 hleft
      have hright : reachesStar after = false := by
        by_contra hreaches
        rw [meetsCased_of_reachesStar (by simpa using hreaches)] at hcased
        contradiction
      rw [← hafter.meetsCased_eq hright, hcased]
      simp
    · rw [← hbefore.meetsCased_eq (by simpa using hleft)]
      by_cases hright : reachesStar after = true
      · rw [hsettled.2 hright]
        rfl
      · rw [hafter.meetsCased_eq (by simpa using hright)]
  rw [lowercaseIn, lowercaseIn, if_pos rfl, if_pos rfl, hform]

theorem Covers.append_same {pattern text : List Char} (hcovers : Covers pattern text)
    (common : List Char) : Covers (common ++ pattern) (common ++ text) := by
  induction common with
  | nil => exact hcovers
  | cons c common ih => exact .same c ih

/-- What a pattern covers is covered when both are lowercased, if the sigmas are settled. -/
theorem covers_lowercaseFrom {pattern text before textBefore : List Char}
    (hcovers : Covers pattern text) (hsettled : SettlesSigmas before pattern)
    (hbefore : Covers before textBefore ∨
      pattern.head? = some '*' ∧ Covers ('*' :: before) textBefore) :
    Covers (lowercaseFrom before pattern) (lowercaseFrom textBefore text) := by
  induction hcovers generalizing before textBefore with
  | nothing => exact .nothing
  | @same c pattern text hrest ih =>
      have hboth : Covers (c :: before) (c :: textBefore) ∧
          lowercaseIn before c pattern = lowercaseIn textBefore c text := by
        rcases hbefore with hbefore | ⟨hstar, hbefore⟩
        · refine ⟨.same c hbefore, ?_⟩
          by_cases hc : c = 'Σ'
          · subst hc
            exact lowercaseIn_sigma_of_settled (hsettled.1 rfl) hbefore hrest
          · exact Text.lowercaseIn_of_ne hc before pattern textBefore text
        · obtain rfl : c = '*' := Option.some.inj hstar
          exact ⟨.take '*' hbefore, Text.lowercaseIn_of_ne (by decide) _ _ _ _⟩
      rw [lowercaseFrom, lowercaseFrom, hboth.2]
      exact (ih hsettled.2 (.inl hboth.1)).append_same _
  | @pass pattern text hrest ih =>
      have hstar : Covers ('*' :: before) textBefore := by
        rcases hbefore with hbefore | ⟨-, hbefore⟩
        · exact .pass hbefore
        · exact hbefore
      rw [lowercaseFrom, lowercaseIn_star]
      exact .pass (ih hsettled.2 (.inl hstar))
  | @take c pattern text _ ih =>
      have hstar : Covers ('*' :: before) (c :: textBefore) := by
        rcases hbefore with hbefore | ⟨-, hbefore⟩
        · exact .take c (.pass hbefore)
        · exact .take c hbefore
      have hmore := ih hsettled (.inr ⟨rfl, hstar⟩)
      rw [lowercaseFrom, lowercaseIn_star] at hmore ⊢
      rw [lowercaseFrom]
      exact hmore.takeAll _

/-! ## Matches that are lost -/

theorem Covers.count_le {pattern text : List Char} (hcovers : Covers pattern text) {c : Char}
    (hc : c ≠ '*') : pattern.count c ≤ text.count c := by
  induction hcovers with
  | nothing => simp
  | same d _ ih =>
      rw [List.count_cons, List.count_cons]
      omega
  | pass _ ih => rwa [List.count_cons_of_ne (Ne.symm hc)]
  | take d _ ih => exact ih.trans List.count_le_count_cons

theorem exists_of_reachesStar {cs : List Char} (hcs : reachesStar cs = true) :
    ∃ skipped rest, cs = skipped ++ '*' :: rest ∧ 'Σ' ∉ skipped ∧
      ∀ more, meetsCased (skipped ++ more) = meetsCased more := by
  induction cs with
  | nil => simp [reachesStar] at hcs
  | cons c cs ih =>
      by_cases hstar : c = '*'
      · exact ⟨[], cs, by rw [hstar, List.nil_append], by simp, fun _ => rfl⟩
      · have hboth : inRanges caseIgnorableRanges c = true ∧ reachesStar cs = true := by
          simpa [reachesStar, hstar] using hcs
        have hpasses : ¬ Stops c := by simp [Stops, hboth.1]
        have hsigma : 'Σ' ≠ c := by
          rintro rfl
          exact hpasses (by decide +kernel)
        rcases ih hboth.2 with ⟨skipped, rest, rfl, hskipped, hmeets⟩
        refine ⟨c :: skipped, rest, rfl, by simp [hsigma, hskipped], fun more => ?_⟩
        rw [List.cons_append, Text.meetsCased_cons_of_not_stops hpasses, hmeets]

theorem exists_of_not_settlesSigmas {before pattern : List Char}
    (hsettled : ¬ SettlesSigmas before pattern) :
    ∃ front after, pattern = front ++ 'Σ' :: after ∧
      ¬ SettlesSigma (front.reverse ++ before) after := by
  induction pattern generalizing before with
  | nil => exact absurd trivial hsettled
  | cons c pattern ih =>
      by_cases hrest : SettlesSigmas (c :: before) pattern
      · have hsigma : ¬ (c = 'Σ' → SettlesSigma before pattern) :=
          fun h => hsettled ⟨h, hrest⟩
        rw [Classical.not_imp] at hsigma
        exact ⟨[], pattern, by rw [hsigma.1, List.nil_append], hsigma.2⟩
      · rcases ih hrest with ⟨front, after, rfl, hnot⟩
        exact ⟨c :: front, after, rfl, by simpa using hnot⟩

theorem not_covers_of_count_lt {pattern text : List Char} {c : Char} (hc : c ≠ '*')
    (hcount : text.count c < pattern.count c) : ¬ Covers pattern text :=
  fun hcovers => absurd (hcovers.count_le hc) (by omega)

theorem lowercaseIn_sigma_final {before after : List Char} (hbefore : meetsCased before = true)
    (hafter : meetsCased after = false) : lowercaseIn before 'Σ' after = ['ς'] := by
  rw [lowercaseIn, if_pos rfl, hbefore, hafter]
  rfl

theorem lowercaseIn_sigma_medial {before after : List Char}
    (hform : meetsCased before = false ∨ meetsCased after = true) :
    lowercaseIn before 'Σ' after = ['σ'] := by
  rw [lowercaseIn, if_pos rfl]
  rcases hform with hbefore | hafter
  · rw [hbefore]
    rfl
  · rw [hafter]
    simp

theorem lowercaseIn_a (before after : List Char) : lowercaseIn before 'a' after = ['a'] := by
  rw [Text.lowercaseIn_of_ne (by decide) before after [] []]
  decide

theorem meetsCased_sigma (rest other : List Char) :
    meetsCased ('Σ' :: rest) = meetsCased ('Σ' :: other) := by
  have hstops : Stops 'Σ' := by decide +kernel
  rw [Text.meetsCased_cons_of_stops hstops, Text.meetsCased_cons_of_stops hstops]

theorem meetsCased_star (rest other : List Char) :
    meetsCased ('*' :: rest) = meetsCased ('*' :: other) := by
  rw [Text.meetsCased_cons_of_stops stops_star, Text.meetsCased_cons_of_stops stops_star]

theorem meetsCased_a (rest : List Char) : meetsCased ('a' :: rest) = true := by
  rw [Text.meetsCased_cons_of_stops (by decide +kernel)]
  decide

/-- A letter behind a sigma that would end its word makes the pattern ask for a final one in vain. -/
theorem not_covers_of_letter_behind {front skipped rest : List Char}
    (hfront : meetsCased front.reverse = true) (hskipped : 'Σ' ∉ skipped)
    (hmeets : ∀ more, meetsCased (skipped ++ more) = meetsCased more) :
    ¬ Covers (lowercase (front ++ 'Σ' :: (skipped ++ '*' :: rest)))
      (lowercase (front ++ 'Σ' :: (skipped ++ 'a' :: '*' :: rest))) := by
  rcases Text.exists_lowercaseFrom_append [] front
    (meetsCased_sigma (skipped ++ '*' :: rest) (skipped ++ 'a' :: '*' :: rest)) with
    ⟨lowered, hpattern, htext⟩
  rcases Text.exists_lowercaseFrom_append_of_notMem hskipped with ⟨between, hbetween⟩
  rw [List.append_nil] at hpattern htext
  have hfinal : lowercaseIn front.reverse 'Σ' (skipped ++ '*' :: rest) = ['ς'] := by
    apply lowercaseIn_sigma_final hfront
    rw [hmeets]
    exact meetsCased_of_reachesStar (by simp [reachesStar])
  have hmedial : lowercaseIn front.reverse 'Σ' (skipped ++ 'a' :: '*' :: rest) = ['σ'] := by
    apply lowercaseIn_sigma_medial
    right
    rw [hmeets, meetsCased_a]
  have hrest := Text.lowercaseFrom_congr
    (meetsCased_star ('a' :: (skipped.reverse ++ 'Σ' :: front.reverse))
      (skipped.reverse ++ 'Σ' :: front.reverse)) rest
  apply not_covers_of_count_lt (c := 'ς') (by decide)
  rw [lowercase, lowercase, hpattern, htext]
  simp only [lowercaseFrom, hfinal, hmedial, hbetween, lowercaseIn_star, lowercaseIn_a, hrest,
    List.count_append]
  simp

/-- A letter before a sigma that would stand alone makes the pattern ask in vain for a medial one. -/
theorem not_covers_of_letter_before {front skipped after : List Char}
    (hafter : meetsCased after = false) (hskipped : 'Σ' ∉ skipped)
    (hmeets : ∀ more, meetsCased (skipped ++ more) = meetsCased more) :
    ¬ Covers (lowercase (front ++ '*' :: (skipped.reverse ++ 'Σ' :: after)))
      (lowercase (front ++ '*' :: 'a' :: (skipped.reverse ++ 'Σ' :: after))) := by
  rcases Text.exists_lowercaseFrom_append [] front
    (meetsCased_star (skipped.reverse ++ 'Σ' :: after)
      ('a' :: (skipped.reverse ++ 'Σ' :: after))) with
    ⟨lowered, hpattern, htext⟩
  have hreversed : 'Σ' ∉ skipped.reverse := by simpa using hskipped
  rcases Text.exists_lowercaseFrom_append_of_notMem hreversed with ⟨between, hbetween⟩
  rw [List.append_nil] at hpattern htext
  have hmedial : lowercaseIn (skipped ++ '*' :: front.reverse) 'Σ' after = ['σ'] := by
    apply lowercaseIn_sigma_medial
    left
    rw [hmeets]
    exact meetsCased_of_reachesStar (by simp [reachesStar])
  have hfinal : lowercaseIn (skipped ++ 'a' :: '*' :: front.reverse) 'Σ' after = ['ς'] := by
    apply lowercaseIn_sigma_final _ hafter
    rw [hmeets, meetsCased_a]
  have hrest := Text.lowercaseFrom_congr
    (meetsCased_sigma (skipped ++ 'a' :: '*' :: front.reverse)
      (skipped ++ '*' :: front.reverse)) after
  apply not_covers_of_count_lt (c := 'σ') (by decide)
  rw [lowercase, lowercase, hpattern, htext]
  simp only [lowercaseFrom, hfinal, hmedial, hbetween, lowercaseIn_star, lowercaseIn_a, hrest,
    List.reverse_reverse, List.count_append]
  simp

theorem covers_self (pattern : List Char) : Covers pattern pattern := by
  simpa using Covers.nothing.append_same pattern

theorem exists_lost_of_not_settlesSigma {front after : List Char}
    (hsigma : ¬ SettlesSigma front.reverse after) :
    ∃ text, Covers (front ++ 'Σ' :: after) text ∧
      ¬ Covers (lowercase (front ++ 'Σ' :: after)) (lowercase text) := by
  have hopen : (reachesStar front.reverse = true ∧ meetsCased after = false) ∨
      reachesStar after = true ∧ meetsCased front.reverse = true := by
    simpa [SettlesSigma, Classical.or_iff_not_imp_left] using hsigma
  rcases hopen with ⟨hleft, hafter⟩ | ⟨hright, hfront⟩
  · rcases exists_of_reachesStar hleft with ⟨skipped, rest, hreversed, hskipped, hmeets⟩
    have hsplit : front ++ 'Σ' :: after =
        rest.reverse ++ '*' :: (skipped.reverse ++ 'Σ' :: after) := by
      rw [← List.reverse_reverse front, hreversed]
      simp
    have hstar : Covers ('*' :: (skipped.reverse ++ 'Σ' :: after))
        ('*' :: 'a' :: (skipped.reverse ++ 'Σ' :: after)) :=
      .take '*' (.take 'a' (.pass (covers_self _)))
    rw [hsplit]
    exact ⟨_, hstar.append_same _, not_covers_of_letter_before hafter hskipped hmeets⟩
  · rcases exists_of_reachesStar hright with ⟨skipped, rest, rfl, hskipped, hmeets⟩
    have hstar : Covers ('*' :: rest) ('a' :: '*' :: rest) := .take 'a' (covers_self _)
    have htext := ((hstar.append_same skipped).append_same ['Σ']).append_same front
    exact ⟨_, htext, not_covers_of_letter_behind hfront hskipped hmeets⟩

/-- Lowercasing keeps what a pattern covers just where all sigmas of the pattern are settled. -/
theorem covers_lowercase_iff {pattern : List Char} :
    (∀ text, Covers pattern text → Covers (lowercase pattern) (lowercase text)) ↔
      SettlesSigmas [] pattern := by
  constructor
  · intro hkept
    by_contra hsettled
    rcases exists_of_not_settlesSigmas hsettled with ⟨front, after, rfl, hnot⟩
    rw [List.append_nil] at hnot
    rcases exists_lost_of_not_settlesSigma hnot with ⟨text, hcovers, hlost⟩
    exact hlost (hkept text hcovers)
  · intro hsettled text hcovers
    exact covers_lowercaseFrom hcovers hsettled (.inl .nothing)

end Glob

namespace Criteria

open Glob (SettlesSigmas)

/-- The text of a tested value that a wildcard is compared with. -/
def wildcardText (tested : Option Json) : String :=
  ((present? tested).bind Json.textForm?).getD ""

theorem holds_wildcard {source pattern : String}
    (hparse : parse source = expression [[.test .equal (.wildcard pattern)]])
    (tested : Option Json) (options : CriteriaOptions) :
    (parse source).holds tested options =
      Glob.fits pattern (wildcardText tested) options.wildcardCaseSensitive := by
  rw [hparse]
  simp [holds, Comparison.holds, Comparison.testHolds, wildcardText]

/--
Turning case sensitivity off loses no match of a wildcard just where its sigmas are settled, so none
where it has no capital sigma.
-/
theorem wildcard_keeps_matches_iff {source pattern : String}
    (hparse : parse source = expression [[.test .equal (.wildcard pattern)]]) :
    ((∀ tested, (parse source).holds tested { wildcardCaseSensitive := true } = true →
        (parse source).holds tested { wildcardCaseSensitive := false } = true) ↔
      SettlesSigmas [] pattern.toList) ∧
    ('Σ' ∉ pattern.toList → SettlesSigmas [] pattern.toList) := by
  refine ⟨?_, Glob.settlesSigmas_of_notMem⟩
  simp only [holds_wildcard hparse, Glob.fits, if_true, Glob.matchExactly_iff_covers,
    Bool.false_eq_true, if_false]
  rw [← Glob.covers_lowercase_iff]
  constructor
  · intro hkept text hcovers
    have htext : (wildcardText (some (.string (String.ofList text)))).toList = text :=
      String.toList_ofList
    have hlowered := hkept (some (.string (String.ofList text)))
    rw [htext] at hlowered
    exact hlowered hcovers
  · intro hkept tested hcovers
    exact hkept _ hcovers

/-- Two sigmas, one that starts a word and one that ends the text. -/
theorem wildcard_keeps_matches_street :
    parse "ΣΑ*ΟΔΟΣ" = expression [[.test .equal (.wildcard "ΣΑ*ΟΔΟΣ")]] ∧
      SettlesSigmas [] "ΣΑ*ΟΔΟΣ".toList ∧
      (parse "ΣΑ*ΟΔΟΣ").holds (some (.string "ΣΑΣ ΟΔΟΣ")) { wildcardCaseSensitive := false } =
        true := by
  have hparse : parse "ΣΑ*ΟΔΟΣ" = expression [[.test .equal (.wildcard "ΣΑ*ΟΔΟΣ")]] := by
    cbv
  have hsettled : SettlesSigmas [] "ΣΑ*ΟΔΟΣ".toList := by
    decide +kernel
  refine ⟨hparse, hsettled, (wildcard_keeps_matches_iff hparse).1.mpr hsettled _ ?_⟩
  rw [holds_wildcard hparse]
  decide

/-- The sigma before the star ends a word in the pattern, but not in the text. -/
theorem wildcard_loses_match :
    ¬ ∀ (source pattern : String) (tested : Option Json),
      parse source = expression [[.test .equal (.wildcard pattern)]] →
        (parse source).holds tested { wildcardCaseSensitive := true } = true →
        (parse source).holds tested { wildcardCaseSensitive := false } = true := by
  intro hkept
  have hparse : parse "aΣ*" = expression [[.test .equal (.wildcard "aΣ*")]] := by
    cbv
  have hlost := hkept "aΣ*" "aΣ*" (some (.string "aΣb")) hparse
  rw [holds_wildcard hparse, holds_wildcard hparse] at hlost
  exact absurd (hlost (by decide)) (by decide +kernel)

end Criteria

end DecisionTables
