import DecisionTables.Proofs.Table.Acceptance
import DecisionTables.Table.Selection

/-!
# Evaluating rules

The verdict on a rule depends only on what was extracted for the inputs that it tests, and so does
everything that an evaluation of rules comes to.  Where failed rules are passed over, the evaluation
keeps the matching rules in their order, or the first of them in the mode that looks for it, and the
strongest of the matching rules is the first one with the most conditions.
-/

namespace DecisionTables.Table

namespace Rule

/-- No input that the rule tests has failed, and all conditions of the rule hold. -/
def Matches (rule : Rule) (extract : Input → Extracted) (options : CriteriaOptions) : Prop :=
  ∀ condition ∈ rule.conditions,
    (∀ error, extract condition.input ≠ .failed error) ∧
      condition.criteria.holds (extract condition.input).tested? options = true

variable {rule : Rule} {extract other : Input → Extracted} {options : CriteriaOptions}

theorem failure?_eq_none_iff :
    rule.failure? extract = none ↔
      ∀ condition ∈ rule.conditions, ∀ error, extract condition.input ≠ .failed error := by
  simp only [failure?, List.findSome?_eq_none_iff]
  refine forall₂_congr fun condition _ => ?_
  cases extract condition.input <;> simp

theorem verdict_eq_matching_iff :
    rule.verdict extract options = .matching ↔ rule.Matches extract options := by
  have hsatisfied : rule.isSatisfied extract options = true ↔
      ∀ condition ∈ rule.conditions,
        condition.criteria.holds (extract condition.input).tested? options = true := by
    simp [isSatisfied]
  unfold verdict Matches
  cases hfailure : rule.failure? extract with
  | some failure =>
      have hfailed : ¬ ∀ condition ∈ rule.conditions, ∀ error,
          extract condition.input ≠ .failed error := by
        rw [← failure?_eq_none_iff, hfailure]
        simp
      simp only [reduceCtorEq, false_iff]
      exact fun hmatches => hfailed fun condition hmem => (hmatches condition hmem).1
  | none =>
      have hclean := failure?_eq_none_iff.mp hfailure
      by_cases h : rule.isSatisfied extract options
      · simp only [h, if_true, true_iff]
        exact fun condition hmem => ⟨hclean condition hmem, hsatisfied.mp h condition hmem⟩
      · simp only [h, if_false, reduceCtorEq, false_iff]
        exact fun hmatches => h (hsatisfied.mpr fun condition hmem => (hmatches condition hmem).2)

theorem verdict_congr
    (hsame : ∀ condition ∈ rule.conditions, extract condition.input = other condition.input) :
    rule.verdict extract options = rule.verdict other options := by
  have hfailure : rule.failure? extract = rule.failure? other := by
    unfold failure?
    generalize rule.conditions = conditions at hsame
    induction conditions with
    | nil => rfl
    | cons condition rest ih =>
        simp only [List.findSome?_cons, hsame condition List.mem_cons_self,
          ih fun c hc => hsame c (List.mem_cons_of_mem _ hc)]
  have hsatisfied : rule.isSatisfied extract options = rule.isSatisfied other options := by
    rw [Bool.eq_iff_iff]
    simp only [isSatisfied, List.all_eq_true]
    exact forall₂_congr fun condition hmem => by rw [hsame condition hmem]
  simp only [verdict, hfailure, hsatisfied]

end Rule

variable {verdict other : Rule → Verdict} {strategy : Strategy} {rules : List Rule}

theorem scan_congr (hsame : ∀ rule ∈ rules, verdict rule = other rule) :
    scan verdict strategy rules = scan other strategy rules := by
  induction rules with
  | nil => rfl
  | cons rule rest ih =>
      simp only [scan, hsame rule List.mem_cons_self,
        ih fun r hr => hsame r (List.mem_cons_of_mem _ hr)]

/-- Only what was extracted for the inputs of the table decides what is selected. -/
theorem IsResolved.select_congr {table : Table} (hresolved : table.IsResolved)
    {extract other : Input → Extracted}
    (hsame : ∀ input ∈ table.inputs, extract input = other input) :
    table.select extract = table.select other := by
  have hverdict : ∀ rule ∈ table.rules, rule.verdict extract table.options.criteria =
      rule.verdict other table.options.criteria := by
    intro rule hrule
    apply Rule.verdict_congr
    intro condition hcondition
    exact hsame _ (hresolved.input_mem hrule hcondition)
  simp only [select, scan_congr hverdict]

theorem extractionNotices_congr {inputs : List Input} {extract other : Input → Extracted}
    (hsame : ∀ input ∈ inputs, extract input = other input) :
    extractionNotices inputs extract = extractionNotices inputs other := by
  unfold extractionNotices
  rw [List.filter_congr fun input hinput => by rw [hsame input hinput]]

theorem select_of_ne_bestMatch {table : Table} (hmode : table.strategy.mode ≠ .bestMatch)
    (extract : Input → Extracted) :
    table.select extract =
      scan (fun rule => rule.verdict extract table.options.criteria) table.strategy
        table.rules := by
  unfold select
  split
  · contradiction
  · rfl

theorem select_of_bestMatch {table : Table} (hmode : table.strategy.mode = .bestMatch)
    (extract : Input → Extracted) :
    table.select extract =
      let kept := scan (fun rule => rule.verdict extract table.options.criteria) table.strategy
        table.rules
      { kept with rules := (strongest? kept.rules).toList } := by
  simp only [select, hmode]

/-! ## Passing over failed rules -/

theorem scan_aborted (hlenient : strategy.stopOnError = false) (rules : List Rule) :
    (scan verdict strategy rules).aborted = false := by
  induction rules with
  | nil => rfl
  | cons rule rest ih =>
      simp only [scan, hlenient]
      cases verdict rule with
      | unmatching => exact ih
      | matching =>
          simp only
          split
          · rfl
          · exact ih
      | failed input error => exact ih

theorem select_aborted {table : Table} {extract : Input → Extracted}
    (hlenient : table.strategy.stopOnError = false) :
    (table.select extract).aborted = false := by
  unfold select
  split <;> exact scan_aborted hlenient table.rules

theorem scan_of_ne_firstMatch (hlenient : strategy.stopOnError = false)
    (hmode : strategy.mode ≠ .firstMatch) {matching : Rule → Bool}
    (hmatching : ∀ rule, matching rule = true ↔ verdict rule = .matching) (rules : List Rule) :
    (scan verdict strategy rules).rules = rules.filter matching ∧
      (scan verdict strategy rules).evaluated = rules.length := by
  induction rules with
  | nil => exact ⟨rfl, rfl⟩
  | cons rule rest ih =>
      have hrule := hmatching rule
      obtain ⟨hrules, hevaluated⟩ := ih
      cases hverdict : verdict rule with
      | unmatching =>
          have hno : matching rule = false := by simpa [hverdict] using hrule
          simp [scan, hverdict, hno, hrules, hevaluated, Selection.afterUnmatching]
      | matching =>
          have hyes : matching rule = true := by simpa [hverdict] using hrule
          simp [scan, hverdict, hyes, hmode, hrules, hevaluated, Selection.afterMatching,
            Selection.afterUnmatching]
      | failed input error =>
          have hno : matching rule = false := by simpa [hverdict] using hrule
          simp [scan, hverdict, hno, hlenient, hrules, hevaluated, Selection.afterFailed,
            Selection.afterUnmatching]

/-- The evaluation ends with the first matching rule, or finds none among all of them. -/
theorem scan_of_firstMatch (verdict : Rule → Verdict) (hlenient : strategy.stopOnError = false)
    (hmode : strategy.mode = .firstMatch) (rules : List Rule) :
    (∃ before rule after, rules = before ++ rule :: after ∧
      (∀ earlier ∈ before, verdict earlier ≠ .matching) ∧ verdict rule = .matching ∧
      (scan verdict strategy rules).rules = [rule] ∧
      (scan verdict strategy rules).evaluated = before.length + 1) ∨
    (∀ rule ∈ rules, verdict rule ≠ .matching) ∧ (scan verdict strategy rules).rules = [] ∧
      (scan verdict strategy rules).evaluated = rules.length := by
  induction rules with
  | nil => exact .inr ⟨by simp, rfl, rfl⟩
  | cons rule rest ih =>
      by_cases hrule : verdict rule = .matching
      · refine .inl ⟨[], rule, rest, rfl, by simp, hrule, ?_, ?_⟩ <;>
          simp [scan, hrule, hmode, Selection.afterMatching, Selection.afterUnmatching,
            Selection.none]
      · have hstep : (scan verdict strategy (rule :: rest)).rules =
              (scan verdict strategy rest).rules ∧
            (scan verdict strategy (rule :: rest)).evaluated =
              (scan verdict strategy rest).evaluated + 1 := by
          cases hverdict : verdict rule with
          | unmatching => simp [scan, hverdict, Selection.afterUnmatching]
          | matching => exact absurd hverdict hrule
          | failed input error =>
              simp [scan, hverdict, hlenient, Selection.afterFailed, Selection.afterUnmatching]
        rw [hstep.1, hstep.2]
        rcases ih with ⟨before, found, after, rfl, hbefore, hfound, hrules, hevaluated⟩ |
          ⟨hnone, hrules, hevaluated⟩
        · refine .inl ⟨rule :: before, found, after, rfl, ?_, hfound, hrules, ?_⟩
          · exact List.forall_mem_cons.mpr ⟨hrule, hbefore⟩
          · simp [hevaluated]
        · exact .inr ⟨List.forall_mem_cons.mpr ⟨hrule, hnone⟩, hrules, by simp [hevaluated]⟩

/-- The strongest rule has more conditions than those before it and no fewer than those after. -/
theorem strongest?_spec (rules : List Rule) :
    (∃ before best after, rules = before ++ best :: after ∧ strongest? rules = some best ∧
      (∀ rule ∈ before, rule.conditions.length < best.conditions.length) ∧
      ∀ rule ∈ after, rule.conditions.length ≤ best.conditions.length) ∨
    rules = [] ∧ strongest? rules = none := by
  induction rules with
  | nil => exact .inr ⟨rfl, rfl⟩
  | cons rule rest ih =>
      rcases ih with ⟨before, best, after, rfl, hbest, hbefore, hafter⟩ | ⟨rfl, hnone⟩
      · by_cases hless : rule.conditions.length < best.conditions.length
        · refine .inl ⟨rule :: before, best, after, rfl, ?_, ?_, hafter⟩
          · simp [strongest?, hbest, hless]
          · exact List.forall_mem_cons.mpr ⟨hless, hbefore⟩
        · refine .inl ⟨[], rule, before ++ best :: after, rfl, ?_, by simp, ?_⟩
          · simp [strongest?, hbest, hless]
          · intro other hother
            rcases List.mem_append.mp hother with hother | hother
            · have := hbefore other hother
              omega
            · rcases List.mem_cons.mp hother with rfl | hother
              · omega
              · have := hafter other hother
                omega
      · exact .inl ⟨[], rule, [], rfl, by simp [strongest?], by simp, by simp⟩

/-! ## Selected rules -/

theorem mem_of_mem_scan {rule : Rule} (hrule : rule ∈ (scan verdict strategy rules).rules) :
    rule ∈ rules := by
  induction rules with
  | nil => simp [scan, Selection.none] at hrule
  | cons head rest ih =>
      unfold scan at hrule
      split at hrule
      · exact List.mem_cons_of_mem _ (ih hrule)
      · split at hrule
        · simp_all [Selection.afterMatching, Selection.none]
        · rcases List.mem_cons.mp hrule with rfl | hrest
          · exact List.mem_cons_self
          · exact List.mem_cons_of_mem _ (ih hrest)
      · simp only at hrule
        split at hrule
        · simp [Selection.afterFailed, Selection.afterUnmatching, Selection.none] at hrule
        · exact List.mem_cons_of_mem _ (ih hrule)

theorem mem_of_strongest? {rule : Rule} (hstrongest : strongest? rules = some rule) :
    rule ∈ rules := by
  rcases strongest?_spec rules with ⟨before, best, after, rfl, hbest, -, -⟩ | ⟨-, hnone⟩
  · obtain rfl : best = rule := Option.some.inj (hbest.symm.trans hstrongest)
    simp
  · simp [hnone] at hstrongest

theorem mem_of_mem_select {table : Table} {extract : Input → Extracted} {rule : Rule}
    (hrule : rule ∈ (table.select extract).rules) : rule ∈ table.rules := by
  unfold select at hrule
  split at hrule
  · exact mem_of_mem_scan (mem_of_strongest? (Option.mem_toList.mp hrule))
  · exact mem_of_mem_scan hrule

end DecisionTables.Table
