import DecisionTables.Table.Execution
import DecisionTables.Proofs.Table.Evaluation
import DecisionTables.Proofs.Table.Snapshot
import Mathlib

/-!
# What a row selects

The rules that apply to a row are told by the definition alone: none of their conditions names an
input whose extraction failed, and all of them hold.  Among these the mode chooses the first one in
the order of evaluation, all of them in that order, or the one with the most conditions.  An
accepted table selects just the rules chosen so, and gives the outputs of a single chosen rule the
values of that rule, which are then found where the outputs were written.
-/

namespace DecisionTables

open Table

/-- No condition names an input whose extraction failed, and all of them hold. -/
def RuleEntry.Applies (entry : RuleEntry) (inputs : List Input) (extract : Input → Extracted)
    (options : CriteriaOptions) : Prop :=
  ∀ condition ∈ entry.conditions.entries, ∃ input ∈ inputs, input.name = condition.1 ∧
    (∀ error, extract input ≠ .failed error) ∧
    (Criteria.ofJson condition.2).holds (extract input).tested? options = true

namespace NumberedRule

def conditionCount (rule : NumberedRule) : Nat :=
  rule.1.conditions.entries.length

/-- More conditions come first, and the order of evaluation decides between as many. -/
def Outranks (first second : NumberedRule) : Prop :=
  second.conditionCount < first.conditionCount ∨
    second.conditionCount = first.conditionCount ∧ first.Precedes second

/-- One of the given rules comes before all others of them. -/
def IsFirst (before : NumberedRule → NumberedRule → Prop) (given : NumberedRule → Prop)
    (rule : NumberedRule) : Prop :=
  given rule ∧ ∀ other, given other → other = rule ∨ before rule other

end NumberedRule

open NumberedRule in
/-- What a mode chooses among the applying ones of all rules, and how many it evaluates. -/
def MatchMode.Chooses (mode : MatchMode) (all : List NumberedRule)
    (applies : NumberedRule → Prop) (chosen : List NumberedRule) (evaluated : Nat) : Prop :=
  match mode with
  | firstMatch =>
    (∃ rule, IsFirst Precedes applies rule ∧ chosen = [rule] ∧
      evaluated = all.countP fun other => ¬ rule.Precedes other) ∨
    (∀ rule, ¬ applies rule) ∧ chosen = [] ∧ evaluated = all.length
  | allMatches =>
    chosen.Pairwise Precedes ∧ (∀ rule, rule ∈ chosen ↔ applies rule) ∧ evaluated = all.length
  | bestMatch =>
    ((∃ rule, IsFirst Outranks applies rule ∧ chosen = [rule]) ∨
      (∀ rule, ¬ applies rule) ∧ chosen = []) ∧ evaluated = all.length

theorem MatchMode.Chooses.eq_nil_iff {mode : MatchMode} {all chosen : List NumberedRule}
    {applies : NumberedRule → Prop} {evaluated : Nat}
    (hchooses : mode.Chooses all applies chosen evaluated) :
    chosen = [] ↔ ∀ rule, ¬ applies rule := by
  cases mode with
  | firstMatch =>
      rcases hchooses with ⟨rule, hfirst, rfl, -⟩ | ⟨hnone, rfl, -⟩
      · simpa using ⟨_, _, hfirst.1⟩
      · simpa using hnone
  | allMatches =>
      obtain ⟨-, hmem, -⟩ := hchooses
      simp only [List.eq_nil_iff_forall_not_mem, hmem]
  | bestMatch =>
      rcases hchooses.1 with ⟨rule, hfirst, rfl⟩ | ⟨hnone, rfl⟩
      · simpa using ⟨_, _, hfirst.1⟩
      · simpa using hnone

/-- The rules of a definition that apply to a row. -/
def Definition.Applying (definition : Definition) (extract : Input → Extracted)
    (options : CriteriaOptions) (rule : NumberedRule) : Prop :=
  rule ∈ definition.rules.zipIdx ∧
    rule.1.Applies (definition.inputs.map Input.ofField) extract options

/-- The values that a rule itself gives to outputs. -/
def RuleEntry.picks (entry : RuleEntry) (outputs : List Output) : List (Output × Pick) :=
  outputs.filterMap fun output =>
    match (entry.results.get? output.name).map ResultValue.ofJson with
    | some (.ok result) => some (output, .one result)
    | _ => none

theorem RuleEntry.exists_of_mem_picks {entry : RuleEntry} {outputs : List Output} {output : Output}
    {pick : Pick} (hpick : (output, pick) ∈ entry.picks outputs) :
    ∃ configured result, entry.results.get? output.name = some configured ∧
      ResultValue.ofJson configured = .ok result ∧ pick = .one result := by
  obtain ⟨other, -, hfound⟩ := List.mem_filterMap.mp hpick
  cases hconfigured : entry.results.get? other.name with
  | none => simp [hconfigured] at hfound
  | some configured =>
      cases hread : ResultValue.ofJson configured with
      | error error => simp [hconfigured, hread] at hfound
      | ok result =>
          simp only [hconfigured, Option.map_some, hread] at hfound
          cases hfound
          exact ⟨configured, result, hconfigured, hread, rfl⟩

namespace Table

variable {inputs : List Input} {outputs : List Output} {functions : Registry}
  {extract : Input → Extracted} {options : CriteriaOptions}

theorem Rule.Realizes.conditions_length {configured : NumberedRule} {rule : Rule}
    (hrule : rule.Realizes inputs outputs functions configured) :
    rule.conditions.length = configured.conditionCount :=
  hrule.conditions.length_eq.symm

/-- Under distinct names a rule matches just where its entry applies. -/
theorem Rule.Realizes.matches_iff {configured : NumberedRule} {rule : Rule}
    (hnames : (inputs.map Input.name).Nodup)
    (hrule : rule.Realizes inputs outputs functions configured) :
    rule.Matches extract options ↔ configured.1.Applies inputs extract options := by
  constructor
  · intro hmatches entry hentry
    obtain ⟨condition, hcondition, hinput, hname, hcriteria⟩ :=
      exists_right_of_forall₂ hrule.conditions hentry
    obtain ⟨hclean, hholds⟩ := hmatches condition hcondition
    exact ⟨condition.input, hinput, hname, hclean, hcriteria ▸ hholds⟩
  · intro happlies condition hcondition
    obtain ⟨entry, hentry, hinput, hname, hcriteria⟩ :=
      exists_left_of_forall₂ hrule.conditions hcondition
    obtain ⟨input, hmem, hinputName, hclean, hholds⟩ := happlies entry hentry
    obtain rfl : input = condition.input :=
      List.inj_on_of_nodup_map hnames hmem hinput (hinputName.trans hname.symm)
    exact ⟨hclean, hcriteria ▸ hholds⟩

theorem declarations_of_realized {configured : List NumberedRule} {rules : List Rule}
    (hrealized : List.Forall₂ (Rule.Realizes inputs outputs functions) configured rules) :
    rules.map Rule.declaration = configured.map Prod.snd := by
  induction hrealized with
  | nil => rfl
  | cons hhead _ ih => simp [hhead.declaration_eq, ih]

/-! ## The choice of every mode

The configured rules stand in the order of evaluation and are realized one by one by the rules that
are evaluated.  A division of the evaluated rules at one of them divides the configured ones at its
entry.
-/

theorem split_of_realized {configured : List NumberedRule} {before after : List Rule}
    {rule : Rule}
    (hrealized : List.Forall₂ (Rule.Realizes inputs outputs functions) configured
      (before ++ rule :: after)) :
    ∃ earlier entry later, configured = earlier ++ entry :: later ∧
      List.Forall₂ (Rule.Realizes inputs outputs functions) earlier before ∧
      rule.Realizes inputs outputs functions entry ∧
      List.Forall₂ (Rule.Realizes inputs outputs functions) later after := by
  induction before generalizing configured with
  | nil =>
      obtain ⟨entry, later, hentry, hlater, rfl⟩ := List.forall₂_cons_right_iff.mp hrealized
      exact ⟨[], entry, later, rfl, .nil, hentry, hlater⟩
  | cons head before ih =>
      obtain ⟨first, rest, hfirst, hrest, rfl⟩ := List.forall₂_cons_right_iff.mp hrealized
      obtain ⟨earlier, entry, later, rfl, hearlier, hentry, hlater⟩ := ih hrest
      exact ⟨first :: earlier, entry, later, rfl, .cons hfirst hearlier, hentry, hlater⟩

variable {configured all : List NumberedRule} {rules : List Rule} {strategy : Strategy}
  {verdict : Rule → Verdict} {applies : NumberedRule → Prop}

theorem chooses_firstMatch (hlenient : strategy.stopOnError = false)
    (hmode : strategy.mode = .firstMatch) (hperm : configured.Perm all)
    (hordered : configured.Pairwise NumberedRule.Precedes)
    (hrealized : List.Forall₂ (Rule.Realizes inputs outputs functions) configured rules)
    (hmatching : ∀ entry rule, rule.Realizes inputs outputs functions entry →
      (verdict rule = .matching ↔ applies entry)) :
    ∃ chosen, MatchMode.firstMatch.Chooses all (fun entry => entry ∈ all ∧ applies entry) chosen
        (scan verdict strategy rules).evaluated ∧
      List.Forall₂ (Rule.Realizes inputs outputs functions) chosen
        (scan verdict strategy rules).rules := by
  rcases scan_of_firstMatch verdict hlenient hmode rules with
    ⟨before, rule, after, rfl, hbefore, hrule, hrules, hevaluated⟩ |
    ⟨hnone, hrules, hevaluated⟩
  · obtain ⟨earlier, entry, later, rfl, hearlier, hentry, hlater⟩ := split_of_realized hrealized
    obtain ⟨-, hrest, hacross⟩ := List.pairwise_append.mp hordered
    have hafter := (List.pairwise_cons.mp hrest).1
    refine ⟨[entry], .inl ⟨entry, ⟨⟨?_, (hmatching entry rule hentry).mp hrule⟩, ?_⟩, rfl, ?_⟩, ?_⟩
    · exact hperm.mem_iff.mp (by simp)
    · rintro other ⟨hmem, happlies⟩
      rcases List.mem_append.mp (hperm.mem_iff.mpr hmem) with hother | hother
      · obtain ⟨otherRule, hotherRule, hotherRealizes⟩ :=
          exists_right_of_forall₂ hearlier hother
        exact absurd ((hmatching other otherRule hotherRealizes).mpr happlies)
          (hbefore otherRule hotherRule)
      · rcases List.mem_cons.mp hother with rfl | hother
        · exact .inl rfl
        · exact .inr (hafter other hother)
    -- Of all rules just the earlier ones and the entry itself do not come after the entry.
    · have hearlierCount : earlier.countP (fun other => ¬ entry.Precedes other) =
          earlier.length :=
        List.countP_eq_length.mpr fun other hother => by
          simpa using (hacross other hother entry List.mem_cons_self).not_symm
      have hlaterCount : later.countP (fun other => ¬ entry.Precedes other) = 0 :=
        List.countP_eq_zero.mpr fun other hother => by simpa using hafter other hother
      have hself : ¬ entry.Precedes entry := fun h => h.not_symm h
      rw [hevaluated, ← hperm.countP_eq, List.countP_append, hearlierCount,
        List.countP_cons_of_pos (by simpa using hself), hlaterCount, hearlier.length_eq]
    · rw [hrules]
      exact .cons hentry .nil
  · refine ⟨[], .inr ⟨?_, rfl, ?_⟩, by rw [hrules]; exact .nil⟩
    · rintro entry ⟨hmem, happlies⟩
      obtain ⟨rule, hrule, hrealizes⟩ :=
        exists_right_of_forall₂ hrealized (hperm.mem_iff.mpr hmem)
      exact hnone rule hrule ((hmatching entry rule hrealizes).mpr happlies)
    · rw [hevaluated, ← hrealized.length_eq, hperm.length_eq]

/-- In every other mode the matching rules are kept, which are just the applying ones in order. -/
theorem matching_of_realized (hlenient : strategy.stopOnError = false)
    (hmode : strategy.mode ≠ .firstMatch) (hperm : configured.Perm all)
    (hordered : configured.Pairwise NumberedRule.Precedes)
    (hrealized : List.Forall₂ (Rule.Realizes inputs outputs functions) configured rules)
    (hmatching : ∀ entry rule, rule.Realizes inputs outputs functions entry →
      (verdict rule = .matching ↔ applies entry)) :
    ∃ applying : List NumberedRule, applying.Pairwise NumberedRule.Precedes ∧
      (∀ entry, entry ∈ applying ↔ entry ∈ all ∧ applies entry) ∧
      (scan verdict strategy rules).evaluated = all.length ∧
      List.Forall₂ (Rule.Realizes inputs outputs functions) applying
        (scan verdict strategy rules).rules := by
  classical
  have hdecided : ∀ rule, decide (verdict rule = .matching) = true ↔ verdict rule = .matching :=
    fun _ => decide_eq_true_iff
  obtain ⟨hrules, hevaluated⟩ := scan_of_ne_firstMatch hlenient hmode hdecided rules
  refine ⟨configured.filter fun entry => decide (applies entry), hordered.filter _, ?_, ?_, ?_⟩
  · intro entry
    simp [hperm.mem_iff]
  · rw [hevaluated, ← hrealized.length_eq, hperm.length_eq]
  · rw [hrules]
    refine List.rel_filter ?_ hrealized
    intro entry rule hrealizes
    simpa using (hmatching entry rule hrealizes).symm

theorem chooses_best {applying : List NumberedRule}
    (hordered : applying.Pairwise NumberedRule.Precedes)
    (hrealized : List.Forall₂ (Rule.Realizes inputs outputs functions) applying rules) :
    ∃ chosen, List.Forall₂ (Rule.Realizes inputs outputs functions) chosen
        (strongest? rules).toList ∧
      ((∃ best, NumberedRule.IsFirst NumberedRule.Outranks (· ∈ applying) best ∧
          chosen = [best]) ∨ applying = [] ∧ chosen = []) := by
  rcases strongest?_spec rules with
    ⟨before, best, after, rfl, hbest, hbefore, hafter⟩ | ⟨rfl, hnone⟩
  · obtain ⟨earlier, entry, later, rfl, hearlier, hentry, hlater⟩ := split_of_realized hrealized
    have hrest := (List.pairwise_append.mp hordered).2.1
    have hprecedes := (List.pairwise_cons.mp hrest).1
    refine ⟨[entry], by simpa [hbest] using hentry, .inl ⟨entry, ⟨by simp, ?_⟩, rfl⟩⟩
    -- Only a later entry can have as many conditions, and then the order decides.
    intro other hmem
    rcases List.mem_append.mp hmem with hother | hother
    · obtain ⟨rule, hrule, hrealizes⟩ := exists_right_of_forall₂ hearlier hother
      have hless := hbefore rule hrule
      rw [hrealizes.conditions_length, hentry.conditions_length] at hless
      exact .inr (.inl hless)
    · rcases List.mem_cons.mp hother with rfl | hother
      · exact .inl rfl
      · obtain ⟨rule, hrule, hrealizes⟩ := exists_right_of_forall₂ hlater hother
        have hle := hafter rule hrule
        rw [hrealizes.conditions_length, hentry.conditions_length] at hle
        rcases Nat.lt_or_eq_of_le hle with hless | heq
        · exact .inr (.inl hless)
        · exact .inr (.inr ⟨heq, hprecedes other hother⟩)
  · cases hrealized
    exact ⟨[], by simp [hnone], .inr ⟨rfl, rfl⟩⟩

/-! ## What is selected, reported and applied -/

/-- The results of one rule alone are taken as they are under every policy. -/
theorem picks_of_realizes {configured : NumberedRule} {rule : Rule} (policy : ConflictPolicy)
    (hrule : rule.Realizes inputs outputs functions configured) :
    picks outputs policy [rule.results] = configured.1.picks outputs := by
  refine List.filterMap_congr fun output houtput => ?_
  have hresult := hrule.results.resultFor?_eq_some_iff output houtput
  cases hown : rule.results.resultFor? output with
  | none =>
      have hnone : ∀ value, configured.1.results.get? output.name = some value →
          ∀ result, ResultValue.ofJson value ≠ .ok result := by
        intro value hvalue result hread
        simp [(hresult result).mpr ⟨value, hvalue, hread⟩] at hown
      cases hvalue : configured.1.results.get? output.name with
      | none => simp [hown, ConflictPolicy.pick?]
      | some value =>
          cases hread : ResultValue.ofJson value with
          | error error => simp [hown, hread, ConflictPolicy.pick?]
          | ok result => exact absurd hread (hnone value hvalue result)
  | some result =>
      obtain ⟨value, hvalue, hread⟩ := (hresult result).mp hown
      simp [hown, hvalue, hread, ConflictPolicy.pick?]

/-- A lenient table keeps the rules that its mode chooses, each realized by one of its own. -/
theorem IsResolved.select_chooses {table : Table} (hresolved : table.IsResolved)
    (hlenient : table.definition.strategy.stopOnError = false) (extract : Input → Extracted) :
    ∃ chosen, table.definition.strategy.mode.Chooses table.definition.rules.zipIdx
        (table.definition.Applying extract table.options.criteria) chosen
        (table.select extract).evaluated ∧
      List.Forall₂ (Rule.Realizes table.inputs table.outputs table.functions) chosen
        (table.select extract).rules ∧
      (table.select extract).aborted = false := by
  obtain ⟨configured, hperm, hrealized, hordered⟩ := hresolved.rules_in_order
  have hmatching : ∀ (entry : NumberedRule) (rule : Rule),
      rule.Realizes table.inputs table.outputs table.functions entry →
        (rule.verdict extract table.options.criteria = .matching ↔
          entry.1.Applies (table.definition.inputs.map Input.ofField) extract
            table.options.criteria) := by
    intro entry rule hrealizes
    rw [Rule.verdict_eq_matching_iff, ← hresolved.inputs_eq]
    exact hrealizes.matches_iff hresolved.nodup_inputs
  cases hmode : table.definition.strategy.mode with
  | firstMatch =>
      rw [select_of_ne_bestMatch (by simp [strategy, hmode])]
      obtain ⟨chosen, hchooses, hchosen⟩ :=
        chooses_firstMatch hlenient hmode hperm hordered hrealized hmatching
      exact ⟨chosen, hchooses, hchosen, scan_aborted hlenient table.rules⟩
  | allMatches =>
      rw [select_of_ne_bestMatch (by simp [strategy, hmode])]
      obtain ⟨applying, hsorted, happlying, hevaluated, hkept⟩ :=
        matching_of_realized hlenient (by simp [hmode]) hperm hordered hrealized hmatching
      exact ⟨applying, ⟨hsorted, happlying, hevaluated⟩, hkept, scan_aborted hlenient table.rules⟩
  | bestMatch =>
      rw [select_of_bestMatch hmode]
      obtain ⟨applying, hsorted, happlying, hevaluated, hkept⟩ :=
        matching_of_realized hlenient (by simp [hmode]) hperm hordered hrealized hmatching
      obtain ⟨chosen, hchosen, hbest⟩ := chooses_best hsorted hkept
      have hgiven : (· ∈ applying) = table.definition.Applying extract table.options.criteria :=
        funext fun entry => propext (happlying entry)
      refine ⟨chosen, ⟨?_, hevaluated⟩, hchosen, scan_aborted hlenient table.rules⟩
      rcases hbest with ⟨best, hfirst, rfl⟩ | ⟨rfl, rfl⟩
      · exact .inl ⟨best, hgiven ▸ hfirst, rfl⟩
      · exact .inr ⟨fun rule happlies => by simpa using (happlying rule).mpr happlies, rfl⟩

/-- Where a row computes the results of one rule, a written output holds the value of that rule. -/
theorem IsResolved.written_of_rule {table : Table} (hresolved : table.IsResolved)
    {entry : RuleEntry} {occasion : Occasion} {index : Nat} {row : Location} {document : Json}
    (hvalues : table.valuesFor occasion index row document =
      (table.computeAll ⟨document, row, index :: occasion⟩ 0 (entry.picks table.outputs)).1)
    (hapart : HasTargetsApart row table.outputs) {output : Output}
    (houtput : output ∈ table.outputs)
    (hwritten : output.name ∈ (table.runRow occasion index row document).report.written) :
    ∃ configured result place value target,
      entry.results.get? output.name = some configured ∧
        ResultValue.ofJson configured = .ok result ∧
        result.evaluate table.functions ⟨document, row, place :: index :: occasion⟩ = .ok value ∧
        output.path.target? row = some target ∧
        output.path.selectNodes (table.runRow occasion index row document).document row =
          [(target, value)] := by
  obtain ⟨hdocument, htold⟩ := runRow_eq_writeAll table occasion index row document
  have hsublist := map_fst_valuesFor_sublist table occasion index row document
  rw [htold] at hwritten
  rw [hdocument]
  obtain ⟨found, hfound, hname, target, htarget, hheld⟩ :=
    exists_of_mem_outputs_writeAll (hapart.sublist hsublist) hwritten
  obtain rfl : found.1 = output :=
    List.inj_on_of_nodup_map hresolved.outputNames
      (hsublist.subset (List.mem_map_of_mem hfound)) houtput hname
  rw [hvalues] at hfound
  obtain ⟨pick, place, hpick, hvalue⟩ := exists_of_mem_computeAll hfound
  obtain ⟨configured, result, hconfigured, hread, rfl⟩ := RuleEntry.exists_of_mem_picks hpick
  refine ⟨configured, result, place, found.2, target, hconfigured, hread, hvalue, htarget, ?_⟩
  rw [Path.selectNodes_of_target? htarget, hheld]
  rfl

/-- What is selected and applied follows from the definition and the extracted inputs alone. -/
structure Selects (table : Table) (definition : Definition) (options : TableOptions)
    (extract : Input → Extracted) (chosen : List NumberedRule) : Prop where
  chooses : definition.strategy.mode.Chooses definition.rules.zipIdx
    (definition.Applying extract options.criteria) chosen (table.select extract).evaluated
  completed : (table.select extract).aborted = false
  contributors : (table.select extract).rules.map Rule.declaration = chosen.map Prod.snd
  matched : (∃ rule, definition.Applying extract options.criteria rule) →
    (table.contributions (table.select extract).rules).1 = .matched (chosen.map Prod.snd)
  unmatched : (∀ rule, ¬ definition.Applying extract options.criteria rule) →
    (table.contributions (table.select extract).rules).1 =
      if definition.defaults.isSome then .defaulted else .noMatch
  single : ∀ only, chosen = [only] → ∀ policy,
    picks table.outputs policy (table.contributions (table.select extract).rules).2 =
      only.1.picks table.outputs
  reported : ∀ occasion index row document,
    (∀ input ∈ table.inputs, input.extract document row = extract input) →
      (table.runRow occasion index row document).report.outcome =
          (table.contributions (table.select extract).rules).1 ∧
        (table.runRow occasion index row document).report.evaluated =
          (table.select extract).evaluated
  applied : ∀ only, chosen = [only] → ∀ occasion index row document,
    (∀ input ∈ table.inputs, input.extract document row = extract input) →
      (table.runRow occasion index row document).document =
        (writeAll row (table.computeAll ⟨document, row, index :: occasion⟩ 0
          (only.1.picks table.outputs)).1 document).document
  received : ∀ only, chosen = [only] → ∀ occasion index row document,
    (∀ input ∈ table.inputs, input.extract document row = extract input) →
      HasTargetsApart row table.outputs → ∀ output ∈ table.outputs,
        output.name ∈ (table.runRow occasion index row document).report.written →
          ∃ configured result place value target,
            only.1.results.get? output.name = some configured ∧
              ResultValue.ofJson configured = .ok result ∧
              result.evaluate table.functions ⟨document, row, place :: index :: occasion⟩ =
                .ok value ∧
              output.path.target? row = some target ∧
              output.path.selectNodes (table.runRow occasion index row document).document row =
                [(target, value)]

/-- Selection meets its specification in every mode, whatever was extracted. -/
theorem selects_of_compile {definition : Definition} {options : TableOptions} {table : Table}
    (haccepted : definition.compile functions options = .ok table)
    (hlenient : definition.strategy.stopOnError = false) (extract : Input → Extracted) :
    ∃ chosen, table.Selects definition options extract chosen := by
  obtain ⟨rfl, rfl, rfl, hresolved⟩ := Definition.compile_spec haccepted
  obtain ⟨chosen, hchooses, hrealized, hcompleted⟩ := hresolved.select_chooses hlenient extract
  have hdeclarations := declarations_of_realized hrealized
  have hsingle : ∀ only, chosen = [only] → ∀ policy,
      picks table.outputs policy (table.contributions (table.select extract).rules).2 =
        only.1.picks table.outputs := by
    rintro only rfl policy
    obtain ⟨rule, rest, hrule, hrest, hrules⟩ := List.forall₂_cons_left_iff.mp hrealized
    rw [hrules, List.forall₂_nil_left_iff.mp hrest]
    exact picks_of_realizes policy hrule
  have hselect : ∀ row document,
      (∀ input ∈ table.inputs, input.extract document row = extract input) →
        (table.select fun input => input.extract document row) = table.select extract :=
    fun _ _ hextract => hresolved.select_congr hextract
  refine ⟨chosen, ?_⟩
  constructor
  case chooses => exact hchooses
  case completed => exact hcompleted
  case contributors => exact hdeclarations
  case matched =>
    rintro ⟨rule, happlies⟩
    have hchosen : chosen ≠ [] := fun hnil => hchooses.eq_nil_iff.mp hnil rule happlies
    generalize (table.select extract).rules = rules at hrealized hdeclarations ⊢
    cases hrealized with
    | nil => exact absurd rfl hchosen
    | cons hhead htail => simp [contributions, ← hdeclarations]
  case unmatched =>
    intro hnone
    obtain rfl := hchooses.eq_nil_iff.mpr hnone
    rw [List.forall₂_nil_left_iff.mp hrealized]
    have hdefaults := hresolved.defaults
    cases hconfigured : table.definition.defaults <;> cases hcompiled : table.defaults <;>
      simp_all [contributions]
  case single => exact hsingle
  case reported =>
    intro occasion index row document hextract
    simp [runRow, hselect row document hextract, hcompleted]
  case applied =>
    intro only honly occasion index row document hextract
    simp [runRow, hselect row document hextract, hcompleted, hsingle only honly]
  case received =>
    intro only honly occasion index row document hextract hapart output houtput hwritten
    refine hresolved.written_of_rule ?_ hapart houtput hwritten
    simp [valuesFor, picksFor, hselect row document hextract, hcompleted, hsingle only honly]

/-- The rule with more conditions has the greater priority value, and one always applies. -/
def labels : Definition :=
  { path := "$.parcels[*]"
    inputs := [⟨"size", "@.size", none⟩, ⟨"color", "@.color", none⟩]
    outputs := [⟨"label", "@.label"⟩]
    rules :=
      [⟨5, .ofPairs [("size", .string "large")], .ofPairs [("label", .string "big")]⟩,
        ⟨-1, .empty, .ofPairs [("label", .string "any")]⟩]
    defaults := none
    strategy := ⟨.bestMatch, .merge, false⟩ }

def labelsTable : Table :=
  labels.tableAt ⟨labels.path, .document, [.key "parcels", .wildcard]⟩ .empty {}

/-- A single parcel with the given members. -/
def parcelDocument (members : List (String × Json)) : Json :=
  .object [("parcels", .array [.object members])]

def largeParcel : Json :=
  parcelDocument [("color", .string "large"), ("size", .string "large")]

def parcelRow : Location :=
  ⟨[.key "parcels", .index 0]⟩

/-- Both rules apply where all inputs are large, and the first one has more conditions. -/
theorem selects_of_labels :
    labels.compile .empty {} = .ok labelsTable ∧ labels.strategy.stopOnError = false ∧
      labelsTable.Selects labels {} (fun _ => .value (.string "large")) [(labels.rules[0], 0)] ∧
      (labelsTable.contributions (labelsTable.select fun _ => .value (.string "large")).rules).1 =
        .matched [0] ∧
      (labelsTable.runRow [] 0 parcelRow largeParcel).document =
        parcelDocument [("color", .string "large"), ("label", .string "big"),
          ("size", .string "large")] := by
  have haccepted : labels.compile .empty {} = .ok labelsTable := by cbv
  obtain ⟨chosen, hselects⟩ :=
    selects_of_compile haccepted rfl fun _ => .value (.string "large")
  have hpositions : chosen.map Prod.snd = [0] := by
    rw [← hselects.contributors]
    cbv
  obtain ⟨rule, rest, rfl, hzero, hrest⟩ := List.map_eq_cons_iff.mp hpositions
  obtain rfl := List.map_eq_nil_iff.mp hrest
  have happlies : labels.Applying (fun _ => .value (.string "large")) {} rule := by
    rcases hselects.chooses.1 with ⟨best, hfirst, heq⟩ | ⟨-, hnone⟩
    · exact List.singleton_inj.mp heq ▸ hfirst.1
    · simp at hnone
  obtain rfl : rule = (labels.rules[0], 0) := by
    obtain ⟨entry, position⟩ := rule
    obtain rfl : position = 0 := hzero
    have hentry := List.mk_mem_zipIdx_iff_getElem?.mp happlies.1
    exact Prod.ext (Option.some.inj hentry).symm rfl
  have hmatched := hselects.matched ⟨_, happlies⟩
  have hextracts :
      labelsTable.inputs.map (fun input => input.extract largeParcel parcelRow) =
        [.value (.string "large"), .value (.string "large")] := by cbv
  refine ⟨haccepted, rfl, hselects, hmatched, ?_⟩
  rw [hselects.applied _ rfl [] 0 parcelRow]
  · cbv
  · intro input hinput
    have hmem : input.extract largeParcel parcelRow ∈
        labelsTable.inputs.map fun input => input.extract largeParcel parcelRow :=
      List.mem_map_of_mem hinput
    simpa [hextracts] using hmem

end Table

end DecisionTables
