import DecisionTables.Proofs.Table.Frame
import DecisionTables.Proofs.Table.Selection
import Mathlib

/-!
# Stopping at a failed rule

A strict table gives a row up at the first failed rule that it evaluates, where a lenient one passes
over the rule.  Up to that rule both come to the same verdicts.  So a row that is not given up has
the same rules selected by either table, and the same is applied to it.

Which rows are given up is told by the definition alone.  A rule is failed when it tests an input
whose extraction failed, and it is evaluated unless the evaluation has ended before it, which only a
match brings about, and only in the mode that looks for the first one.
-/

namespace DecisionTables

open Table

/-- The definition under a strategy that stops at a failed rule, or that passes over it. -/
def Definition.withStopOnError (definition : Definition) (stop : Bool) : Definition :=
  { definition with strategy.stopOnError := stop }

/-- A condition names an input whose extraction failed. -/
def RuleEntry.Fails (entry : RuleEntry) (inputs : List Input) (extract : Input → Extracted) :
    Prop :=
  ∃ condition ∈ entry.conditions.entries, ∃ input ∈ inputs, input.name = condition.1 ∧
    ∃ error, extract input = .failed error

/-- A rule fails, and in the mode for the first match no rule that applies comes before it. -/
def Definition.MeetsFailure (definition : Definition) (extract : Input → Extracted)
    (options : CriteriaOptions) : Prop :=
  ∃ rule ∈ definition.rules.zipIdx,
    rule.1.Fails (definition.inputs.map Input.ofField) extract ∧
      (definition.strategy.mode = .firstMatch →
        ∀ earlier, definition.Applying extract options earlier → ¬ earlier.Precedes rule)

namespace Table

/-! ## Failed rules -/

section Verdicts

variable {inputs : List Input} {outputs : List Output} {functions : Registry}
  {extract : Input → Extracted} {options : CriteriaOptions}

theorem Rule.verdict_failed_iff {rule : Rule} :
    (∃ name error, rule.verdict extract options = .failed name error) ↔
      ∃ condition ∈ rule.conditions, ∃ error, extract condition.input = .failed error := by
  have hclean : rule.failure? extract = none ↔
      ¬ ∃ condition ∈ rule.conditions, ∃ error, extract condition.input = .failed error := by
    simp [Rule.failure?_eq_none_iff]
  unfold Rule.verdict
  cases hfailure : rule.failure? extract with
  | some failure =>
      have hfailed := not_iff_comm.mp hclean.symm
      simpa [hfailure] using hfailed
  | none =>
      have hnone := hclean.mp hfailure
      by_cases hsatisfied : rule.isSatisfied extract options <;> simp [hsatisfied, hnone]

/-- Under distinct names a rule is failed just where its entry tests a failed input. -/
theorem Rule.Realizes.verdict_failed_iff {configured : NumberedRule} {rule : Rule}
    (hnames : (inputs.map Input.name).Nodup)
    (hrule : rule.Realizes inputs outputs functions configured) :
    (∃ name error, rule.verdict extract options = .failed name error) ↔
      configured.1.Fails inputs extract := by
  rw [Rule.verdict_failed_iff]
  constructor
  · rintro ⟨condition, hcondition, hfailed⟩
    obtain ⟨entry, hentry, hinput, hname, -⟩ := exists_left_of_forall₂ hrule.conditions hcondition
    exact ⟨entry, hentry, condition.input, hinput, hname, hfailed⟩
  · rintro ⟨entry, hentry, input, hinput, hinputName, hfailed⟩
    obtain ⟨condition, hcondition, hmem, hname, -⟩ :=
      exists_right_of_forall₂ hrule.conditions hentry
    have hsame : input = condition.input :=
      List.inj_on_of_nodup_map hnames hinput hmem (hinputName.trans hname.symm)
    exact ⟨condition, hcondition, hsame ▸ hfailed⟩

end Verdicts

/-! ## Evaluations side by side -/

section Scans

variable {verdict : Rule → Verdict} {strict lenient : Strategy}

theorem scan_aborted_or_eq (hmode : strict.mode = lenient.mode)
    (hstrict : strict.stopOnError = true) (rules : List Rule) :
    (scan verdict strict rules).aborted = true ∨
      scan verdict strict rules = scan verdict lenient rules := by
  induction rules with
  | nil => exact .inr rfl
  | cons rule rest ih =>
      cases hverdict : verdict rule with
      | unmatching =>
          simp only [scan, hverdict]
          exact ih.imp id (congrArg Selection.afterUnmatching)
      | matching =>
          by_cases hfirst : lenient.mode = .firstMatch
          · right
            simp [scan, hverdict, hmode, hfirst]
          · simp only [scan, hverdict, hmode, hfirst, if_false]
            refine ih.imp id fun hsame => ?_
            rw [hsame]
      | failed name error =>
          left
          simp [scan, hverdict, hstrict]

/--
The evaluation is given up just where it reaches a failed rule.  What stands before a rule in the
list comes before it in the order of evaluation, so the rules need not be divided at it.
-/
theorem scan_aborted_iff {inputs : List Input} {outputs : List Output} {functions : Registry}
    {configured : List NumberedRule} {rules : List Rule} {fails applies : NumberedRule → Prop}
    (hstrict : strict.stopOnError = true)
    (hrealized : List.Forall₂ (Rule.Realizes inputs outputs functions) configured rules)
    (hordered : configured.Pairwise NumberedRule.Precedes)
    (hfailed : ∀ entry rule, rule.Realizes inputs outputs functions entry →
      ((∃ name error, verdict rule = .failed name error) ↔ fails entry))
    (hmatching : ∀ entry rule, rule.Realizes inputs outputs functions entry →
      (verdict rule = .matching ↔ applies entry)) :
    (scan verdict strict rules).aborted = true ↔
      ∃ entry ∈ configured, fails entry ∧
        (strict.mode = .firstMatch →
          ∀ earlier ∈ configured, applies earlier → ¬ earlier.Precedes entry) := by
  induction hrealized with
  | nil => simp [scan, Selection.none]
  | @cons entry rule configured rules hentry _ ih =>
      obtain ⟨hfirst, hordered⟩ := List.pairwise_cons.mp hordered
      have hlater := ih hordered
      have hfails := hfailed entry rule hentry
      have happlies := hmatching entry rule hentry
      cases hverdict : verdict rule with
      | unmatching =>
          have hstep : (scan verdict strict (rule :: rules)).aborted =
              (scan verdict strict rules).aborted := by
            simp [scan, hverdict, Selection.afterUnmatching]
          have hnoFail : ¬ fails entry := by simp [← hfails, hverdict]
          have hnoMatch : ¬ applies entry := by simp [← happlies, hverdict]
          rw [hstep, hlater]
          simp [hnoFail, hnoMatch]
      | matching =>
          have hnoFail : ¬ fails entry := by simp [← hfails, hverdict]
          by_cases hmode : strict.mode = .firstMatch
          · have hstep : (scan verdict strict (rule :: rules)).aborted = false := by
              simp [scan, hverdict, hmode, Selection.afterMatching, Selection.afterUnmatching,
                Selection.none]
            have hmatch : applies entry := happlies.mp hverdict
            rw [hstep]
            simp only [Bool.false_eq_true, false_iff]
            rintro ⟨failed, hmem, hfail, hbefore⟩
            rcases List.mem_cons.mp hmem with rfl | hmem
            · exact hnoFail hfail
            · exact hbefore hmode entry List.mem_cons_self hmatch (hfirst failed hmem)
          · have hstep : (scan verdict strict (rule :: rules)).aborted =
                (scan verdict strict rules).aborted := by
              simp [scan, hverdict, hmode, Selection.afterMatching, Selection.afterUnmatching]
            rw [hstep, hlater]
            simp [hnoFail, hmode]
      | failed name error =>
          have hstep : (scan verdict strict (rule :: rules)).aborted = true := by
            simp [scan, hverdict, hstrict]
          have hnoMatch : ¬ applies entry := by simp [← happlies, hverdict]
          rw [hstep]
          simp only [true_iff]
          refine ⟨entry, List.mem_cons_self, hfails.mp ⟨name, error, hverdict⟩, ?_⟩
          intro _ earlier hmem hearlier hprecedes
          rcases List.mem_cons.mp hmem with rfl | hmem
          · exact hnoMatch hearlier
          · exact hprecedes.not_symm (hfirst earlier hmem)

end Scans

/-! ## Rows -/

section Rows

variable {table : Table}

/-- The table under a strategy that stops at a failed rule, or that passes over it. -/
def stopping (table : Table) (stop : Bool) : Table :=
  { table with definition := table.definition.withStopOnError stop }

theorem select_aborted_eq_scan (table : Table) (extract : Input → Extracted) :
    (table.select extract).aborted =
      (scan (fun rule => rule.verdict extract table.options.criteria) table.strategy
        table.rules).aborted := by
  unfold select
  split <;> rfl

theorem select_stopping_aborted_or_eq (table : Table) (extract : Input → Extracted) :
    ((table.stopping true).select extract).aborted = true ∨
      (table.stopping true).select extract = (table.stopping false).select extract := by
  let verdict := fun rule => Rule.verdict rule extract table.options.criteria
  have hmode : (table.stopping true).strategy.mode = (table.stopping false).strategy.mode := rfl
  have hstrict : (table.stopping true).strategy.stopOnError = true := rfl
  rw [select_aborted_eq_scan]
  rcases scan_aborted_or_eq hmode hstrict table.rules with haborted | hsame
  · left
    exact haborted
  · right
    by_cases hbest : table.strategy.mode = .bestMatch
    · have hstopping : ∀ stop, (table.stopping stop).strategy.mode = .bestMatch := fun _ => hbest
      rw [select_of_bestMatch (hstopping true), select_of_bestMatch (hstopping false)]
      exact congrArg (fun kept : Selection =>
        { kept with rules := (strongest? kept.rules).toList }) hsame
    · have hstopping : ∀ stop, (table.stopping stop).strategy.mode ≠ .bestMatch := fun _ => hbest
      rw [select_of_ne_bestMatch (hstopping true), select_of_ne_bestMatch (hstopping false)]
      exact hsame

theorem IsResolved.select_stopping_aborted_iff (hresolved : table.IsResolved)
    (extract : Input → Extracted) :
    ((table.stopping true).select extract).aborted = true ↔
      table.definition.MeetsFailure extract table.options.criteria := by
  obtain ⟨configured, hperm, hrealized, hordered⟩ := hresolved.rules_in_order
  have hstrict : (table.stopping true).strategy.stopOnError = true := rfl
  have hmode : (table.stopping true).strategy.mode = table.definition.strategy.mode := rfl
  have hfailed : ∀ (entry : NumberedRule) (rule : Rule),
      rule.Realizes table.inputs table.outputs table.functions entry →
        ((∃ name error, rule.verdict extract table.options.criteria = .failed name error) ↔
          entry.1.Fails table.inputs extract) :=
    fun _ _ hrule => hrule.verdict_failed_iff hresolved.nodup_inputs
  have hmatching : ∀ (entry : NumberedRule) (rule : Rule),
      rule.Realizes table.inputs table.outputs table.functions entry →
        (rule.verdict extract table.options.criteria = .matching ↔
          entry.1.Applies table.inputs extract table.options.criteria) :=
    fun _ _ hrule =>
      Rule.verdict_eq_matching_iff.trans (hrule.matches_iff hresolved.nodup_inputs)
  have haborted := scan_aborted_iff hstrict hrealized hordered hfailed hmatching
  rw [select_aborted_eq_scan]
  refine haborted.trans ?_
  simp only [hmode, Definition.MeetsFailure, Definition.Applying, ← hresolved.inputs_eq,
    hperm.mem_iff, and_imp]

theorem runRow_stopping_of_aborted {row : Location} {document : Json}
    (haborted : ((table.stopping true).select fun input =>
      input.extract document row).aborted = true) (occasion : Occasion) (index : Nat) :
    let run := (table.stopping true).runRow occasion index row document
    run.report.outcome = .aborted ∧ run.report.success = false ∧ run.report.written = [] ∧
      run.document = document := by
  have hrun := runRow_of_aborted rfl haborted occasion index
  simp only [hrun, and_self]

theorem runRow_stopping_of_completed (hfunctions : table.functions.IgnoresOccasions)
    {row : Location} {document : Json}
    (hsame : ((table.stopping true).select fun input => input.extract document row) =
      (table.stopping false).select fun input => input.extract document row)
    (occasion other : Occasion) (index : Nat) :
    (table.stopping true).runRow occasion index row document =
      (table.stopping false).runRow other index row document := by
  have hcompleted : ((table.stopping false).select fun input =>
      input.extract document row).aborted = false := select_aborted rfl
  have happlied : ∀ picks,
      (table.stopping true).applyPicks ⟨document, row, index :: occasion⟩ picks =
        (table.stopping false).applyPicks ⟨document, row, index :: other⟩ picks := by
    apply applyPicks_of_settings
    · rfl
    · rfl
    · exact hfunctions
  rw [runRow_of_completed hsame hcompleted, runRow_of_completed rfl hcompleted, happlied]
  rfl

end Rows

/--
A strict table gives a row up and leaves the document as it is, or it does with the row just what
the lenient table does.  It gives the row up just where the definition meets a failure there.
-/
theorem runRow_aborts_or_agrees {definition : Definition} {functions : Registry}
    {options : TableOptions} {strict lenient : Table}
    (hstrict : (definition.withStopOnError true).compile functions options = .ok strict)
    (hlenient : (definition.withStopOnError false).compile functions options = .ok lenient)
    (hfunctions : functions.IgnoresOccasions) (document : Json) (row : Location) (index : Nat)
    (occasion other : Occasion) :
    let run := strict.runRow occasion index row document
    ((run.report.outcome = .aborted ∧ run.report.success = false ∧ run.report.written = [] ∧
        run.document = document) ∨
      run = lenient.runRow other index row document) ∧
    (run.report.outcome = .aborted ↔
      definition.MeetsFailure (fun input => input.extract document row) options.criteria) := by
  have hdefinition : { definition.withStopOnError true with strategy := definition.strategy } =
      definition := rfl
  have haccepted := Definition.compile_withStrategy definition.strategy hstrict
  rw [hdefinition] at haccepted
  generalize { strict with definition.strategy := definition.strategy } = table at haccepted
  have hstopping : ∀ stop, (definition.withStopOnError stop).compile functions options =
      .ok { table with definition.strategy := { definition.strategy with stopOnError := stop } } :=
    fun stop => Definition.compile_withStrategy _ haccepted
  obtain ⟨rfl, rfl, rfl, hresolved⟩ := Definition.compile_spec haccepted
  obtain rfl : table.stopping true = strict := Except.ok.inj ((hstopping true).symm.trans hstrict)
  obtain rfl : table.stopping false = lenient :=
    Except.ok.inj ((hstopping false).symm.trans hlenient)
  refine ⟨?_, ?_⟩
  · rcases table.select_stopping_aborted_or_eq fun input => input.extract document row with
      haborted | hsame
    · exact .inl (runRow_stopping_of_aborted haborted occasion index)
    · exact .inr (runRow_stopping_of_completed hfunctions hsame occasion other index)
  · rw [outcome_eq_aborted_iff]
    exact hresolved.select_stopping_aborted_iff fun input => input.extract document row

/-- The unit cannot be read of a scale that shows several, so its rule fails. -/
def scales : Definition :=
  { path := "$.scales[*]"
    inputs := [⟨"weight", "@.weight", none⟩, ⟨"unit", "@.units[*]", none⟩]
    outputs := [⟨"note", "@.note"⟩]
    rules :=
      [⟨2, .ofPairs [("unit", .string "kg")], .ofPairs [("note", .string "#concat('metric')")]⟩,
        ⟨1, .ofPairs [("weight", .string "none")], .ofPairs [("note", .string "idle")]⟩]
    defaults := none
    strategy := .standard }

def scalesDocument : Json :=
  let units := Json.array [.string "kg", .string "lb"]
  .object [("scales", .array [.object [("units", units), ("weight", .string "none")],
    .object [("units", units), ("weight", .string "some")]])]

/-- For the first scale a match comes before the failed rule, for the second one nothing does. -/
theorem runRow_aborts_or_agrees_scales :
    ∃ strict lenient,
      (scales.withStopOnError true).compile .steady {} = .ok strict ∧
        (scales.withStopOnError false).compile .steady {} = .ok lenient ∧
        strict.runRow [] 0 ⟨[.key "scales", .index 0]⟩ scalesDocument =
          lenient.runRow [1] 0 ⟨[.key "scales", .index 0]⟩ scalesDocument ∧
        (strict.runRow [] 1 ⟨[.key "scales", .index 1]⟩ scalesDocument).report.outcome =
          .aborted ∧
        scales.MeetsFailure
          (fun input => input.extract scalesDocument ⟨[.key "scales", .index 1]⟩) {} := by
  have hlenientOk : ((scales.withStopOnError false).compile
      .steady {}).isOk = true := by cbv
  obtain ⟨lenient, hlenient⟩ := Definition.exists_of_compile_isOk hlenientOk
  have hstrictOk : ((scales.withStopOnError true).compile
      .steady {}).isOk = true := by cbv
  obtain ⟨strict, hstrict⟩ := Definition.exists_of_compile_isOk hstrictOk
  have houtcomes : ((scales.withStopOnError true).compile
      .steady {}).toOption.map (fun table =>
        [0, 1].map fun index => (table.runRow [] index
          ⟨[.key "scales", .index index]⟩ scalesDocument).report.outcome) =
      some [.matched [1], .aborted] := by cbv
  simp only [hstrict, Except.toOption, Option.map_some, List.map_cons, List.map_nil,
    Option.some.injEq, List.cons.injEq, and_true] at houtcomes
  have hrows := runRow_aborts_or_agrees hstrict hlenient
    Registry.ignoresOccasions_steady scalesDocument
  refine ⟨strict, lenient, hstrict, hlenient, ?_, houtcomes.2, ?_⟩
  · apply (hrows ⟨[.key "scales", .index 0]⟩ 0 [] [1]).1.resolve_left
    simp [houtcomes.1]
  · exact (hrows ⟨[.key "scales", .index 1]⟩ 1 [] []).2.mp houtcomes.2

end Table

end DecisionTables
