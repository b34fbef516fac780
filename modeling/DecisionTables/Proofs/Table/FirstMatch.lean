import DecisionTables.Proofs.Table.Computation
import Mathlib

/-!
# The first match among all matches

An evaluation that ends with the first matching rule keeps the head of what an evaluation to the end
keeps.  Where every rule has a result for every output, the head decides every output under
priority, so both ways apply the same values to a row.  A row then leaves the same document for the
rows after it, and by induction a whole run does.
-/

namespace DecisionTables

/-- Two reports on a row to which the same was written, whichever rules were evaluated for it. -/
def RowReport.HasSameEffect (report other : RowReport) : Prop :=
  report.index = other.index ∧ report.pointer = other.pointer ∧
    report.written = other.written ∧ report.success = other.success

namespace Definition

/-- Every rule has a result for every output. -/
def IsComplete (definition : Definition) : Prop :=
  ∀ entry ∈ definition.rules, ∀ output ∈ definition.outputs,
    (entry.results.get? output.name).isSome

instance (definition : Definition) : Decidable definition.IsComplete :=
  inferInstanceAs (Decidable (∀ entry ∈ definition.rules, ∀ output ∈ definition.outputs,
    (entry.results.get? output.name).isSome))

/-- The definition under a strategy that ends the evaluation with the first matching rule. -/
def withFirstMatch (definition : Definition) : Definition :=
  { definition with strategy.mode := .firstMatch }

/-- The definition under a strategy that has the first of all matching rules decide each output. -/
def withPriority (definition : Definition) : Definition :=
  { definition with strategy.mode := .allMatches, strategy.conflict := .priority }

end Definition

namespace Table

variable {table : Table}

/-! ## What the first matching rule decides -/

theorem scan_firstMatch_eq_take {verdict : Rule → Verdict} {strategy other : Strategy}
    (hfirst : strategy.mode = .firstMatch) (hall : other.mode ≠ .firstMatch)
    (hlenient : strategy.stopOnError = false) (hotherLenient : other.stopOnError = false)
    (rules : List Rule) :
    (scan verdict strategy rules).rules = (scan verdict other rules).rules.take 1 := by
  induction rules with
  | nil => rfl
  | cons rule rest ih =>
      cases hverdict : verdict rule with
      | matching =>
          simp [scan, hverdict, hfirst, hall, Selection.afterMatching, Selection.afterUnmatching,
            Selection.none]
      | unmatching => simpa [scan, hverdict, Selection.afterUnmatching] using ih
      | failed input error =>
          simpa [scan, hverdict, hlenient, hotherLenient, Selection.afterFailed,
            Selection.afterUnmatching] using ih

theorem IsResolved.exists_resultFor? (hresolved : table.IsResolved)
    (hcomplete : table.definition.IsComplete) {rule : Rule} (hrule : rule ∈ table.rules)
    {output : Output} (houtput : output ∈ table.outputs) :
    ∃ result, rule.results.resultFor? output = some result := by
  obtain ⟨configured, hperm, hrealized, -⟩ := hresolved.rules_in_order
  obtain ⟨⟨entry, position⟩, hentry, hrealizes⟩ := exists_left_of_forall₂ hrealized hrule
  obtain ⟨field, hfield, hname, -⟩ := exists_left_of_forall₂ hresolved.outputs houtput
  have hconfigured : entry ∈ table.definition.rules :=
    List.fst_mem_of_mem_zipIdx (hperm.mem_iff.mp hentry)
  obtain ⟨value, hvalue⟩ := Option.isSome_iff_exists.mp (hcomplete entry hconfigured field hfield)
  rw [← hname] at hvalue
  obtain ⟨_, -, -, result, hresult⟩ :=
    hrealizes.results.entry_valid _ (Entries.mem_of_get? hvalue)
  have hread := ofJson_of_compileResultValue hresult
  have hfor := hrealizes.results.resultFor?_eq_some_iff output houtput result
  exact ⟨result, hfor.mpr ⟨value, hvalue, hread⟩⟩

theorem pick?_of_length_le_one {results : List ResultValue} (hlength : results.length ≤ 1)
    (policy other : ConflictPolicy) : policy.pick? results = other.pick? results := by
  match results, hlength with
  | [], _ => rfl
  | [only], _ => rfl

/-- Every policy makes the same of no more than one set of results. -/
theorem picks_of_length_le_one {outputs : List Output} {sets : List ResultSet}
    (hsets : sets.length ≤ 1) (policy other : ConflictPolicy) :
    picks outputs policy sets = picks outputs other sets := by
  refine List.filterMap_congr fun output _ => ?_
  have hresults : (sets.filterMap fun set => set.resultFor? output).length ≤ 1 :=
    (List.length_filterMap_le _ _).trans hsets
  rw [pick?_of_length_le_one hresults policy other]

def firstMatching (table : Table) : Table :=
  { table with definition := table.definition.withFirstMatch }

def allMatching (table : Table) : Table :=
  { table with definition := table.definition.withPriority }

/-- Where the head of the rules has a result for every output, no other rule counts. -/
theorem picksFor_take_one {rules : List Rule}
    (hdefines : ∀ rule ∈ rules, ∀ output ∈ table.outputs,
      ∃ result, rule.results.resultFor? output = some result) :
    table.firstMatching.picksFor (rules.take 1) = table.allMatching.picksFor rules := by
  cases rules with
  | nil =>
      apply picks_of_length_le_one
      cases hdefaults : table.defaults <;> simp [firstMatching, contributions, hdefaults]
  | cons rule rest =>
      refine List.filterMap_congr fun output houtput => ?_
      obtain ⟨result, hresult⟩ := hdefines rule List.mem_cons_self output houtput
      have hpriority : table.allMatching.strategy.conflict = .priority := rfl
      rw [hpriority, pick?_priority]
      simp [contributions, hresult, ConflictPolicy.pick?]

/-! ## Rows and runs -/

theorem select_firstMatching (hlenient : table.strategy.stopOnError = false)
    (extract : Input → Extracted) :
    (table.firstMatching.select extract).rules =
      (table.allMatching.select extract).rules.take 1 := by
  have hfirst : table.firstMatching.strategy.mode = .firstMatch := rfl
  have hall : table.allMatching.strategy.mode = .allMatches := rfl
  have hfirstLenient : table.firstMatching.strategy.stopOnError = false := hlenient
  have hallLenient : table.allMatching.strategy.stopOnError = false := hlenient
  have hkept : table.allMatching.strategy.mode ≠ .firstMatch := by simp [hall]
  rw [select_of_ne_bestMatch (by simp [hfirst]), select_of_ne_bestMatch (by simp [hall])]
  exact scan_firstMatch_eq_take hfirst hkept hfirstLenient hallLenient table.rules

theorem runRow_firstMatching (hresolved : table.IsResolved)
    (hlenient : table.strategy.stopOnError = false) (hcomplete : table.definition.IsComplete)
    (hfunctions : table.functions.IgnoresOccasions) (occasion other : Occasion) (index : Nat)
    (row : Location) (document : Json) :
    (table.firstMatching.runRow occasion index row document).document =
        (table.allMatching.runRow other index row document).document ∧
      (table.firstMatching.runRow occasion index row document).report.HasSameEffect
        (table.allMatching.runRow other index row document).report := by
  have hfirst : (table.firstMatching.select fun input =>
      input.extract document row).aborted = false := select_aborted hlenient
  have hall : (table.allMatching.select fun input =>
      input.extract document row).aborted = false := select_aborted hlenient
  have hdefines : ∀ rule ∈ (table.allMatching.select fun input =>
      input.extract document row).rules, ∀ output ∈ table.outputs,
        ∃ result, rule.results.resultFor? output = some result := by
    intro rule hselected output houtput
    have hrule : rule ∈ table.allMatching.rules := mem_of_mem_select hselected
    exact hresolved.exists_resultFor? hcomplete hrule houtput
  have happlied : table.firstMatching.applyPicks ⟨document, row, index :: occasion⟩
        (table.firstMatching.picksFor (table.firstMatching.select fun input =>
          input.extract document row).rules) =
      table.allMatching.applyPicks ⟨document, row, index :: other⟩
        (table.allMatching.picksFor (table.allMatching.select fun input =>
          input.extract document row).rules) := by
    rw [select_firstMatching hlenient, picksFor_take_one hdefines]
    apply applyPicks_of_settings
    · rfl
    · rfl
    · exact hfunctions
  rw [runRow_of_completed rfl hfirst, runRow_of_completed rfl hall]
  refine ⟨congrArg Written.document happlied, rfl, rfl, congrArg Written.outputs happlied, ?_⟩
  exact congrArg (fun written => written.notices.isEmpty) happlied

theorem runRows_firstMatching (hresolved : table.IsResolved)
    (hlenient : table.strategy.stopOnError = false) (hcomplete : table.definition.IsComplete)
    (hfunctions : table.functions.IgnoresOccasions) (occasion other : Occasion) (index : Nat)
    (rows : List Location) (document : Json) :
    (table.firstMatching.runRows occasion index rows document).document =
        (table.allMatching.runRows other index rows document).document ∧
      List.Forall₂ RowReport.HasSameEffect
        (table.firstMatching.runRows occasion index rows document).report.rows
        (table.allMatching.runRows other index rows document).report.rows := by
  induction rows generalizing index document with
  | nil => exact ⟨rfl, .nil⟩
  | cons row rest ih =>
      obtain ⟨hdocument, heffect⟩ := runRow_firstMatching hresolved hlenient hcomplete hfunctions
        occasion other index row document
      -- Both runs hand the same document to the rows still to come.
      have hlater := ih (index + 1) (table.allMatching.runRow other index row document).document
      rw [← hdocument] at hlater
      simp only [runRows, ← hdocument]
      exact ⟨hlater.1, .cons heffect hlater.2⟩

/--
Under either strategy the rules leave the same document and the same effect on every row, although
one of them stops at the first matching rule and the other evaluates them all.
-/
theorem execute_firstMatch_eq_allMatches {definition : Definition} {functions : Registry}
    {options : TableOptions} (haccepted : definition.compile functions options = .ok table)
    (hlenient : definition.strategy.stopOnError = false) (hcomplete : definition.IsComplete)
    (hfunctions : functions.IgnoresOccasions) :
    ∃ first all, definition.withFirstMatch.compile functions options = .ok first ∧
      definition.withPriority.compile functions options = .ok all ∧
      ∀ document occasion other,
        (first.execute document occasion).document = (all.execute document other).document ∧
          List.Forall₂ RowReport.HasSameEffect (first.execute document occasion).report.rows
            (all.execute document other).report.rows := by
  have hfirst := Definition.compile_withStrategy
    { definition.strategy with mode := .firstMatch } haccepted
  have hall := Definition.compile_withStrategy
    { definition.strategy with mode := .allMatches, conflict := .priority } haccepted
  obtain ⟨rfl, rfl, rfl, hresolved⟩ := Definition.compile_spec haccepted
  refine ⟨table.firstMatching, table.allMatching, hfirst, hall, ?_⟩
  intro document occasion other
  exact runRows_firstMatching hresolved hlenient hcomplete hfunctions occasion other 0 _ document

/-- Every parcel tells the next one its lane, and a large one is matched by several rules. -/
def lanes : Definition :=
  { path := "$.parcels[*]"
    inputs := [⟨"size", "@.size", some .string⟩, ⟨"last", "$.last", none⟩]
    outputs := [⟨"lane", "@.lane"⟩, ⟨"last", "$.last"⟩]
    rules :=
      [⟨2, .empty, .ofPairs [("lane", .string "any"), ("last", .string "none")]⟩,
        ⟨1, .ofPairs [("size", .string "large")],
          .ofPairs [("lane", .string "wide"),
            ("last", .string "#concat('after ', #valueof('@.size'))")]⟩,
        ⟨1, .ofPairs [("last", .string "after large")],
          .ofPairs [("lane", .string "#valueof('$.last')"), ("last", .string "again")]⟩]
    defaults := none
    strategy := ⟨.bestMatch, .merge, false⟩ }

def lanesDocument : Json :=
  .object [("parcels",
    .array [.object [("size", .string "large")], .object [], .bool true, .null])]

theorem execute_firstMatch_eq_allMatches_lanes :
    lanes.IsComplete ∧
      ∃ first all,
        lanes.withFirstMatch.compile .steady {} = .ok first ∧
          lanes.withPriority.compile .steady {} = .ok all ∧
          (first.execute lanesDocument).document = (all.execute lanesDocument [1]).document ∧
          List.Forall₂ RowReport.HasSameEffect (first.execute lanesDocument).report.rows
            (all.execute lanesDocument [1]).report.rows := by
  have hok : (lanes.compile .steady {}).isOk = true := by cbv
  obtain ⟨table, haccepted⟩ := Definition.exists_of_compile_isOk hok
  have hcomplete : lanes.IsComplete := of_decide_eq_true (by cbv)
  have hfunctions := Registry.ignoresOccasions_steady
  obtain ⟨first, all, hfirst, hall, hruns⟩ :=
    execute_firstMatch_eq_allMatches haccepted rfl hcomplete hfunctions
  exact ⟨hcomplete, first, all, hfirst, hall, hruns lanesDocument [] [1]⟩

end Table

end DecisionTables
