import DecisionTables.Proofs.Json.Writing
import DecisionTables.Proofs.Table.Computation
import DecisionTables.Proofs.Table.Positions
import DecisionTables.Table.Execution

/-!
# Running the indexed form

The indexed form of a table runs like the table, except that inputs, rules, outputs and the items
of an array are looked up by their positions, and the run gives nothing as soon as one of these is
out of range.  For an accepted table this never happens: step by step, the indexed form finds what
the table itself has, so that its run is the run of the table.
-/

namespace DecisionTables

/-! ## The run by positions -/

/-- A write that looks up the item at an index. -/
def Json.writeAt? (value : Json) : List Step → Json → Option (Json × Option WriteFault)
  | [], _ => some (value, none)
  | .key name :: rest, node =>
    match node.membersForWriting? with
    | none => some (node, some (.notAnObject name node.kind))
    | some members => do
      let (child, fault) ← writeAt? value rest ((Entries.get? name members).getD null)
      return (object (Entries.set name child members), fault)
  | .index position :: rest, node =>
    if node.arrayLength + widestGap < position then some (node, some (.beyondEnd position))
    else
      match node.itemsForWriting? with
      | none => some (node, some (.notAnArray position node.kind))
      | some items => do
        let item ← (padTo position items)[position]?
        let (child, fault) ← writeAt? value rest item
        return (array ((padTo position items).set position child), fault)

def Path.writeAt? (path : Path) (row : Location) (value document : Json) :
    Option (Json × Option PathError) :=
  match path.target? row with
  | none => some (document, some (.unwritable path.source .wildcard))
  | some target => do
    let (written, fault) ← Json.writeAt? value target.steps document
    return (written, fault.map (.unwritable path.source))

namespace IndexedTable

open Table (Input Output Extracted Verdict Pick Written RowRun Execution)

/-- The verdict on conditions, where `satisfied` tells whether those before them hold. -/
def test? (inputs : List Input) (extracted : List Extracted) (options : CriteriaOptions)
    (satisfied : Bool) : List Condition → Option Verdict
  | [] => some (if satisfied then .matching else .unmatching)
  | condition :: rest => do
    match ← extracted[condition.input]? with
    | .failed error =>
      let input ← inputs[condition.input]?
      return .failed input.name error
    | value =>
      test? inputs extracted options
        (satisfied && condition.criteria.holds value.tested? options) rest

def Rule.verdict? (rule : Rule) (inputs : List Input) (extracted : List Extracted)
    (options : CriteriaOptions) : Option Verdict :=
  test? inputs extracted options true rule.conditions

/-- A matching rule by its position, with the number of its conditions. -/
structure Match where
  rule : Nat
  strength : Nat

structure Selection where
  found : List Match
  evaluated : Nat
  notices : List Notice
  /-- The position of the rule that the row is given up for. -/
  aborted : Option Nat

namespace Selection

def none : Selection :=
  ⟨[], 0, [], .none⟩

def afterUnmatching (rest : Selection) : Selection :=
  { rest with evaluated := rest.evaluated + 1 }

def afterMatching (rest : Selection) (found : Match) : Selection :=
  { rest.afterUnmatching with found := found :: rest.found }

def afterFailed (rest : Selection) (notice : Notice) : Selection :=
  { rest.afterUnmatching with notices := notice :: rest.notices }

end Selection

/-- Evaluates rules in their order, the first of which stands at the given position. -/
def scan? (verdict : Rule → Option Verdict) (strategy : Strategy) (position : Nat) :
    List Rule → Option Selection
  | [] => some .none
  | rule :: rest => do
    match ← verdict rule with
    | .unmatching => return (← scan? verdict strategy (position + 1) rest).afterUnmatching
    | .matching =>
      let found := ⟨position, rule.conditions.length⟩
      if strategy.mode = .firstMatch then return Selection.none.afterMatching found
      else return (← scan? verdict strategy (position + 1) rest).afterMatching found
    | .failed input error =>
      let notice := Notice.unreadableInput (rule.declaration + 1) input error
      if strategy.stopOnError then
        return { Selection.none.afterFailed notice with aborted := position }
      else return (← scan? verdict strategy (position + 1) rest).afterFailed notice

def strongest? : List Match → Option Match
  | [] => none
  | found :: rest =>
    match strongest? rest with
    | none => some found
    | some other => if found.strength < other.strength then some other else some found

def select? (table : IndexedTable) (extracted : List Extracted) : Option Selection := do
  let verdict := fun rule : Rule => rule.verdict? table.inputs extracted table.options.criteria
  let selection ← scan? verdict table.strategy 0 table.rules
  match table.strategy.mode with
  | .bestMatch => return { selection with found := (strongest? selection.found).toList }
  | _ => return selection

def contributions? (table : IndexedTable) (found : List Match) :
    Option (Outcome × List ResultSet) :=
  match found, table.defaults with
  | [], some defaults => some (.defaulted, [defaults])
  | [], none => some (.noMatch, [])
  | found, _ => do
    let rules ← found.mapM fun found => table.rules[found.rule]?
    return (.matched (rules.map Rule.declaration), rules.map Rule.results)

def ResultSet.resultFor? (results : ResultSet) (output : Nat) : Option ResultValue :=
  (results.find? fun result => result.1 = output).map Prod.snd

def picks (outputs : Nat) (policy : ConflictPolicy) (sets : List ResultSet) : List (Nat × Pick) :=
  (List.range outputs).filterMap fun output =>
    (policy.pick? (sets.filterMap fun set => ResultSet.resultFor? set output)).map fun pick =>
      (output, pick)

def computeAll? (table : IndexedTable) (context : Context) (position : Nat) :
    List (Nat × Pick) → Option (List (Nat × Json) × List Notice)
  | [] => some ([], [])
  | (output, pick) :: rest => do
    let (values, notices) ← computeAll? table context (position + 1) rest
    match pick.evaluate table.functions table.options.mergeDedup (context.within position) with
    | .ok value => return ((output, value) :: values, notices)
    | .error error =>
      let named ← table.outputs[output]?
      return (values, .uncomputedOutput named.name error :: notices)

def writeAll? (outputs : List Output) (row : Location) :
    List (Nat × Json) → Json → Option Written
  | [], document => some ⟨document, [], []⟩
  | (position, value) :: rest, document => do
    let output ← outputs[position]?
    match ← output.path.writeAt? row value document with
    | (document, none) =>
      let later ← writeAll? outputs row rest document
      return { later with outputs := output.name :: later.outputs }
    | (document, some error) =>
      let later ← writeAll? outputs row rest document
      return { later with notices := .unwrittenOutput output.name error :: later.notices }

def runRow? (table : IndexedTable) (occasion : Occasion) (index : Nat) (row : Location)
    (document : Json) : Option RowRun := do
  let extract := fun input => Input.extract input document row
  let warnings := Table.extractionNotices table.inputs extract
  let selection ← table.select? (table.inputs.map extract)
  match selection.aborted with
  | some position =>
    -- The rule is named in the log.
    let _ ← table.rules[position]?
    return {
      document
      report := ⟨index, row.pointer, .aborted, selection.evaluated, [], false⟩
      notices := warnings ++ selection.notices }
  | none =>
    let (outcome, sets) ← table.contributions? selection.found
    let picks := picks table.outputs.length table.strategy.conflict sets
    let (values, uncomputed) ← table.computeAll? ⟨document, row, index :: occasion⟩ 0 picks
    let written ← writeAll? table.outputs row values document
    let faults := uncomputed ++ written.notices
    return {
      document := written.document
      report :=
        ⟨index, row.pointer, outcome, selection.evaluated, written.outputs, faults.isEmpty⟩
      notices := warnings ++ selection.notices ++ faults }

def runRows? (table : IndexedTable) (occasion : Occasion) (index : Nat) :
    List Location → Json → Option Execution
  | [], document => some ⟨document, ⟨[], []⟩⟩
  | row :: rest, document => do
    let run ← table.runRow? occasion index row document
    let later ← runRows? table occasion (index + 1) rest run.document
    return {
      document := later.document
      report := {
        rows := run.report :: later.report.rows
        diagnostics :=
          run.notices.map (fun notice => ⟨index, notice⟩) ++ later.report.diagnostics } }

/-- Runs the table on a document, and gives nothing where a position is out of range. -/
def execute? (table : IndexedTable) (document : Json) (occasion : Occasion := []) :
    Option Execution :=
  table.runRows? occasion 0 (table.target.select document .root) document

end IndexedTable

/-! ## Writes -/

theorem Json.writeAt?_eq (value : Json) (steps : List Step) (document : Json) :
    Json.writeAt? value steps document = some (Json.write value steps document) := by
  induction steps generalizing document with
  | nil => rfl
  | cons step rest ih =>
      cases step with
      | key name =>
          cases hmembers : document.membersForWriting? <;> simp [writeAt?, write, hmembers, ih]
      | index position =>
          by_cases hbeyond : document.arrayLength + widestGap < position
          · simp [writeAt?, write, hbeyond]
          · cases hitems : document.itemsForWriting? <;>
              simp [writeAt?, write, hbeyond, hitems, ih, getElem?_padTo_self]

theorem Path.writeAt?_eq (path : Path) (row : Location) (value document : Json) :
    path.writeAt? row value document = some (path.write row value document) := by
  unfold writeAt? write
  cases path.target? row with
  | none => rfl
  | some target => simp [Json.writeAt?_eq]

namespace Table

variable {table : Table}

/-! ## Selection -/

theorem Input.getElem?_position {inputs : List Input} (hnames : (inputs.map Input.name).Nodup)
    {input : Input} (hinput : input ∈ inputs) : inputs[input.position inputs]? = some input :=
  getElem?_idxOf_name hnames hinput

theorem test?_indexed {inputs : List Input} (hnames : (inputs.map Input.name).Nodup)
    (extract : Input → Extracted) (options : CriteriaOptions) (satisfied : Bool) {rule : Rule}
    (hinputs : ∀ condition ∈ rule.conditions, condition.input ∈ inputs) :
    IndexedTable.test? inputs (inputs.map extract) options satisfied
        (rule.conditions.map (Condition.indexed inputs)) =
      some (match rule.failure? extract with
        | some (input, error) => .failed input error
        | none => if satisfied && rule.isSatisfied extract options then .matching
          else .unmatching) := by
  obtain ⟨declaration, priority, conditions, results⟩ := rule
  simp only [Rule.failure?, Rule.isSatisfied] at hinputs ⊢
  induction conditions generalizing satisfied with
  | nil => simp [IndexedTable.test?]
  | cons condition rest ih =>
      have hplace := Input.getElem?_position hnames (hinputs condition List.mem_cons_self)
      have hvalue : (inputs.map extract)[condition.input.position inputs]? =
          some (extract condition.input) := by
        rw [List.getElem?_map, hplace, Option.map_some]
      have hrest := fun satisfied => ih satisfied fun other hother =>
        hinputs other (List.mem_cons_of_mem _ hother)
      simp only [List.map_cons, Condition.indexed, IndexedTable.test?, hvalue,
        Option.bind_eq_bind, Option.bind_some]
      cases hextract : extract condition.input with
      | failed error => simp [hextract, hplace]
      | _ => simp [hextract, hrest, Bool.and_assoc]

/-- The rule at the position of the match, with so many conditions as the match is strong. -/
def Rule.IsFoundAs (rules : List Rule) (found : IndexedTable.Match) (rule : Rule) : Prop :=
  rules[found.rule]? = some rule ∧ found.strength = rule.conditions.length

/-- The selection by positions comes to the same, and finds the selected rules. -/
structure Selection.IsIndexedBy (selection : Selection) (rules : List Rule)
    (indexed : IndexedTable.Selection) : Prop where
  found : List.Forall₂ (Rule.IsFoundAs rules) indexed.found selection.rules
  evaluated_eq : indexed.evaluated = selection.evaluated
  notices_eq : indexed.notices = selection.notices
  aborted_eq : indexed.aborted.isSome = selection.aborted
  aborted_within : ∀ position ∈ indexed.aborted, position < rules.length

theorem scan?_indexed {inputs : List Input} {outputs : List Output} {verdict : Rule → Verdict}
    (lookup : IndexedTable.Rule → Option Verdict) (strategy : Strategy) (before : List Rule)
    {rules : List Rule}
    (hverdict : ∀ rule ∈ rules, lookup (rule.indexed inputs outputs) = some (verdict rule)) :
    ∃ indexed, IndexedTable.scan? lookup strategy before.length
        (rules.map (Rule.indexed inputs outputs)) = some indexed ∧
      (scan verdict strategy rules).IsIndexedBy (before ++ rules) indexed := by
  induction rules generalizing before with
  | nil => exact ⟨.none, rfl, .nil, rfl, rfl, rfl, by simp [IndexedTable.Selection.none]⟩
  | cons rule rest ih =>
      have hhead := hverdict rule List.mem_cons_self
      -- The rules of the rest stand one position further on in the same list.
      obtain ⟨later, hlater, hindexed⟩ := ih (before ++ [rule])
        fun other hother => hverdict other (List.mem_cons_of_mem _ hother)
      rw [List.append_assoc, List.singleton_append] at hindexed
      obtain ⟨hfound, hevaluated, hnotices, haborted, hwithin⟩ := hindexed
      have hplace : (before ++ rule :: rest)[before.length]? = some rule := by simp
      simp only [List.length_append, List.length_singleton] at hlater
      simp only [List.map_cons, IndexedTable.scan?, hhead, scan, hlater, Option.bind_eq_bind,
        Option.bind_some]
      cases verdict rule with
      | unmatching =>
          exact ⟨_, rfl, hfound, congrArg (· + 1) hevaluated, hnotices, haborted, hwithin⟩
      | matching =>
          have hmatch : Rule.IsFoundAs (before ++ rule :: rest)
              ⟨before.length, (rule.indexed inputs outputs).conditions.length⟩ rule :=
            ⟨hplace, by simp [Rule.indexed]⟩
          by_cases hfirst : strategy.mode = .firstMatch
          · simp only [hfirst, if_true]
            refine ⟨_, rfl, .cons hmatch .nil, rfl, rfl, rfl, fun position hposition => ?_⟩
            exact absurd hposition (Option.not_mem_none position)
          · simp only [hfirst, if_false]
            exact ⟨_, rfl, .cons hmatch hfound, congrArg (· + 1) hevaluated, hnotices, haborted,
              hwithin⟩
      | failed input error =>
          by_cases hstop : strategy.stopOnError
          · simp only [hstop, if_true]
            exact ⟨_, rfl, .nil, rfl, rfl, rfl, by simp⟩
          · simp only [hstop]
            exact ⟨_, rfl, hfound, congrArg (· + 1) hevaluated,
              congrArg (Notice.unreadableInput rule.number input error :: ·) hnotices, haborted,
              hwithin⟩

theorem strongest?_indexed {rules selected : List Rule} {found : List IndexedTable.Match}
    (hfound : List.Forall₂ (Rule.IsFoundAs rules) found selected) :
    Option.Rel (Rule.IsFoundAs rules) (IndexedTable.strongest? found) (strongest? selected) := by
  induction hfound with
  | nil => exact .none
  | @cons head rule found selected hhead _ ih =>
      simp only [IndexedTable.strongest?, strongest?]
      revert ih
      generalize IndexedTable.strongest? found = best, strongest? selected = bestRule
      intro ih
      cases ih with
      | none => exact .some hhead
      | @some other otherRule hother =>
          simp only [hhead.2, hother.2]
          by_cases hless : rule.conditions.length < otherRule.conditions.length
          · simp only [hless, if_true]
            exact .some hother
          · simp only [hless, if_false]
            exact .some hhead

theorem IsResolved.verdict?_indexed (hresolved : table.IsResolved) (extract : Input → Extracted)
    {rule : Rule} (hrule : rule ∈ table.rules) :
    (rule.indexed table.inputs table.outputs).verdict? table.inputs (table.inputs.map extract)
      table.options.criteria = some (rule.verdict extract table.options.criteria) :=
  test?_indexed hresolved.nodup_inputs extract _ true fun _ hcondition =>
    hresolved.input_mem hrule hcondition

theorem forall₂_toList {α β : Type} {R : α → β → Prop} {first : Option α} {second : Option β}
    (hrel : Option.Rel R first second) : List.Forall₂ R first.toList second.toList := by
  cases hrel with
  | none => exact .nil
  | some h => exact .cons h .nil

theorem IsResolved.select?_indexed (hresolved : table.IsResolved) (extract : Input → Extracted) :
    ∃ selection, table.indexed.select? (table.inputs.map extract) = some selection ∧
      (table.select extract).IsIndexedBy table.rules selection := by
  obtain ⟨selection, hscan, hindexed⟩ := scan?_indexed
    (fun rule => rule.verdict? table.inputs (table.inputs.map extract) table.options.criteria)
    table.strategy [] fun _ => hresolved.verdict?_indexed extract
  rw [List.length_nil] at hscan
  simp only [IndexedTable.select?, indexed, select, hscan, Option.bind_eq_bind, Option.bind_some]
  cases table.strategy.mode with
  | bestMatch =>
      exact ⟨_, rfl, forall₂_toList (strongest?_indexed hindexed.found),
        hindexed.evaluated_eq, hindexed.notices_eq, hindexed.aborted_eq,
        hindexed.aborted_within⟩
  | _ => exact ⟨selection, rfl, hindexed⟩

/-! ## Contributions -/

theorem mapM_eq_some_of_forall₂ {α β : Type} {find : α → Option β} {items : List α}
    {found : List β} (hfound : List.Forall₂ (fun item b => find item = some b) items found) :
    items.mapM find = some found := by
  induction hfound with
  | nil => rfl
  | cons hhead _ ih => simp [List.mapM_cons, hhead, ih]

theorem contributions?_indexed {found : List IndexedTable.Match} {rules : List Rule}
    (hfound : List.Forall₂ (Rule.IsFoundAs table.rules) found rules) :
    table.indexed.contributions? found =
      some ((table.contributions rules).1,
        (table.contributions rules).2.map (ResultSet.indexed table.outputs)) := by
  have hrules : found.mapM (fun found => table.indexed.rules[found.rule]?) =
      some (rules.map (Rule.indexed table.inputs table.outputs)) := by
    apply mapM_eq_some_of_forall₂
    refine List.forall₂_map_right_iff.mpr (hfound.imp fun found rule hrule => ?_)
    simp [indexed, hrule.1]
  cases hfound with
  | nil =>
      cases hdefaults : table.defaults <;>
        simp [IndexedTable.contributions?, contributions, indexed, hdefaults]
  | cons =>
      simp [IndexedTable.contributions?, contributions, hrules, Rule.indexed, Function.comp_def]

/-! ## Picks and values -/

variable {outputs : List Output}

theorem Output.getElem?_position (hnames : (outputs.map Output.name).Nodup) {output : Output}
    (houtput : output ∈ outputs) : outputs[output.position outputs]? = some output :=
  getElem?_idxOf_name hnames houtput

theorem Output.position_inj (hnames : (outputs.map Output.name).Nodup) {output other : Output}
    (houtput : output ∈ outputs) (hother : other ∈ outputs) :
    output.position outputs = other.position outputs ↔ output = other := by
  refine ⟨fun hposition => ?_, fun heq => heq ▸ rfl⟩
  have hsame := getElem?_position hnames houtput
  rw [hposition, getElem?_position hnames hother] at hsame
  exact (Option.some.inj hsame).symm

def ResultSet.IsWithin (outputs : List Output) (results : ResultSet) : Prop :=
  ∀ result ∈ results, result.1 ∈ outputs

theorem resultFor?_indexed (hnames : (outputs.map Output.name).Nodup) {results : ResultSet}
    (hresults : results.IsWithin outputs) {output : Output} (houtput : output ∈ outputs) :
    IndexedTable.ResultSet.resultFor? (results.indexed outputs) (output.position outputs) =
      results.resultFor? output := by
  induction results with
  | nil => rfl
  | cons head rest ih =>
      obtain ⟨hhead, hrest⟩ := List.forall_mem_cons.mp hresults
      have hsame := Output.position_inj hnames hhead houtput
      by_cases h : head.1 = output <;>
        simp_all [ResultSet.IsWithin, IndexedTable.ResultSet.resultFor?, ResultSet.resultFor?,
          ResultSet.indexed, Output.placed]

theorem picks_indexed (hnames : (outputs.map Output.name).Nodup) (policy : ConflictPolicy)
    {sets : List ResultSet} (hsets : ∀ results ∈ sets, results.IsWithin outputs) :
    IndexedTable.picks outputs.length policy (sets.map (ResultSet.indexed outputs)) =
      (picks outputs policy sets).map (Output.placed outputs) := by
  have hresults : ∀ output ∈ outputs,
      (sets.map (ResultSet.indexed outputs)).filterMap
          (fun set => IndexedTable.ResultSet.resultFor? set (output.position outputs)) =
        sets.filterMap fun set => set.resultFor? output := by
    intro output houtput
    rw [List.filterMap_map]
    exact List.filterMap_congr fun results hmem =>
      resultFor?_indexed hnames (hsets results hmem) houtput
  unfold IndexedTable.picks picks
  rw [← map_position_outputs hnames, List.filterMap_map, List.map_filterMap]
  refine List.filterMap_congr fun output houtput => ?_
  simp only [Function.comp_apply, hresults output houtput, Option.map_map]
  rfl

theorem computeAll?_indexed (hnames : (table.outputs.map Output.name).Nodup) (context : Context)
    (position : Nat) {picks : List (Output × Pick)}
    (hpicks : ∀ entry ∈ picks, entry.1 ∈ table.outputs) :
    table.indexed.computeAll? context position
        (picks.map (Output.placed table.outputs)) =
      some ((table.computeAll context position picks).1.map (Output.placed table.outputs),
        (table.computeAll context position picks).2) := by
  induction picks generalizing position with
  | nil => rfl
  | cons head rest ih =>
      obtain ⟨hhead, hrest⟩ := List.forall_mem_cons.mp hpicks
      have hnamed : table.outputs[head.1.position table.outputs]? = some head.1 :=
        Output.getElem?_position hnames hhead
      simp only [List.map_cons, Output.placed, IndexedTable.computeAll?, ih (position + 1) hrest,
        indexed_functions, indexed_options, computeAll]
      cases head.2.evaluate table.functions table.options.mergeDedup (context.within position) with
      | ok value => rfl
      | error error => simp [hnamed]

theorem writeAll?_indexed (hnames : (outputs.map Output.name).Nodup) (row : Location)
    (values : List (Output × Json)) (hvalues : ∀ entry ∈ values, entry.1 ∈ outputs)
    (document : Json) :
    IndexedTable.writeAll? outputs row (values.map (Output.placed outputs)) document =
      some (writeAll row values document) := by
  induction values generalizing document with
  | nil => rfl
  | cons head rest ih =>
      obtain ⟨hhead, hrest⟩ := List.forall_mem_cons.mp hvalues
      rcases hwrite : head.1.path.write row head.2 document with ⟨written, _ | fault⟩ <;>
        simp [IndexedTable.writeAll?, writeAll, Output.placed,
          Output.getElem?_position hnames hhead, Path.writeAt?_eq, hwrite, ih hrest]

/-! ## Runs -/

structure ResultsWithin (table : Table) : Prop where
  rules : ∀ rule ∈ table.rules, rule.results.IsWithin table.outputs
  defaults : ∀ results ∈ table.defaults, results.IsWithin table.outputs

theorem ResultsWithin.contributions (hwithin : table.ResultsWithin) {rules : List Rule}
    (hrules : ∀ rule ∈ rules, rule ∈ table.rules) {results : ResultSet}
    (hresults : results ∈ (table.contributions rules).2) : results.IsWithin table.outputs := by
  rcases mem_contributions hresults with ⟨rule, hrule, rfl⟩ | hdefaults
  · exact hwithin.rules rule (hrules rule hrule)
  · exact hwithin.defaults results hdefaults

/-- A row goes the same way by positions, none of which is out of range. -/
theorem runRow?_indexed (hresolved : table.IsResolved) (hwithin : table.ResultsWithin)
    (occasion : Occasion) (index : Nat) (row : Location) (document : Json) :
    table.indexed.runRow? occasion index row document =
      some (table.runRow occasion index row document) := by
  have hnames := hresolved.outputNames
  obtain ⟨selection, hselect, hfound, hevaluated, hnotices, haborted, hrule⟩ :=
    hresolved.select?_indexed fun input => input.extract document row
  have hcontributions := contributions?_indexed hfound
  simp only [IndexedTable.runRow?, runRow, Option.bind_eq_bind, indexed_inputs, indexed_outputs,
    indexed_strategy, hselect, Option.bind_some, hcontributions]
  cases hposition : selection.aborted with
  | some position =>
      have habort : (table.select fun input => input.extract document row).aborted = true := by
        rw [← haborted, hposition, Option.isSome_some]
      have hlookup : position < table.rules.length := hrule position hposition
      simp [habort, indexed, hlookup, hevaluated, hnotices]
  | none =>
      have habort : (table.select fun input => input.extract document row).aborted = false := by
        rw [← haborted, hposition, Option.isSome_none]
      generalize hcontributed : table.contributions
        (table.select fun input => input.extract document row).rules = contributed
      have hsets : ∀ results ∈ contributed.2, results.IsWithin table.outputs := by
        intro results hresults
        rw [← hcontributed] at hresults
        exact hwithin.contributions (fun _ => mem_of_mem_select) hresults
      have hpicks := picks_indexed hnames table.strategy.conflict hsets
      have hcomputed := computeAll?_indexed hnames ⟨document, row, index :: occasion⟩ 0
        fun entry (hentry : entry ∈ picks table.outputs table.strategy.conflict contributed.2) =>
          (mem_picks_spec hentry).1
      have hwritten := writeAll?_indexed hnames row
        (table.computeAll ⟨document, row, index :: occasion⟩ 0
          (picks table.outputs table.strategy.conflict contributed.2)).1
        (fun _ => mem_outputs_of_computeAll) document
      simp [habort, hpicks, hcomputed, hwritten, hevaluated, hnotices]

theorem runRows?_indexed (hresolved : table.IsResolved) (hwithin : table.ResultsWithin)
    (occasion : Occasion) (index : Nat) (rows : List Location) (document : Json) :
    table.indexed.runRows? occasion index rows document =
      some (table.runRows occasion index rows document) := by
  induction rows generalizing index document with
  | nil => rfl
  | cons row rest ih =>
      simp [IndexedTable.runRows?, runRows, runRow?_indexed hresolved hwithin, ih]

end Table

namespace Definition

variable {definition : Definition} {functions : Registry} {options : TableOptions}
  {table : Table}

/-- The run of an accepted table by positions is the run of the table. -/
theorem execute?_of_compile (haccepted : definition.compile functions options = .ok table)
    (document : Json) (occasion : Occasion) :
    table.indexed.execute? document occasion = some (table.execute document occasion) := by
  obtain ⟨-, -, -, hresolved⟩ := compile_spec haccepted
  obtain ⟨hrules, hdefaults⟩ := results_sublist_of_compile haccepted
  refine Table.runRows?_indexed hresolved ⟨?_, ?_⟩ occasion 0 _ document
  · exact fun rule hrule result hresult =>
      (hrules rule hrule).subset (List.mem_map_of_mem hresult)
  · exact fun results hresults result hresult =>
      (hdefaults results hresults).subset (List.mem_map_of_mem hresult)

end Definition

end DecisionTables
