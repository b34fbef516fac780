import DecisionTables.Proofs.Table.Accounting
import DecisionTables.Proofs.Table.IndexedRun
import DecisionTables.Proofs.Table.WellFormedness
import Mathlib

/-!
# Inputs that no rule tests

A definition may declare one more input, under a name of its own, at any place among its inputs.
Conditions find their inputs by name, so the rules compile to what they were, and the table has one
more input and nothing else.  An input that no rule tests has no part in the selection, whatever its
path selects and however its extraction fails.  All that a row tells of it is the warning that it is
null or missing, and by induction on the rows that is all that a run tells of it.
-/

namespace DecisionTables

/-- The definition with one more input at a position. -/
def Definition.withInput (definition : Definition) (position : Nat) (field : InputField) :
    Definition :=
  { definition with inputs := definition.inputs.insertIdx position field }

/-- What does not pass the filter may be put in anywhere before. -/
theorem filter_insertIdx {α : Type} {keep : α → Bool} {item : α} (hdropped : keep item = false)
    (position : Nat) (items : List α) :
    (items.insertIdx position item).filter keep = items.filter keep := by
  induction items generalizing position with
  | nil => cases position <;> simp [hdropped]
  | cons head rest ih =>
      cases position with
      | zero => simp [hdropped]
      | succ position => simp [List.filter_cons, ih]

namespace Table

def withInput (table : Table) (position : Nat) (field : InputField) : Table :=
  { table with
    definition := table.definition.withInput position field
    inputs := table.inputs.insertIdx position (.ofField field) }

/-! ## Compiling with one more input -/

theorem findInput?_insertIdx {inputs : List Input} {input : Input} {name : String}
    (hne : input.name ≠ name) (position : Nat) :
    findInput? (inputs.insertIdx position input) name = findInput? inputs name := by
  simp only [findInput?, ← List.head?_filter]
  rw [filter_insertIdx (by simpa using hne)]

/-- Only the inputs that are found for the conditions matter for a rule. -/
theorem compileRule_congr {inputs others : List Input} {entry : RuleEntry}
    (hsame : ∀ condition ∈ entry.conditions.entries,
      findInput? inputs condition.1 = findInput? others condition.1)
    (outputs : List Output) (functions : Registry) (declaration : Nat) :
    compileRule inputs outputs functions declaration entry =
      compileRule others outputs functions declaration entry := by
  have hconditions : entry.conditions.entries.map (compileCondition inputs (declaration + 1)) =
      entry.conditions.entries.map (compileCondition others (declaration + 1)) :=
    List.map_congr_left fun condition hcondition => by
      simp only [compileCondition, hsame condition hcondition]
  simp only [compileRule, hconditions]

end Table

namespace Definition

variable {definition : Definition} {functions : Registry} {options : TableOptions}
  {field : InputField} {position : Nat}

theorem WellFormed.withInput (hformed : definition.WellFormed functions)
    (hfresh : field.name ∉ definition.inputs.map InputField.name)
    (hposition : position ≤ definition.inputs.length) :
    (definition.withInput position field).WellFormed functions where
  target := hformed.target
  inputNames := by
    have hperm := (List.perm_insertIdx field definition.inputs hposition).map InputField.name
    exact hperm.nodup_iff.mpr (List.nodup_cons.mpr ⟨hfresh, hformed.inputNames⟩)
  outputNames := hformed.outputNames
  outputPaths := hformed.outputPaths
  rules rule hrule := by
    obtain ⟨hconditions, hresults⟩ := hformed.rules rule hrule
    have hdeclared := List.map_subset InputField.name
      (List.subset_insertIdx definition.inputs position field)
    exact ⟨fun condition hcondition => hdeclared (hconditions condition hcondition), hresults⟩
  defaults := hformed.defaults

/-- Without defects the compiled inputs are the declared ones. -/
theorem WellFormed.value_compileInputs (hformed : definition.WellFormed functions) :
    (Table.compileInputs [] definition.inputs).value =
      definition.inputs.map Table.Input.ofField :=
  (Table.compileInputs_spec (Table.compileInputs_defects_eq_nil_iff.mpr
    (areFresh_nil_left.mpr hformed.inputNames))).1

theorem WellFormed.value_compileInputs_withInput (hformed : definition.WellFormed functions)
    (hfresh : field.name ∉ definition.inputs.map InputField.name)
    (hposition : position ≤ definition.inputs.length) :
    (Table.compileInputs [] (definition.withInput position field).inputs).value =
      (Table.compileInputs [] definition.inputs).value.insertIdx position (.ofField field) := by
  rw [(hformed.withInput hfresh hposition).value_compileInputs, hformed.value_compileInputs,
    Definition.withInput, List.map_insertIdx]

/-- No condition is on the new input, so the rules compile to what they were. -/
theorem WellFormed.ruleAt_withInput (hformed : definition.WellFormed functions)
    (hfresh : field.name ∉ definition.inputs.map InputField.name)
    (hposition : position ≤ definition.inputs.length) {rule : NumberedRule}
    (hrule : rule ∈ definition.rules.zipIdx) :
    (definition.withInput position field).ruleAt functions rule =
      definition.ruleAt functions rule := by
  unfold ruleAt
  rw [hformed.value_compileInputs_withInput hfresh hposition]
  apply congrArg Reading.value
  apply Table.compileRule_congr
  intro condition hcondition
  apply Table.findInput?_insertIdx
  obtain ⟨hconditions, -⟩ := hformed.rules rule.1 (List.fst_mem_of_mem_zipIdx hrule)
  intro (hname : field.name = condition.1)
  exact hfresh (hname ▸ hconditions condition hcondition)

/-- One more input under a new name is accepted, and changes nothing else of the table. -/
theorem compile_withInput {table : Table}
    (haccepted : definition.compile functions options = .ok table)
    (hfresh : field.name ∉ definition.inputs.map InputField.name)
    (hposition : position ≤ definition.inputs.length) :
    (definition.withInput position field).compile functions options =
      .ok (table.withInput position field) := by
  obtain ⟨hformed, target, hread, rfl⟩ := compile_eq_ok_iff_wellFormed.mp haccepted
  refine compile_eq_ok_iff_wellFormed.mpr
    ⟨hformed.withInput hfresh hposition, target, hread, ?_⟩
  have hrules : ((definition.withInput position field).tableAt target functions options).rules =
      (definition.tableAt target functions options).rules := by
    rw [rules_tableAt, rules_tableAt]
    exact congrArg (List.mergeSort · Table.Rule.precedes)
      (List.map_congr_left fun _ => hformed.ruleAt_withInput hfresh hposition)
  have htable : (definition.withInput position field).tableAt target functions options =
      { definition.tableAt target functions options with
        definition := definition.withInput position field
        inputs := (Table.compileInputs [] (definition.withInput position field).inputs).value
        rules := ((definition.withInput position field).tableAt target functions options).rules } :=
    rfl
  rw [htable, hrules, hformed.value_compileInputs_withInput hfresh hposition]
  rfl

end Definition

/-! ## Running with one more input -/

/-- The report without the warnings that the input is null or missing. -/
def Report.withoutWarnings (name : String) (report : Report) : Report :=
  { report with
    diagnostics := report.diagnostics.filter fun diagnostic =>
      diagnostic.notice ≠ .nullInput name }

namespace Table

variable {table : Table} {field : InputField} {position : Nat}

def Execution.withoutWarnings (name : String) (execution : Execution) : Execution :=
  { execution with report := execution.report.withoutWarnings name }

def RowRun.withoutWarnings (name : String) (run : RowRun) : RowRun :=
  { run with notices := run.notices.filter fun notice => notice ≠ .nullInput name }

/-- Of the notices on inputs only those on the new one are new. -/
theorem extractionNotices_insertIdx {inputs : List Input} (input : Input)
    (hfresh : input.name ∉ inputs.map Input.name) (position : Nat)
    (extract : Input → Extracted) :
    (extractionNotices (inputs.insertIdx position input) extract).filter
        (fun notice => notice ≠ .nullInput input.name) =
      extractionNotices inputs extract := by
  have hothers : ∀ other ∈ inputs, other.name ≠ input.name :=
    fun other hother hname => hfresh (hname ▸ List.mem_map_of_mem hother)
  unfold extractionNotices
  rw [List.filter_map, List.filter_filter, filter_insertIdx (by simp)]
  congr 1
  refine List.filter_congr fun other hother => ?_
  simp [hothers other hother]

theorem ne_nullInput_of_select {extract : Input → Extracted} {notice : Notice}
    (hnotice : notice ∈ (table.select extract).notices) (name : String) :
    notice ≠ .nullInput name := by
  obtain ⟨rule, -, input, error, -, rfl⟩ := mem_select_notices hnotice
  simp

theorem ne_nullInput_of_applyPicks {context : Context} {picks : List (Output × Pick)}
    {notice : Notice} (hnotice : notice ∈ (table.applyPicks context picks).notices)
    (name : String) : notice ≠ .nullInput name := by
  rintro rfl
  exact failedOutput?_of_applyPicks hnotice rfl

/-- Only the warnings of the input tell that the table of a row has it. -/
theorem runRow_withInput (hfunctions : table.functions.IgnoresOccasions)
    (hfresh : field.name ∉ table.inputs.map Input.name) (position : Nat)
    (occasion otherOccasion : Occasion) (index : Nat) (row : Location) (document : Json) :
    ((table.withInput position field).runRow otherOccasion index row document).withoutWarnings
        field.name =
      table.runRow occasion index row document := by
  obtain ⟨selection, hselect⟩ :
      ∃ selection, (table.select fun input => input.extract document row) = selection := ⟨_, rfl⟩
  have hotherSelect : ((table.withInput position field).select fun input =>
      input.extract document row) = selection := hselect
  have hwarnings : (extractionNotices (table.withInput position field).inputs fun input =>
        input.extract document row).filter (fun notice => notice ≠ .nullInput field.name) =
      extractionNotices table.inputs fun input => input.extract document row :=
    extractionNotices_insertIdx (.ofField field) hfresh position _
  have hselected : selection.notices.filter (fun notice => notice ≠ .nullInput field.name) =
      selection.notices := by
    refine List.filter_eq_self.mpr fun notice hnotice => ?_
    simpa using ne_nullInput_of_select (hselect ▸ hnotice) field.name
  cases haborted : selection.aborted with
  | true =>
      rw [runRow_of_aborted hotherSelect haborted, runRow_of_aborted hselect haborted,
        RowRun.withoutWarnings, List.filter_append, hwarnings, hselected]
  | false =>
      let picked := table.picksFor selection.rules
      have happlied : (table.withInput position field).applyPicks
            ⟨document, row, index :: otherOccasion⟩ picked =
          table.applyPicks ⟨document, row, index :: occasion⟩ picked := by
        apply applyPicks_of_settings
        · rfl
        · rfl
        · exact hfunctions
      have hfaults : (table.applyPicks ⟨document, row, index :: occasion⟩ picked).notices.filter
            (fun notice => notice ≠ .nullInput field.name) =
          (table.applyPicks ⟨document, row, index :: occasion⟩ picked).notices := by
        refine List.filter_eq_self.mpr fun notice hnotice => ?_
        simpa using ne_nullInput_of_applyPicks hnotice field.name
      have hpicked : (table.withInput position field).picksFor selection.rules = picked := rfl
      have houtcome : (table.withInput position field).contributions selection.rules =
          table.contributions selection.rules := rfl
      rw [runRow_of_completed hotherSelect haborted, runRow_of_completed hselect haborted,
        hpicked, houtcome, happlied, RowRun.withoutWarnings, RowRun.completed, List.filter_append,
        List.filter_append, hwarnings, hselected, hfaults]
      rfl

theorem runRows_withInput (hfunctions : table.functions.IgnoresOccasions)
    (hfresh : field.name ∉ table.inputs.map Input.name) (position : Nat)
    (occasion otherOccasion : Occasion) (index : Nat) (rows : List Location) (document : Json) :
    ((table.withInput position field).runRows otherOccasion index rows document).withoutWarnings
        field.name =
      table.runRows occasion index rows document := by
  induction rows generalizing index document with
  | nil => rfl
  | cons row rest ih =>
      rw [runRows, runRows, ← runRow_withInput hfunctions hfresh position occasion otherOccasion,
        ← ih]
      simp only [Execution.withoutWarnings, Report.withoutWarnings, RowRun.withoutWarnings,
        List.filter_append, List.filter_map]
      rfl

/--
A further input that no rule tests is accepted at any place, and leaves every run as it was but for
the warnings that it is null or missing, also where inputs are looked up by their positions.
-/
theorem execute_withInput {definition : Definition} {functions : Registry}
    {options : TableOptions} (haccepted : definition.compile functions options = .ok table)
    (hfunctions : functions.IgnoresOccasions)
    (hfresh : field.name ∉ definition.inputs.map InputField.name)
    (hposition : position ≤ definition.inputs.length) :
    ∃ other, (definition.withInput position field).compile functions options = .ok other ∧
      ∀ document occasion otherOccasion,
        (other.execute document otherOccasion).withoutWarnings field.name =
            table.execute document occasion ∧
          (other.indexed.execute? document otherOccasion).map
              (Execution.withoutWarnings field.name) =
            table.indexed.execute? document occasion := by
  have hother := Definition.compile_withInput haccepted hfresh hposition
  refine ⟨_, hother, fun document occasion otherOccasion => ?_⟩
  have hruns : ((table.withInput position field).execute document otherOccasion).withoutWarnings
      field.name = table.execute document occasion := by
    obtain ⟨rfl, rfl, -, hresolved⟩ := Definition.compile_spec haccepted
    have hnames : table.inputs.map Input.name =
        table.definition.inputs.map InputField.name := by
      rw [hresolved.inputs_eq, List.map_map]
      rfl
    exact runRows_withInput hfunctions (hnames ▸ hfresh) position occasion otherOccasion 0 _
      document
  rw [Definition.execute?_of_compile hother, Definition.execute?_of_compile haccepted]
  exact ⟨hruns, congrArg some hruns⟩

/-- An input whose path is no path. -/
def sizeField : InputField :=
  ⟨"size", "shelves[", some .number⟩

/-- An input that is missing from every shelf. -/
def ownerField : InputField :=
  ⟨"owner", "@.owner", none⟩

theorem execute_withInput_shelves :
    (∃ other, (shelves.withInput 0 sizeField).compile .empty {} = .ok other ∧
      (other.execute shelvesDocument).withoutWarnings "size" =
        shelvesTable.execute shelvesDocument) ∧
    ∃ other, (shelves.withInput 1 ownerField).compile .empty {} = .ok other ∧
      (other.execute shelvesDocument).report.warnings.length = 4 ∧
      (other.execute shelvesDocument).withoutWarnings "owner" =
        shelvesTable.execute shelvesDocument := by
  have haccepted : shelves.compile .empty {} = .ok shelvesTable := by cbv
  have hsize : sizeField.name ∉ shelves.inputs.map InputField.name := by decide
  have howner : ownerField.name ∉ shelves.inputs.map InputField.name := by decide
  obtain ⟨sized, hsized, hsizedRuns⟩ :=
    execute_withInput haccepted Registry.ignoresOccasions_empty hsize (Nat.zero_le _)
  obtain ⟨owned, howned, hownedRuns⟩ :=
    execute_withInput haccepted Registry.ignoresOccasions_empty howner (Nat.le_refl 1)
  have htable : owned = shelvesTable.withInput 1 ownerField :=
    Except.ok.inj (howned.symm.trans
      (Definition.compile_withInput haccepted howner (Nat.le_refl 1)))
  refine ⟨⟨sized, hsized, (hsizedRuns shelvesDocument [] []).1⟩, owned, howned, ?_,
    (hownedRuns shelvesDocument [] []).1⟩
  rw [htable]
  cbv

end Table

end DecisionTables
