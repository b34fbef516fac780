import DecisionTables.Proofs.Call.Validity
import DecisionTables.Proofs.Table.Acceptance
import Mathlib

/-!
# Well-formed definitions

A definition is well formed when its target and its outputs have usable paths, its names are not
repeated, its rules and defaults refer to what is declared, and their results are fixed values or
valid calls.  Each pass of the compiler finds no defect just where its own part of this holds, so
the definitions that are accepted are the well-formed ones, and any other is refused with defects.
Paths of inputs, the contents of criteria and the options are no part of it.
-/

namespace DecisionTables

/-- Every result is for one of the named outputs, and is a fixed value or a valid call. -/
def WellFormedResults (outputNames : List String) (functions : Registry)
    (results : KeyMap Json) : Prop :=
  ∀ entry ∈ results.entries, entry.1 ∈ outputNames ∧
    ∃ result, ResultValue.ofJson entry.2 = .ok result ∧ result.IsValid functions

/-- Every condition is on one of the named inputs, and the results are well formed. -/
def WellFormedRule (inputNames outputNames : List String) (functions : Registry)
    (rule : RuleEntry) : Prop :=
  (∀ condition ∈ rule.conditions.entries, condition.1 ∈ inputNames) ∧
    WellFormedResults outputNames functions rule.results

structure Definition.WellFormed (definition : Definition) (functions : Registry) : Prop where
  target : ∃ path, Path.read definition.path = .ok path
  inputNames : (definition.inputs.map InputField.name).Nodup
  outputNames : (definition.outputs.map OutputField.name).Nodup
  outputPaths : ∀ output ∈ definition.outputs,
    ∃ path, Path.read output.path = .ok path ∧ path.hasWildcard = false
  rules : ∀ rule ∈ definition.rules,
    WellFormedRule (definition.inputs.map InputField.name)
      (definition.outputs.map OutputField.name) functions rule
  defaults : ∀ defaults, definition.defaults = some defaults →
    WellFormedResults (definition.outputs.map OutputField.name) functions defaults

/-- The names differ from one another and from those that were seen before. -/
def AreFresh (seen names : List String) : Prop :=
  names.Nodup ∧ ∀ name ∈ names, name ∉ seen

theorem areFresh_nil_left {names : List String} : AreFresh [] names ↔ names.Nodup := by
  simp [AreFresh]

theorem areFresh_cons {seen rest : List String} {name : String} :
    AreFresh seen (name :: rest) ↔ name ∉ seen ∧ AreFresh (name :: seen) rest := by
  simp only [AreFresh, List.nodup_cons, List.forall_mem_cons]
  simp only [List.mem_cons, not_or]
  constructor
  · rintro ⟨⟨hhead, hnodup⟩, hname, hrest⟩
    refine ⟨hname, hnodup, fun other hother => ⟨?_, hrest other hother⟩⟩
    rintro rfl
    exact hhead hother
  · rintro ⟨hname, hnodup, hrest⟩
    exact ⟨⟨fun hmem => (hrest name hmem).1 rfl, hnodup⟩, hname,
      fun other hother => (hrest other hother).2⟩

/-! ## Defects of every pass -/

namespace Table

variable {inputs : List Input} {outputs : List Output} {functions : Registry} {place : Place}
  {seen : List String}

theorem compilePath_defects_eq_nil_iff {source : String} :
    (compilePath place source).defects = [] ↔ ∃ path, Path.read source = .ok path := by
  unfold compilePath
  cases Path.read source <;> simp

theorem compileInputs_defects_eq_nil_iff {fields : List InputField} :
    (compileInputs seen fields).defects = [] ↔ AreFresh seen (fields.map InputField.name) := by
  induction fields generalizing seen with
  | nil => simp [compileInputs, AreFresh]
  | cons field rest ih =>
      by_cases hseen : field.name ∈ seen
      · simp [compileInputs, hseen, areFresh_cons]
      · simp [compileInputs, hseen, areFresh_cons, ih]

theorem compileOutput_defects_eq_nil_iff {field : OutputField} :
    (compileOutput field).defects = [] ↔
      ∃ path, Path.read field.path = .ok path ∧ path.hasWildcard = false := by
  unfold compileOutput compilePath
  cases Path.read field.path with
  | error fault => simp
  | ok path => cases hwildcard : path.hasWildcard <;> simp [hwildcard]

theorem compileOutputs_defects_eq_nil_iff {fields : List OutputField} :
    (compileOutputs seen fields).defects = [] ↔
      AreFresh seen (fields.map OutputField.name) ∧
        ∀ field ∈ fields, ∃ path, Path.read field.path = .ok path ∧ path.hasWildcard = false := by
  induction fields generalizing seen with
  | nil => simp [compileOutputs, AreFresh]
  | cons field rest ih =>
      by_cases hseen : field.name ∈ seen
      · simp [compileOutputs, hseen, areFresh_cons]
      · simp only [compileOutputs, hseen, if_false, Reading.defects_bind, Reading.defects_pure,
          List.append_nil, List.append_eq_nil_iff, compileOutput_defects_eq_nil_iff, ih,
          List.map_cons, areFresh_cons, List.forall_mem_cons, not_false_eq_true, true_and]
        exact and_left_comm

theorem defects_compileCondition {ruleNumber : Nat} {entry : String × Json} :
    (compileCondition inputs ruleNumber entry).defects =
      if entry.1 ∈ inputs.map Input.name then [] else [.undefinedInput ruleNumber entry.1] := by
  unfold compileCondition
  cases hfind : findInput? inputs entry.1 with
  | none =>
      have hnone : entry.1 ∉ inputs.map Input.name := by simpa [findInput?] using hfind
      rw [if_neg hnone]
      rfl
  | some input =>
      have hname : input.name = entry.1 := by simpa using List.find?_some hfind
      rw [if_pos (List.mem_map.mpr ⟨input, List.mem_of_find?_eq_some hfind, hname⟩)]
      rfl

theorem compileCondition_defects_eq_nil_iff {ruleNumber : Nat} {entry : String × Json} :
    (compileCondition inputs ruleNumber entry).defects = [] ↔
      entry.1 ∈ inputs.map Input.name := by
  rw [defects_compileCondition]
  split_ifs with hnamed <;> simpa using hnamed

theorem compileResultValue_eq_ok_iff {value : Json} {result : ResultValue} :
    compileResultValue functions value = .ok result ↔
      ResultValue.ofJson value = .ok result ∧ result.IsValid functions := by
  unfold compileResultValue
  cases ResultValue.ofJson value with
  | error error => simp
  | ok read =>
      cases read with
      | fixed fixedValue =>
          simp only [Except.ok.injEq, iff_self_and]
          rintro rfl
          simp [ResultValue.IsValid, ResultValue.call?]
      | computed source c =>
          simp only
          cases hvalid : c.validate functions with
          | error error =>
              simp only [reduceCtorEq, Except.ok.injEq, false_iff, not_and]
              rintro rfl hcall
              simp [hcall c rfl] at hvalid
          | ok done =>
              simp only [Except.ok.injEq, iff_self_and]
              rintro rfl
              simpa [ResultValue.IsValid, ResultValue.call?] using hvalid

/-- A result for an output that is there can only be wrong in itself. -/
theorem defects_compileResult {entry : String × Json} :
    (compileResult place outputs functions entry).defects =
      if entry.1 ∈ outputs.map Output.name then
        match compileResultValue functions entry.2 with
        | .error fault => [.invalidResult place entry.1 fault]
        | .ok _ => []
      else [.undefinedOutput place entry.1] := by
  unfold compileResult
  cases hfind : findOutput? outputs entry.1 with
  | none =>
      have hnone : entry.1 ∉ outputs.map Output.name := by simpa [findOutput?] using hfind
      rw [if_neg hnone]
      rfl
  | some output =>
      obtain ⟨hmem, hname⟩ := name_of_findOutput? hfind
      rw [if_pos (List.mem_map.mpr ⟨output, hmem, hname⟩)]
      cases compileResultValue functions entry.2 <;> rfl

theorem compileResult_defects_eq_nil_iff {entry : String × Json} :
    (compileResult place outputs functions entry).defects = [] ↔
      entry.1 ∈ outputs.map Output.name ∧
        ∃ result, ResultValue.ofJson entry.2 = .ok result ∧ result.IsValid functions := by
  simp only [← compileResultValue_eq_ok_iff]
  rw [defects_compileResult]
  split_ifs with hnamed
  · cases compileResultValue functions entry.2 <;> simp [hnamed]
  · simp [hnamed]

theorem compileResults_defects_eq_nil_iff {results : KeyMap Json} :
    (compileResults place outputs functions results).defects = [] ↔
      WellFormedResults (outputs.map Output.name) functions results := by
  simp only [compileResults, WellFormedResults, Reading.defects_bind, Reading.defects_pure,
    Reading.defects_all, List.append_nil, List.flatMap_eq_nil_iff, List.forall_mem_map,
    compileResult_defects_eq_nil_iff]

theorem compileRule_defects_eq_nil_iff {declaration : Nat} {entry : RuleEntry} :
    (compileRule inputs outputs functions declaration entry).defects = [] ↔
      WellFormedRule (inputs.map Input.name) (outputs.map Output.name) functions entry := by
  simp only [compileRule, WellFormedRule, Reading.defects_bind, Reading.defects_pure,
    Reading.defects_all, List.append_nil, List.append_eq_nil_iff, List.flatMap_eq_nil_iff,
    List.forall_mem_map, compileCondition_defects_eq_nil_iff, compileResults_defects_eq_nil_iff]

theorem compileDefaults_defects_eq_nil_iff {defaults : Option (KeyMap Json)} :
    (compileDefaults outputs functions defaults).defects = [] ↔
      ∀ results, defaults = some results →
        WellFormedResults (outputs.map Output.name) functions results := by
  cases defaults with
  | none => simp [compileDefaults]
  | some results =>
      simp [compileDefaults, compileResults_defects_eq_nil_iff]

end Table

/-! ## Acceptance -/

namespace Definition

variable {definition : Definition} {functions : Registry} {options : TableOptions}

/-- Without defects the compiled inputs have the names of the declared ones. -/
theorem inputNames_of_compileInputs
    (hdefects : (Table.compileInputs [] definition.inputs).defects = []) :
    (Table.compileInputs [] definition.inputs).value.map Table.Input.name =
      definition.inputs.map InputField.name := by
  simp [(Table.compileInputs_spec hdefects).1, Table.Input.ofField, Function.comp_def]

theorem outputNames_of_realizes {fields : List OutputField} {outputs : List Table.Output}
    (hall : List.Forall₂ Table.Output.Realizes fields outputs) :
    outputs.map Table.Output.name = fields.map OutputField.name := by
  induction hall with
  | nil => rfl
  | cons hhead _ ih => simp [hhead.1, ih]

theorem forall_mem_zipIdx_iff {α : Type} {holds : α → Prop} {items : List α} :
    (∀ item ∈ items.zipIdx, holds item.1) ↔ ∀ item ∈ items, holds item := by
  rw [← List.forall_mem_map, List.zipIdx_map_fst]

/--
Rules and defaults are checked against the inputs and outputs that are left.  These have all the
declared names once no defect was found before.
-/
theorem resolve_defects_eq_nil_iff :
    (definition.resolve functions options).defects = [] ↔ definition.WellFormed functions := by
  unfold resolve
  simp only [Reading.defects_bind, Reading.defects_pure, Reading.defects_all, List.append_nil,
    List.append_eq_nil_iff, List.flatMap_eq_nil_iff, List.forall_mem_map,
    Table.compilePath_defects_eq_nil_iff, Table.compileRule_defects_eq_nil_iff,
    Table.compileDefaults_defects_eq_nil_iff]
  constructor
  · rintro ⟨htarget, hinputs, houtputs, hrules, hdefaults⟩
    rw [inputNames_of_compileInputs hinputs,
      outputNames_of_realizes (Table.compileOutputs_spec houtputs).1] at hrules
    rw [outputNames_of_realizes (Table.compileOutputs_spec houtputs).1] at hdefaults
    have hinputNames := Table.compileInputs_defects_eq_nil_iff.mp hinputs
    obtain ⟨houtputNames, houtputPaths⟩ := Table.compileOutputs_defects_eq_nil_iff.mp houtputs
    exact
      { target := htarget
        inputNames := areFresh_nil_left.mp hinputNames
        outputNames := areFresh_nil_left.mp houtputNames
        outputPaths := houtputPaths
        rules := forall_mem_zipIdx_iff.mp hrules
        defaults := hdefaults }
  · intro hformed
    have hinputs : (Table.compileInputs [] definition.inputs).defects = [] :=
      Table.compileInputs_defects_eq_nil_iff.mpr (areFresh_nil_left.mpr hformed.inputNames)
    have houtputs : (Table.compileOutputs [] definition.outputs).defects = [] :=
      Table.compileOutputs_defects_eq_nil_iff.mpr
        ⟨areFresh_nil_left.mpr hformed.outputNames, hformed.outputPaths⟩
    rw [inputNames_of_compileInputs hinputs,
      outputNames_of_realizes (Table.compileOutputs_spec houtputs).1]
    exact ⟨hformed.target, hinputs, houtputs, forall_mem_zipIdx_iff.mpr hformed.rules,
      hformed.defaults⟩

theorem resolve_value_isSome (hread : ∃ path, Path.read definition.path = .ok path) :
    ∃ table, (definition.resolve functions options).value = some table := by
  obtain ⟨path, hread⟩ := hread
  simp [resolve, Table.compilePath, hread]

theorem compile_ok_iff (definition : Definition) (functions : Registry)
    (options : TableOptions) :
    (∃ table, definition.compile functions options = .ok table) ↔
      definition.WellFormed functions := by
  constructor
  · rintro ⟨table, haccepted⟩
    have hdefects := congrArg Reading.defects (resolve_of_compile haccepted)
    exact resolve_defects_eq_nil_iff.mp hdefects
  · intro hformed
    obtain ⟨table, hvalue⟩ := resolve_value_isSome hformed.target
    exact ⟨table, compile_eq_ok hvalue (resolve_defects_eq_nil_iff.mpr hformed)⟩

/-- The table of a well-formed definition is the one that its target path leads to. -/
theorem compile_eq_ok_iff_wellFormed {table : Table} :
    definition.compile functions options = .ok table ↔
      definition.WellFormed functions ∧ ∃ target, Path.read definition.path = .ok target ∧
        table = definition.tableAt target functions options := by
  rw [compile_eq_ok_iff, resolve_defects_eq_nil_iff]

theorem compile_eq_error (hdefects : (definition.resolve functions options).defects ≠ []) :
    definition.compile functions options =
      .error (definition.resolve functions options).defects := by
  unfold compile
  split
  · rename_i hresolve
    simp [hresolve] at hdefects
  · rename_i hresolve
    rw [hresolve]

/-- The definitions differ at most in priorities, strategies, criteria, and paths of inputs. -/
structure ChecksAlike (first second : Definition) : Prop where
  path : first.path = second.path
  inputNames : first.inputs.map InputField.name = second.inputs.map InputField.name
  outputs : first.outputs = second.outputs
  rules : List.Forall₂
    (fun rule other => rule.conditions.keys = other.conditions.keys ∧ rule.results = other.results)
    first.rules second.rules
  defaults : first.defaults = second.defaults

theorem ChecksAlike.symm {first second : Definition} (halike : first.ChecksAlike second) :
    second.ChecksAlike first where
  path := halike.path.symm
  inputNames := halike.inputNames.symm
  outputs := halike.outputs.symm
  rules := halike.rules.flip.imp fun _ _ hrule => ⟨hrule.1.symm, hrule.2.symm⟩
  defaults := halike.defaults.symm

theorem ChecksAlike.wellFormed {first second : Definition} (halike : first.ChecksAlike second)
    (hformed : first.WellFormed functions) : second.WellFormed functions where
  target := halike.path ▸ hformed.target
  inputNames := halike.inputNames ▸ hformed.inputNames
  outputNames := halike.outputs ▸ hformed.outputNames
  outputPaths := halike.outputs ▸ hformed.outputPaths
  rules other hother := by
    obtain ⟨rule, hrule, hkeys, hresults⟩ := exists_left_of_forall₂ halike.rules hother
    obtain ⟨hconditions, hvalid⟩ := hformed.rules rule hrule
    rw [halike.inputNames] at hconditions
    rw [halike.outputs, hresults] at hvalid
    refine ⟨?_, hvalid⟩
    have hnames : ∀ name ∈ rule.conditions.keys, name ∈ second.inputs.map InputField.name :=
      List.forall_mem_map.mpr hconditions
    rw [hkeys] at hnames
    exact List.forall_mem_map.mp hnames
  defaults := halike.outputs ▸ halike.defaults ▸ hformed.defaults

/--
Just the well-formed definitions are accepted, any other is refused with at least one defect, and
what is not checked makes no difference.
-/
theorem compile_accepts_wellFormed (definition : Definition) (functions : Registry)
    (options : TableOptions) :
    ((∃ table, definition.compile functions options = .ok table) ↔
      definition.WellFormed functions) ∧
    (¬ definition.WellFormed functions →
      ∃ defects, defects ≠ [] ∧ definition.compile functions options = .error defects) ∧
    ∀ other : Definition, definition.ChecksAlike other → ∀ otherOptions : TableOptions,
      ((∃ table, definition.compile functions options = .ok table) ↔
        ∃ table, other.compile functions otherOptions = .ok table) := by
  refine ⟨compile_ok_iff definition functions options, ?_, ?_⟩
  · intro hmalformed
    have hdefects : (definition.resolve functions options).defects ≠ [] :=
      fun hnone => hmalformed (resolve_defects_eq_nil_iff.mp hnone)
    exact ⟨_, hdefects, compile_eq_error hdefects⟩
  · intro other halike otherOptions
    rw [compile_ok_iff, compile_ok_iff]
    exact ⟨halike.wellFormed, halike.symm.wellFormed⟩

/-- The path of the input is no path, and its criteria never hold. -/
def dormant : Definition :=
  { path := "$.rows[*]"
    inputs := [⟨"size", "size[", none⟩]
    outputs := [⟨"label", "@.label"⟩]
    rules := [⟨0, .ofPairs [("size", .object [])], .ofPairs [("label", .string "#upper")]⟩]
    defaults := some (.ofPairs [("label", .string "##")])
    strategy := .standard }

/-- The path is a path and the criteria can hold. -/
def awake : Definition :=
  { dormant with
    inputs := [⟨"size", "@.size", some .number⟩]
    rules := [⟨7, .ofPairs [("size", .string ">3")], .ofPairs [("label", .string "#upper")]⟩] }

/-- The condition is on an input that is not declared. -/
def misspelt : Definition :=
  { dormant with
    rules := [⟨0, .ofPairs [("sise", .string ">3")], .ofPairs [("label", .string "big")]⟩] }

theorem compile_accepts_dormant :
    (∃ table, dormant.compile .empty {} = .ok table) ∧
      (∃ table, awake.compile .empty { mergeDedup := true } = .ok table) ∧
      ∃ defects, defects ≠ [] ∧ misspelt.compile .empty {} = .error defects := by
  have hdormant : ∃ table, dormant.compile .empty {} = .ok table :=
    exists_of_compile_isOk (by cbv)
  have halike : dormant.ChecksAlike awake := by
    constructor
    case rules => exact .cons ⟨by cbv, rfl⟩ .nil
    all_goals rfl
  have hmalformed : ¬ misspelt.WellFormed .empty := by
    intro hformed
    have hsize := (hformed.rules _ List.mem_cons_self).1 ("sise", .string ">3") List.mem_cons_self
    simp [misspelt, dormant] at hsize
  obtain ⟨-, -, hsame⟩ := compile_accepts_wellFormed dormant .empty {}
  obtain ⟨-, hrefused, -⟩ := compile_accepts_wellFormed misspelt .empty {}
  exact ⟨hdormant, (hsame awake halike _).mp hdormant, hrefused hmalformed⟩

end Definition

end DecisionTables
