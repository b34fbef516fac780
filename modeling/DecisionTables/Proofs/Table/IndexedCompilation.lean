import DecisionTables.Criteria.Cache
import DecisionTables.Proofs.Criteria.Cache
import DecisionTables.Proofs.Table.Positions
import Mathlib

/-!
# Compiling the indexed form

The compiler resolves names to positions right away: it looks inputs and outputs up in maps from
their names, sorts the results of a set by position, and reads the criteria of all conditions
through one cache.  What it comes to is the indexed form of the table, with the same defects.

The cache is an invariant of the compilation.  From any faithful cache each part of it comes to the
same value and the same defects, and it leaves a faithful cache for the next part.
-/

namespace DecisionTables

namespace IndexedTable

open Table (Input Output)

/-- The positions of names, where a name that comes again is found at its last position. -/
def positions (names : List String) : KeyMap Nat :=
  .ofPairs names.zipIdx

/-- Compiling reads criteria through the cache and reports defects. -/
abbrev Compiling :=
  StateT CriteriaCache Reading

def compileCondition (inputs : KeyMap Nat) (ruleNumber : Nat) (entry : String × Json) :
    Compiling (Option Condition) :=
  match inputs.get? entry.1 with
  | none => Reading.report (.undefinedInput ruleNumber entry.1) none
  | some input => do
    let (_, criteria) ← modifyGet fun cache => cache.request entry.2
    return some ⟨input, criteria⟩

def compileConditions (inputs : KeyMap Nat) (ruleNumber : Nat) :
    List (String × Json) → Compiling (List Condition)
  | [] => pure []
  | entry :: rest => do
    let condition ← compileCondition inputs ruleNumber entry
    let conditions ← compileConditions inputs ruleNumber rest
    return condition.toList ++ conditions

def compileResult (place : Place) (outputs : KeyMap Nat) (functions : Registry)
    (entry : String × Json) : Reading (Option (Nat × ResultValue)) :=
  match outputs.get? entry.1 with
  | none => .report (.undefinedOutput place entry.1) none
  | some output =>
    match Table.compileResultValue functions entry.2 with
    | .error fault => .report (.invalidResult place entry.1 fault) none
    | .ok result => pure (some (output, result))

def compileResults (place : Place) (outputs : KeyMap Nat) (functions : Registry)
    (entries : KeyMap Json) : Reading ResultSet := do
  let results ← Reading.all (entries.entries.map (compileResult place outputs functions))
  return (results.filterMap id).mergeSort fun first second => first.1 ≤ second.1

def compileRule (inputs outputs : KeyMap Nat) (functions : Registry) (rule : NumberedRule) :
    Compiling Rule := do
  let number := rule.2 + 1
  let conditions ← compileConditions inputs number rule.1.conditions.entries
  let results ← compileResults (.rule number) outputs functions rule.1.results
  return ⟨rule.2, rule.1.priority, conditions, results⟩

def compileRules (inputs outputs : KeyMap Nat) (functions : Registry) :
    List NumberedRule → Compiling (List Rule)
  | [] => pure []
  | rule :: rest => do
    let compiled ← compileRule inputs outputs functions rule
    let rules ← compileRules inputs outputs functions rest
    return compiled :: rules

def compileDefaults (outputs : KeyMap Nat) (functions : Registry) :
    Option (KeyMap Json) → Reading (Option ResultSet)
  | none => pure none
  | some defaults => do
    let results ← compileResults .defaultResults outputs functions defaults
    return some results

/-- Whether the first rule is evaluated before the second one, or they are the same. -/
def Rule.precedes (first second : Rule) : Bool :=
  first.priority < second.priority ||
    (first.priority == second.priority && first.declaration ≤ second.declaration)

def resolve (definition : Definition) (functions : Registry) (options : TableOptions) :
    Compiling (Option IndexedTable) := do
  let target ← Table.compilePath .table definition.path
  let inputs ← Table.compileInputs [] definition.inputs
  let outputs ← Table.compileOutputs [] definition.outputs
  let inputPositions := positions (inputs.map Input.name)
  let outputPositions := positions (outputs.map Output.name)
  let rules ← compileRules inputPositions outputPositions functions definition.rules.zipIdx
  let defaults ← compileDefaults outputPositions functions definition.defaults
  return target.map fun target =>
    { target, inputs, outputs, rules := rules.mergeSort Rule.precedes, defaults,
      strategy := definition.strategy, options, functions }

def compile (definition : Definition) (functions : Registry) (options : TableOptions := {}) :
    Except (List Defect) IndexedTable :=
  match (resolve definition functions options).run .empty with
  | ⟨(some table, _), []⟩ => .ok table
  | ⟨_, defects⟩ => .error defects

/-! ## The cache between the parts -/

/-- From any faithful cache there come this value and these defects, and a faithful cache. -/
def Compiling.ComesTo {α : Type} (compiling : Compiling α) (value : α) (defects : List Defect) :
    Prop :=
  ∀ cache : CriteriaCache, cache.IsFaithful →
    ∃ later, later.IsFaithful ∧ compiling.run cache = ⟨(value, later), defects⟩

namespace Compiling.ComesTo

variable {α β : Type}

theorem pure (value : α) : ComesTo (Pure.pure value) value [] :=
  fun cache hfaithful => ⟨cache, hfaithful, rfl⟩

theorem ofReading (reading : Reading α) :
    ComesTo (liftM reading) reading.value reading.defects := by
  intro cache hfaithful
  refine ⟨cache, hfaithful, ?_⟩
  have hdefects := List.append_nil reading.defects
  exact congrArg (Reading.mk (reading.value, cache)) hdefects

theorem bind {compiling : Compiling α} {next : α → Compiling β} {value : α} {result : β}
    {defects more : List Defect} (hfirst : compiling.ComesTo value defects)
    (hnext : (next value).ComesTo result more) :
    ComesTo (compiling >>= next) result (defects ++ more) := by
  intro cache hfaithful
  obtain ⟨between, hbetween, hrun⟩ := hfirst cache hfaithful
  obtain ⟨later, hlater, hrest⟩ := hnext between hbetween
  refine ⟨later, hlater, ?_⟩
  rw [StateT.run_bind, hrun]
  change Reading.mk ((next value).run between).value
    (defects ++ ((next value).run between).defects) = _
  rw [hrest]

/-- Whatever was requested before, a request is answered with the criteria of its value. -/
theorem request (source : Json) {next : Nat × Criteria → Compiling α} {value : α}
    {defects : List Defect}
    (hnext : ∀ place, (next (place, .ofJson source)).ComesTo value defects) :
    ComesTo ((modifyGet fun cache => cache.request source) >>= next) value defects := by
  intro cache hfaithful
  obtain ⟨hgrows, hholds⟩ := CriteriaCache.request_spec hfaithful source
  have hanswer := hholds.criteria_eq hgrows.faithful
  obtain ⟨later, hlater, hrun⟩ :=
    hnext (cache.request source).1.1 (cache.request source).2 hgrows.faithful
  refine ⟨later, hlater, ?_⟩
  rw [← hanswer] at hrun
  exact hrun

end Compiling.ComesTo

/-! ## Positions of names -/

section Positions

variable {α : Type} {name : α → String}

theorem get?_zipIdx (items : List α) (start : Nat) (key : String) :
    Entries.get? key ((items.map name).zipIdx start) =
      (items.find? fun item => name item = key).map fun item =>
        start + (items.map name).idxOf (name item) := by
  induction items generalizing start with
  | nil => rfl
  | cons head rest ih =>
      by_cases h : name head = key
      · simp [Entries.get?, h]
      · have hlater : ∀ item ∈ rest.find? (fun item => name item = key),
            (name head :: rest.map name).idxOf (name item) =
              (rest.map name).idxOf (name item) + 1 := by
          intro item hitem
          have hkey : name item = key := by simpa using List.find?_some hitem
          exact List.idxOf_cons_ne _ (hkey ▸ h)
        simp only [List.map_cons, List.zipIdx_cons, Entries.get?, h, if_false, ih,
          List.find?_cons_of_neg (p := fun item => decide (name item = key)) (by simpa using h)]
        refine Option.map_congr fun item hitem => ?_
        rw [hlater item hitem, Nat.add_assoc, Nat.add_comm 1]

/-- Under different names the one of an item is found at the position of the item. -/
theorem get?_positions {items : List α} (hnames : (items.map name).Nodup) (key : String) :
    (positions (items.map name)).get? key =
      (items.find? fun item => name item = key).map fun item =>
        (items.map name).idxOf (name item) := by
  have hkeys : ((items.map name).zipIdx.map Prod.fst).Nodup := by
    rwa [List.zipIdx_map_fst]
  rw [positions, KeyMap.get?, KeyMap.ofPairs, Entries.get?_ofPairs key hkeys, get?_zipIdx]
  simp only [Nat.zero_add]

end Positions

section Names

theorem nodup_names_compileInputs (seen : List String) (fields : List InputField) :
    ((Table.compileInputs seen fields).value.map Input.name).Nodup ∧
      ∀ input ∈ (Table.compileInputs seen fields).value, input.name ∉ seen := by
  induction fields generalizing seen with
  | nil => simp [Table.compileInputs]
  | cons field rest ih =>
      unfold Table.compileInputs
      by_cases hseen : field.name ∈ seen
      · simpa [hseen] using ih seen
      · obtain ⟨hnodup, hfresh⟩ := ih (field.name :: seen)
        have hname : (Input.ofField field).name = field.name := rfl
        simp only [hseen, if_false, Reading.value_bind, Reading.value_pure]
        exact Table.nodup_names_cons hname hseen hnodup hfresh

theorem name_of_compileOutput {field : OutputField} {output : Output}
    (hvalue : (Table.compileOutput field).value = some output) : output.name = field.name := by
  unfold Table.compileOutput at hvalue
  rw [Reading.value_bind] at hvalue
  cases hpath : (Table.compilePath (.namedOutput field.name) field.path).value with
  | none => simp [hpath] at hvalue
  | some path =>
      by_cases hwildcard : path.hasWildcard
      · simp [hpath, hwildcard] at hvalue
      · simp only [hpath, hwildcard] at hvalue
        exact congrArg Output.name (Option.some.inj hvalue).symm

theorem nodup_names_compileOutputs (seen : List String) (fields : List OutputField) :
    ((Table.compileOutputs seen fields).value.map Output.name).Nodup ∧
      ∀ output ∈ (Table.compileOutputs seen fields).value, output.name ∉ seen := by
  induction fields generalizing seen with
  | nil => simp [Table.compileOutputs]
  | cons field rest ih =>
      unfold Table.compileOutputs
      by_cases hseen : field.name ∈ seen
      · simpa [hseen] using ih seen
      · obtain ⟨hnodup, hfresh⟩ := ih (field.name :: seen)
        simp only [hseen, if_false, Reading.value_bind, Reading.value_pure]
        cases hvalue : (Table.compileOutput field).value with
        | none =>
            refine ⟨by simpa using hnodup, fun output houtput hmem => ?_⟩
            exact hfresh output (by simpa using houtput) (List.mem_cons_of_mem _ hmem)
        | some output =>
            simpa using Table.nodup_names_cons (name_of_compileOutput hvalue) hseen hnodup hfresh

end Names

/-! ## Conditions and results -/

section Parts

variable {inputs : List Input} {outputs : List Output} {functions : Registry}

theorem comesTo_compileCondition (hnames : (inputs.map Input.name).Nodup) (ruleNumber : Nat)
    (entry : String × Json) :
    (compileCondition (positions (inputs.map Input.name)) ruleNumber entry).ComesTo
      ((Table.compileCondition inputs ruleNumber entry).value.map
        (Table.Condition.indexed inputs))
      (Table.compileCondition inputs ruleNumber entry).defects := by
  unfold compileCondition Table.compileCondition
  rw [get?_positions hnames, Table.findInput?]
  cases inputs.find? fun input => input.name = entry.1 with
  | none => exact .ofReading _
  | some input => exact .request entry.2 fun place => .pure _

theorem comesTo_compileConditions (hnames : (inputs.map Input.name).Nodup) (ruleNumber : Nat)
    (entries : List (String × Json)) :
    let conditions := Reading.all (entries.map (Table.compileCondition inputs ruleNumber))
    (compileConditions (positions (inputs.map Input.name)) ruleNumber entries).ComesTo
      ((conditions.value.filterMap id).map (Table.Condition.indexed inputs))
      conditions.defects := by
  induction entries with
  | nil => exact .pure []
  | cons entry rest ih =>
      intro conditions
      have hvalue : (conditions.value.filterMap id).map (Table.Condition.indexed inputs) =
          ((Table.compileCondition inputs ruleNumber entry).value.map
            (Table.Condition.indexed inputs)).toList ++
          ((Reading.all (rest.map (Table.compileCondition inputs ruleNumber))).value.filterMap
            id).map (Table.Condition.indexed inputs) := by
        cases hcondition : (Table.compileCondition inputs ruleNumber entry).value <;>
          simp [conditions, hcondition]
      have hdefects : conditions.defects =
          (Table.compileCondition inputs ruleNumber entry).defects ++
            ((Reading.all (rest.map (Table.compileCondition inputs ruleNumber))).defects ++
              []) := by
        simp [conditions]
      rw [hvalue, hdefects]
      exact (comesTo_compileCondition hnames ruleNumber entry).bind (ih.bind (.pure _))

theorem compileResult_eq (hnames : (outputs.map Output.name).Nodup) (place : Place)
    (entry : String × Json) :
    compileResult place (positions (outputs.map Output.name)) functions entry =
      ⟨(Table.compileResult place outputs functions entry).value.map (Output.placed outputs),
        (Table.compileResult place outputs functions entry).defects⟩ := by
  unfold compileResult Table.compileResult
  rw [get?_positions hnames, Table.findOutput?]
  cases outputs.find? fun output => output.name = entry.1 with
  | none => rfl
  | some output =>
      simp only [Option.map_some]
      cases Table.compileResultValue functions entry.2 <;> rfl

/-- Different results are only moved when they are put in the order of the outputs. -/
theorem perm_inOutputOrder {results : Table.ResultSet} (hnames : (outputs.map Output.name).Nodup)
    (hwithin : ∀ result ∈ results, result.1 ∈ outputs)
    (hnodup : (results.map Prod.fst).Nodup) :
    results.Perm (Table.inOutputOrder outputs results) := by
  have hordered := (Table.map_fst_inOutputOrder_sublist outputs results).nodup hnames.of_map
  refine (List.perm_ext_iff_of_nodup hnodup.of_map hordered.of_map).mpr fun result => ?_
  constructor
  · intro hmem
    have hfound := (Table.resultFor?_eq_some_iff hnodup).mpr hmem
    exact List.mem_filterMap.mpr ⟨result.1, hwithin result hmem, by simp [hfound]⟩
  · intro hmem
    obtain ⟨output, -, hfound⟩ := List.mem_filterMap.mp hmem
    obtain ⟨found, hfor, rfl⟩ := Option.map_eq_some_iff.mp hfound
    exact Table.mem_of_resultFor? hfor

theorem mergeSort_of_ascending {results ordered : ResultSet} (hperm : results.Perm ordered)
    (hascending : ordered.Pairwise fun first second => first.1 < second.1) :
    (results.mergeSort fun first second => first.1 ≤ second.1) = ordered := by
  have hsorted : (results.mergeSort fun first second => first.1 ≤ second.1).Pairwise
      fun first second => decide (first.1 ≤ second.1) = true := by
    refine List.pairwise_mergeSort ?_ ?_ results
    · intro first second third hfirst hsecond
      simp only [decide_eq_true_eq] at hfirst hsecond ⊢
      exact Nat.le_trans hfirst hsecond
    · intro first second
      simpa using Nat.le_total first.1 second.1
  have hmoved := (List.mergeSort_perm results fun first second => first.1 ≤ second.1).trans hperm
  -- Results at one position are the same, since the positions of the ordered ones are different.
  have hdistinct : (ordered.map Prod.fst).Nodup :=
    (List.pairwise_map.mpr hascending).imp Nat.ne_of_lt
  refine hmoved.eq_of_pairwise (fun first second hfirst hsecond hle hge => ?_) hsorted
    (hascending.imp fun hlt => by simpa using Nat.le_of_lt hlt)
  simp only [decide_eq_true_eq] at hle hge
  exact List.inj_on_of_nodup_map hdistinct (hmoved.mem_iff.mp hfirst) hsecond
    (Nat.le_antisymm hle hge)

/-- Sorting different results by position puts them in the order of the outputs. -/
theorem mergeSort_placed {results : Table.ResultSet} (hnames : (outputs.map Output.name).Nodup)
    (hwithin : ∀ result ∈ results, result.1 ∈ outputs)
    (hnodup : (results.map Prod.fst).Nodup) :
    (results.map (Output.placed outputs)).mergeSort (fun first second => first.1 ≤ second.1) =
      (Table.inOutputOrder outputs results).map (Output.placed outputs) := by
  have hsublist := Table.map_fst_inOutputOrder_sublist outputs results
  have hascending := (Table.ResultSet.isPlaced_of_sublist hnames hsublist).ascending
  exact mergeSort_of_ascending ((perm_inOutputOrder hnames hwithin hnodup).map _)
    (List.pairwise_map.mp hascending)

theorem output_of_compileResult {place : Place} {entry : String × Json}
    {result : Output × ResultValue}
    (hvalue : (Table.compileResult place outputs functions entry).value = some result) :
    result.1 ∈ outputs ∧ result.1.name = entry.1 := by
  unfold Table.compileResult at hvalue
  cases hfind : Table.findOutput? outputs entry.1 with
  | none => simp [hfind] at hvalue
  | some output =>
      cases hresult : Table.compileResultValue functions entry.2 with
      | error fault => simp [hfind, hresult] at hvalue
      | ok found =>
          simp only [hfind, hresult, Reading.value_pure] at hvalue
          exact Option.some.inj hvalue ▸ Table.name_of_findOutput? hfind

theorem names_compileResults_sublist (place : Place) (outputs : List Output)
    (functions : Registry) (entries : List (String × Json)) :
    (((Reading.all (entries.map
      (Table.compileResult place outputs functions))).value.filterMap id).map
        fun result => result.1.name).Sublist (entries.map Prod.fst) := by
  induction entries with
  | nil => exact .slnil
  | cons entry rest ih =>
      cases hvalue : (Table.compileResult place outputs functions entry).value with
      | none => simpa [hvalue] using ih.cons entry.1
      | some result =>
          simpa [hvalue, (output_of_compileResult hvalue).2] using ih.cons_cons entry.1

/-- The keys of the configured results are different, and so are the outputs found for them. -/
theorem compileResults_eq (hnames : (outputs.map Output.name).Nodup) (place : Place)
    (entries : KeyMap Json) :
    compileResults place (positions (outputs.map Output.name)) functions entries =
      ⟨(Table.compileResults place outputs functions entries).value.indexed outputs,
        (Table.compileResults place outputs functions entries).defects⟩ := by
  have hkeys : (entries.entries.map Prod.fst).Nodup := by
    refine (Entries.sorted_iff_keys.mp entries.sorted).imp ?_
    rintro key _ hlt rfl
    exact String.lt_irrefl key hlt
  have hfound := (names_compileResults_sublist place outputs functions entries.entries).nodup hkeys
  have hwithin : ∀ result ∈ (Reading.all (entries.entries.map
      (Table.compileResult place outputs functions))).value.filterMap id, result.1 ∈ outputs := by
    intro result hresult
    obtain ⟨entry, -, hvalue⟩ : ∃ entry ∈ entries.entries,
        (Table.compileResult place outputs functions entry).value = some result := by
      simpa using hresult
    exact (output_of_compileResult hvalue).1
  have hplaced : ((Reading.all (entries.entries.map (compileResult place
      (positions (outputs.map Output.name)) functions))).value.filterMap id) =
      ((Reading.all (entries.entries.map (Table.compileResult place outputs
        functions))).value.filterMap id).map (Output.placed outputs) := by
    simp [compileResult_eq hnames, List.map_filterMap, List.filterMap_map, Function.comp_def]
  have hdefects : (Reading.all (entries.entries.map (compileResult place
      (positions (outputs.map Output.name)) functions))).defects =
      (Reading.all (entries.entries.map
        (Table.compileResult place outputs functions))).defects := by
    simp [compileResult_eq hnames, List.flatMap_map]
  have hsorted := mergeSort_placed hnames hwithin (List.Nodup.of_map Output.name (by
    simpa [Function.comp_def] using hfound))
  rw [← hplaced] at hsorted
  unfold compileResults Table.compileResults
  exact congrArg₂ Reading.mk hsorted (congrArg (· ++ []) hdefects)

theorem compileDefaults_eq (hnames : (outputs.map Output.name).Nodup)
    (defaults : Option (KeyMap Json)) :
    compileDefaults (positions (outputs.map Output.name)) functions defaults =
      ⟨(Table.compileDefaults outputs functions defaults).value.map
          (Table.ResultSet.indexed outputs),
        (Table.compileDefaults outputs functions defaults).defects⟩ := by
  cases defaults with
  | none => rfl
  | some entries =>
      simp only [compileDefaults, Table.compileDefaults, compileResults_eq hnames]
      rfl

theorem comesTo_compileDefaults (hnames : (outputs.map Output.name).Nodup)
    (defaults : Option (KeyMap Json)) :
    Compiling.ComesTo
      (liftM (compileDefaults (positions (outputs.map Output.name)) functions defaults))
      ((Table.compileDefaults outputs functions defaults).value.map
        (Table.ResultSet.indexed outputs))
      (Table.compileDefaults outputs functions defaults).defects := by
  rw [compileDefaults_eq hnames]
  exact .ofReading _

/-! ## Rules -/

theorem comesTo_compileRule (hinputs : (inputs.map Input.name).Nodup)
    (houtputs : (outputs.map Output.name).Nodup) (rule : NumberedRule) :
    (compileRule (positions (inputs.map Input.name)) (positions (outputs.map Output.name))
        functions rule).ComesTo
      ((Table.compileRule inputs outputs functions rule.2 rule.1).value.indexed inputs outputs)
      (Table.compileRule inputs outputs functions rule.2 rule.1).defects := by
  simp only [compileRule, Table.compileRule, compileResults_eq houtputs]
  exact (comesTo_compileConditions hinputs (rule.2 + 1) rule.1.conditions.entries).bind
    ((Compiling.ComesTo.ofReading _).bind (.pure _))

theorem comesTo_compileRules (hinputs : (inputs.map Input.name).Nodup)
    (houtputs : (outputs.map Output.name).Nodup) (rules : List NumberedRule) :
    let compiled := Reading.all (rules.map fun rule =>
      Table.compileRule inputs outputs functions rule.2 rule.1)
    (compileRules (positions (inputs.map Input.name)) (positions (outputs.map Output.name))
        functions rules).ComesTo
      (compiled.value.map (Table.Rule.indexed inputs outputs)) compiled.defects := by
  induction rules with
  | nil => exact .pure []
  | cons rule rest ih =>
      intro compiled
      have hdefects : compiled.defects =
          (Table.compileRule inputs outputs functions rule.2 rule.1).defects ++
            ((Reading.all (rest.map fun rule =>
              Table.compileRule inputs outputs functions rule.2 rule.1)).defects ++ []) := by
        simp [compiled]
      rw [hdefects]
      exact (comesTo_compileRule hinputs houtputs rule).bind (ih.bind (.pure _))

end Parts

/-! ## Tables -/

/-- Rules are sorted alike with objects and with positions in them. -/
theorem indexed_tableAt (definition : Definition) (target : Path) (functions : Registry)
    (options : TableOptions) :
    let inputs := (Table.compileInputs [] definition.inputs).value
    let outputs := (Table.compileOutputs [] definition.outputs).value
    let rules := Reading.all (definition.rules.zipIdx.map fun rule =>
      Table.compileRule inputs outputs functions rule.2 rule.1)
    let defaults := Table.compileDefaults outputs functions definition.defaults
    (definition.tableAt target functions options).indexed =
      { target, inputs, outputs,
        rules := (rules.value.map (Table.Rule.indexed inputs outputs)).mergeSort Rule.precedes,
        defaults := defaults.value.map (Table.ResultSet.indexed outputs),
        strategy := definition.strategy, options, functions } := by
  intro inputs outputs rules defaults
  have hrules : rules.value = definition.rules.zipIdx.map (definition.ruleAt functions) := by
    rw [Reading.value_all, List.map_map]
    rfl
  have hsorted : ((definition.rules.zipIdx.map (definition.ruleAt functions)).mergeSort
      Table.Rule.precedes).map (Table.Rule.indexed inputs outputs) =
      (rules.value.map (Table.Rule.indexed inputs outputs)).mergeSort Rule.precedes :=
    hrules ▸ List.map_mergeSort fun _ _ _ _ => rfl
  rw [← hsorted]
  rfl

/-- The compilation by positions comes to the indexed form, as far as there is a table. -/
theorem comesTo_resolve (definition : Definition) (functions : Registry) (options : TableOptions) :
    (resolve definition functions options).ComesTo
      ((definition.resolve functions options).value.map Table.indexed)
      (definition.resolve functions options).defects := by
  obtain ⟨hinputs, -⟩ := nodup_names_compileInputs [] definition.inputs
  obtain ⟨houtputs, -⟩ := nodup_names_compileOutputs [] definition.outputs
  simp only [Definition.resolve_value, Option.map_map, Function.comp_def, indexed_tableAt]
  exact .bind (.ofReading _) (.bind (.ofReading _) (.bind (.ofReading _)
    (.bind (comesTo_compileRules hinputs houtputs _)
      (.bind (comesTo_compileDefaults houtputs _) (.pure _)))))

/--
Compiling by positions comes to the indexed form of the table that compiling by names comes to, or
to the same defects.
-/
theorem compile_eq_indexed (definition : Definition) (functions : Registry)
    (options : TableOptions) :
    compile definition functions options =
      (definition.compile functions options).map Table.indexed := by
  obtain ⟨later, -, hrun⟩ :=
    comesTo_resolve definition functions options .empty CriteriaCache.isFaithful_empty
  unfold compile Definition.compile
  rw [hrun]
  obtain ⟨value, defects⟩ := definition.resolve functions options
  cases value with
  | none => rfl
  | some table => cases defects <;> rfl

end IndexedTable

end DecisionTables
