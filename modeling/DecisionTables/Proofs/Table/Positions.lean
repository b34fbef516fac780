import DecisionTables.Proofs.Table.Acceptance
import Mathlib.Data.List.Nodup

/-!
# Positions in an accepted table

The indexed form of a table refers to inputs and outputs by their positions.  For an accepted table
every position is one: each condition points at an input, and the results of a set point at outputs
in strictly ascending order.  The rules stand strictly in the order of evaluation, and their
declarations are all the positions among the configured rules, each once.
-/

namespace DecisionTables

/-- The order of evaluation, by priority and then by declaration. -/
def EvaluatedBefore (first second : Int64 × Nat) : Prop :=
  first.1 < second.1 ∨ first.1 = second.1 ∧ first.2 < second.2

namespace IndexedTable

structure Condition where
  input : Nat
  criteria : Criteria

abbrev ResultSet :=
  List (Nat × ResultValue)

structure Rule where
  declaration : Nat
  priority : Int64
  conditions : List Condition
  results : ResultSet

def Rule.place (rule : Rule) : Int64 × Nat :=
  (rule.priority, rule.declaration)

end IndexedTable

/-- A table whose rules refer to inputs and outputs by position. -/
structure IndexedTable where
  target : Path
  inputs : List Table.Input
  outputs : List Table.Output
  rules : List IndexedTable.Rule
  defaults : Option IndexedTable.ResultSet
  strategy : Strategy
  options : TableOptions
  functions : Registry

namespace Table

def Rule.place (rule : Rule) : Int64 × Nat :=
  (rule.priority, rule.declaration)

def Input.position (inputs : List Input) (input : Input) : Nat :=
  (inputs.map Input.name).idxOf input.name

def Output.position (outputs : List Output) (output : Output) : Nat :=
  (outputs.map Output.name).idxOf output.name

def Condition.indexed (inputs : List Input) (condition : Condition) : IndexedTable.Condition :=
  ⟨condition.input.position inputs, condition.criteria⟩

/-- What there is for an output, with the position of the output. -/
def Output.placed {α : Type} (outputs : List Output) (entry : Output × α) : Nat × α :=
  (entry.1.position outputs, entry.2)

def ResultSet.indexed (outputs : List Output) (results : ResultSet) : IndexedTable.ResultSet :=
  results.map (Output.placed outputs)

def Rule.indexed (inputs : List Input) (outputs : List Output) (rule : Rule) :
    IndexedTable.Rule where
  declaration := rule.declaration
  priority := rule.priority
  conditions := rule.conditions.map (Condition.indexed inputs)
  results := ResultSet.indexed outputs rule.results

def indexed (table : Table) : IndexedTable where
  target := table.target
  inputs := table.inputs
  outputs := table.outputs
  rules := table.rules.map (Rule.indexed table.inputs table.outputs)
  defaults := table.defaults.map (ResultSet.indexed table.outputs)
  strategy := table.strategy
  options := table.options
  functions := table.functions

section

variable (table : Table)

@[simp] theorem map_place_indexed :
    table.indexed.rules.map IndexedTable.Rule.place = table.rules.map Rule.place := by
  simp [indexed, Rule.indexed, IndexedTable.Rule.place, Rule.place]

@[simp] theorem indexed_inputs : table.indexed.inputs = table.inputs := rfl

@[simp] theorem indexed_outputs : table.indexed.outputs = table.outputs := rfl

@[simp] theorem indexed_strategy : table.indexed.strategy = table.strategy := rfl

@[simp] theorem indexed_options : table.indexed.options = table.options := rfl

@[simp] theorem indexed_functions : table.indexed.functions = table.functions := rfl

end

end Table

namespace IndexedTable

/-- The results are for different ones of so many outputs, in the order of the outputs. -/
structure ResultSet.IsPlaced (outputs : Nat) (results : ResultSet) : Prop where
  ascending : (results.map Prod.fst).Pairwise (· < ·)
  within : ∀ output ∈ results.map Prod.fst, output < outputs

/-- Everything in a table for so many configured rules has its place there. -/
structure IsPlaced (table : IndexedTable) (configured : Nat) : Prop where
  conditions : ∀ rule ∈ table.rules, ∀ condition ∈ rule.conditions,
    condition.input < table.inputs.length
  results : ∀ rule ∈ table.rules, ResultSet.IsPlaced table.outputs.length rule.results
  defaults : ∀ results ∈ table.defaults, ResultSet.IsPlaced table.outputs.length results
  rules : (table.rules.map Rule.place).Pairwise EvaluatedBefore
  declarations : (table.rules.map Rule.declaration).Perm (List.range configured)
  outputs : ∀ output ∈ table.outputs, output.path.hasWildcard = false

end IndexedTable

namespace Table

/-- An item of a list has the position of its name there, if no other item has that name. -/
theorem getElem?_idxOf_name {α : Type} {name : α → String} {items : List α}
    (hnames : (items.map name).Nodup) {item : α} (hitem : item ∈ items) :
    items[(items.map name).idxOf (name item)]? = some item := by
  have hlt : (items.map name).idxOf (name item) < items.length := by
    simpa using List.idxOf_lt_length_of_mem (List.mem_map_of_mem hitem)
  have hname : name items[(items.map name).idxOf (name item)] = name item := by
    simpa using List.getElem_idxOf (List.idxOf_lt_length_of_mem (List.mem_map_of_mem hitem))
  rw [List.getElem?_eq_getElem hlt,
    List.inj_on_of_nodup_map hnames (List.getElem_mem hlt) hitem hname]

theorem Input.position_lt {inputs : List Input} {input : Input} (hinput : input ∈ inputs) :
    input.position inputs < inputs.length := by
  simpa [position] using List.idxOf_lt_length_of_mem (List.mem_map_of_mem (f := Input.name) hinput)

/-! ## Results in the order of the outputs -/

theorem map_fst_inOutputOrder_sublist (outputs : List Output) (results : ResultSet) :
    ((inOutputOrder outputs results).map Prod.fst).Sublist outputs := by
  unfold inOutputOrder
  induction outputs with
  | nil => exact .slnil
  | cons output rest ih =>
      cases hresult : results.resultFor? output with
      | none =>
          rw [List.filterMap_cons_none (by simp [hresult])]
          exact .cons _ ih
      | some result =>
          rw [List.filterMap_cons_some (b := (output, result)) (by simp [hresult])]
          exact .cons_cons _ ih

theorem resultFor?_eq_some_iff {results : ResultSet} (hnodup : (results.map Prod.fst).Nodup)
    {output : Output} {result : ResultValue} :
    results.resultFor? output = some result ↔ (output, result) ∈ results := by
  refine ⟨mem_of_resultFor?, fun hmem => ?_⟩
  induction results with
  | nil => simp at hmem
  | cons head rest ih =>
      obtain ⟨hnew, hnodup⟩ := List.nodup_cons.mp hnodup
      rw [resultFor?_cons]
      rcases List.mem_cons.mp hmem with rfl | hlater
      · simp
      · have hne : head.1 ≠ output := fun heq =>
          hnew (heq ▸ List.mem_map_of_mem (f := Prod.fst) hlater)
        simp [hne, ih hnodup hlater]

theorem map_position_outputs {outputs : List Output} (hnames : (outputs.map Output.name).Nodup) :
    outputs.map (Output.position outputs) = List.range outputs.length := by
  apply List.ext_getElem
  · simp
  · intro index hindex _
    have hlt : index < (outputs.map Output.name).length := by simpa using hindex
    have hplace := hnames.idxOf_getElem index hlt
    simpa [Output.position] using hplace

theorem ResultSet.isPlaced_of_sublist {outputs : List Output} {results : ResultSet}
    (hnames : (outputs.map Output.name).Nodup)
    (hordered : (results.map Prod.fst).Sublist outputs) :
    IndexedTable.ResultSet.IsPlaced outputs.length (results.indexed outputs) := by
  have hpositions : ((results.indexed outputs).map Prod.fst).Sublist
      (List.range outputs.length) := by
    rw [← map_position_outputs hnames]
    simpa [indexed, Output.placed, Function.comp_def] using
      hordered.map (Output.position outputs)
  exact ⟨List.pairwise_lt_range.sublist hpositions,
    fun position hposition => List.mem_range.mp (hpositions.subset hposition)⟩

theorem compileResults_sublist (place : Place) (outputs : List Output) (functions : Registry)
    (entries : KeyMap Json) :
    ((compileResults place outputs functions entries).value.map Prod.fst).Sublist outputs :=
  map_fst_inOutputOrder_sublist outputs _

end Table

namespace Definition

variable {definition : Definition} {functions : Registry} {options : TableOptions}
  {table : Table}

/-- The rules and the default results of an accepted table are the compiler's own. -/
theorem results_sublist_of_compile (haccepted : definition.compile functions options = .ok table) :
    (∀ rule ∈ table.rules, (rule.results.map Prod.fst).Sublist table.outputs) ∧
      ∀ results ∈ table.defaults, (results.map Prod.fst).Sublist table.outputs := by
  obtain ⟨-, target, -, rfl⟩ := compile_eq_ok_iff.mp haccepted
  constructor
  · intro rule hrule
    have hcompiled := List.mem_mergeSort.mp hrule
    obtain ⟨entry, -, rfl⟩ := List.mem_map.mp hcompiled
    exact Table.compileResults_sublist _ _ _ _
  · intro results hresults
    unfold tableAt at hresults
    cases hdefaults : definition.defaults with
    | none => simp [Table.compileDefaults, hdefaults] at hresults
    | some entries =>
        simp only [Table.compileDefaults, hdefaults, Reading.value_bind, Reading.value_pure,
          Option.mem_some_iff] at hresults
        exact hresults ▸ Table.compileResults_sublist _ _ _ _

theorem isPlaced_of_compile (haccepted : definition.compile functions options = .ok table) :
    table.indexed.IsPlaced definition.rules.length := by
  obtain ⟨rfl, rfl, rfl, hresolved⟩ := compile_spec haccepted
  obtain ⟨hrules, hdefaults⟩ := results_sublist_of_compile haccepted
  obtain ⟨configured, hconfigured, hrealized, hordered⟩ := hresolved.rules_in_order
  constructor
  case conditions =>
    intro rule hrule condition hcondition
    obtain ⟨named, hnamed, rfl⟩ := List.mem_map.mp hrule
    obtain ⟨tested, htested, rfl⟩ := List.mem_map.mp hcondition
    exact Table.Input.position_lt (hresolved.input_mem hnamed htested)
  case results =>
    intro rule hrule
    obtain ⟨named, hnamed, rfl⟩ := List.mem_map.mp hrule
    exact Table.ResultSet.isPlaced_of_sublist hresolved.outputNames (hrules named hnamed)
  case defaults =>
    intro results hresults
    obtain ⟨named, hnamed, rfl⟩ := Option.map_eq_some_iff.mp hresults
    exact Table.ResultSet.isPlaced_of_sublist hresolved.outputNames (hdefaults named hnamed)
  case rules =>
    rw [Table.map_place_indexed]
    refine List.pairwise_map.mpr (pairwise_of_forall₂ hrealized.flip hordered
      (List.pairwise_of_forall fun _ _ => trivial) ?_)
    intro rule other entry otherEntry hrule hother hprecedes _
    simp only [EvaluatedBefore, Table.Rule.place, hrule.priority_eq, hother.priority_eq,
      hrule.declaration_eq, hother.declaration_eq]
    exact hprecedes
  case declarations =>
    have hdeclarations : table.indexed.rules.map IndexedTable.Rule.declaration =
        configured.map Prod.snd := by
      have hpairs := List.forall₂_map_left_iff.mpr (List.forall₂_map_right_iff.mpr
        (hrealized.flip.imp fun rule entry hrealizes => hrealizes.declaration_eq))
      simpa [Table.indexed, Table.Rule.indexed, Function.comp_def] using
        List.forall₂_eq_eq_eq ▸ hpairs
    rw [hdeclarations]
    simpa [List.zipIdx_map_snd, List.range_eq_range'] using hconfigured.map Prod.snd
  case outputs =>
    intro output houtput
    obtain ⟨field, -, -, -, hwildcard⟩ := exists_left_of_forall₂ hresolved.outputs houtput
    exact hwildcard

end Definition

end DecisionTables
