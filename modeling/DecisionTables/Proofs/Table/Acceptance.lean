import DecisionTables.Table.Compilation
import DecisionTables.Proofs.Definition.Reading
import DecisionTables.Proofs.Entries
import Mathlib.Data.List.Forall2
import Mathlib.Data.List.Nodup
import Mathlib.Data.List.Perm.Basic

/-!
# Accepted tables

A definition is accepted when compiling finds no defect, and then nothing of it is left out: its
inputs and outputs stand in their order under different names, every condition has the input of its
name, every result the output of its name, and every rule its place in the order of evaluation.
`Table.IsResolved` states this for a table and the definition in it.
-/

namespace DecisionTables

theorem exists_right_of_forall₂ {α β : Type} {R : α → β → Prop} {firsts : List α}
    {seconds : List β} (hall : List.Forall₂ R firsts seconds) {first : α}
    (hmem : first ∈ firsts) : ∃ second ∈ seconds, R first second := by
  induction hall with
  | nil => simp at hmem
  | @cons head other _ _ hhead _ ih =>
      rcases List.mem_cons.mp hmem with rfl | hrest
      · exact ⟨other, List.mem_cons_self, hhead⟩
      · obtain ⟨second, hsecond, hrelated⟩ := ih hrest
        exact ⟨second, List.mem_cons_of_mem _ hsecond, hrelated⟩

theorem exists_left_of_forall₂ {α β : Type} {R : α → β → Prop} {firsts : List α}
    {seconds : List β} (hall : List.Forall₂ R firsts seconds) {second : β}
    (hmem : second ∈ seconds) : ∃ first ∈ firsts, R first second :=
  exists_right_of_forall₂ hall.flip hmem

/-- Related lists are ordered alike where relatedness carries the order over. -/
theorem pairwise_of_forall₂ {α β : Type} {R : α → β → Prop} {S : β → β → Prop}
    {T U : α → α → Prop} {firsts : List α} {seconds : List β}
    (hall : List.Forall₂ R firsts seconds) (hseconds : seconds.Pairwise S)
    (hfirsts : firsts.Pairwise T)
    (hcarry : ∀ a b x y, R a x → R b y → S x y → T a b → U a b) : firsts.Pairwise U := by
  induction hall with
  | nil => exact .nil
  | cons hhead htail ih =>
      obtain ⟨hsecond, hseconds⟩ := List.pairwise_cons.mp hseconds
      obtain ⟨hfirst, hfirsts⟩ := List.pairwise_cons.mp hfirsts
      refine List.pairwise_cons.mpr ⟨?_, ih hseconds hfirsts⟩
      intro first hmem
      obtain ⟨second, hmem', hrelated⟩ := exists_right_of_forall₂ htail hmem
      exact hcarry _ _ _ _ hhead hrelated (hsecond second hmem') (hfirst first hmem)

/-- A configured rule with its position among the rules of the definition. -/
abbrev NumberedRule :=
  RuleEntry × Nat

/-- The order of evaluation: by priority, and by position among rules of the same priority. -/
def NumberedRule.Precedes (first second : NumberedRule) : Prop :=
  first.1.priority < second.1.priority ∨
    first.1.priority = second.1.priority ∧ first.2 < second.2

instance (first second : NumberedRule) : Decidable (first.Precedes second) :=
  inferInstanceAs (Decidable (_ ∨ _))

theorem NumberedRule.Precedes.not_symm {first second : NumberedRule}
    (hprecedes : first.Precedes second) : ¬ second.Precedes first := by
  simp only [Precedes, Int64.lt_iff_toInt_lt, ← Int64.toInt_inj] at hprecedes ⊢
  omega

namespace Table

/-- The input that a field stands for. -/
def Input.ofField (field : InputField) : Input :=
  ⟨field.name, Path.parse field.path, field.type⟩

def Output.Realizes (field : OutputField) (output : Output) : Prop :=
  output.name = field.name ∧ Path.read field.path = .ok output.path ∧
    output.path.hasWildcard = false

def Condition.Realizes (inputs : List Input) (entry : String × Json) (condition : Condition) :
    Prop :=
  condition.input ∈ inputs ∧ condition.input.name = entry.1 ∧
    condition.criteria = .ofJson entry.2

/-- A set of results holds for every output the value configured under its name, and no other. -/
structure ResultSet.Realizes (outputs : List Output) (functions : Registry)
    (entries : KeyMap Json) (results : ResultSet) : Prop where
  resultFor?_eq_some_iff : ∀ output ∈ outputs, ∀ result,
    results.resultFor? output = some result ↔
      ∃ value, entries.get? output.name = some value ∧ ResultValue.ofJson value = .ok result
  entry_valid : ∀ entry ∈ entries.entries, ∃ output ∈ outputs, output.name = entry.1 ∧
    ∃ result, compileResultValue functions entry.2 = .ok result

structure Rule.Realizes (inputs : List Input) (outputs : List Output) (functions : Registry)
    (configured : NumberedRule) (rule : Rule) : Prop where
  declaration_eq : rule.declaration = configured.2
  priority_eq : rule.priority = configured.1.priority
  conditions :
    List.Forall₂ (Condition.Realizes inputs) configured.1.conditions.entries rule.conditions
  results : ResultSet.Realizes outputs functions configured.1.results rule.results

/-- Items whose names are fresh behind one more name have other names than that one. -/
theorem nodup_names_cons {α : Type} {name : α → String} {seen : List String} {first : String}
    {head : α} {rest : List α} (hname : name head = first) (hseen : first ∉ seen)
    (hnodup : (rest.map name).Nodup) (hfresh : ∀ item ∈ rest, name item ∉ first :: seen) :
    ((head :: rest).map name).Nodup ∧ ∀ item ∈ head :: rest, name item ∉ seen := by
  subst hname
  have hhead : name head ∉ rest.map name := by
    intro hmem
    obtain ⟨item, hitem, heq⟩ := List.mem_map.mp hmem
    exact hfresh item hitem (by simp [heq])
  refine ⟨List.nodup_cons.mpr ⟨hhead, hnodup⟩, List.forall_mem_cons.mpr ⟨hseen, ?_⟩⟩
  intro item hitem hmem
  exact hfresh item hitem (List.mem_cons_of_mem _ hmem)

theorem compileInputs_spec {seen : List String} {fields : List InputField}
    (hdefects : (compileInputs seen fields).defects = []) :
    (compileInputs seen fields).value = fields.map Input.ofField ∧
      (fields.map InputField.name).Nodup ∧ ∀ field ∈ fields, field.name ∉ seen := by
  induction fields generalizing seen with
  | nil => simp [compileInputs]
  | cons field rest ih =>
      unfold compileInputs at hdefects ⊢
      by_cases hseen : field.name ∈ seen
      · simp [hseen] at hdefects
      · simp only [hseen, if_false, Reading.defects_bind, Reading.defects_pure,
          List.append_nil] at hdefects
        obtain ⟨hvalue, hnodup, hfresh⟩ := ih hdefects
        have hnames := nodup_names_cons rfl hseen hnodup hfresh
        exact ⟨by simp [hseen, hvalue, Input.ofField], hnames⟩

theorem compilePath_spec {place : Place} {source : String}
    (hdefects : (compilePath place source).defects = []) :
    ∃ path, Path.read source = .ok path ∧ (compilePath place source).value = some path := by
  unfold compilePath at hdefects ⊢
  cases hread : Path.read source with
  | error fault => simp [hread] at hdefects
  | ok path => exact ⟨path, rfl, rfl⟩

theorem compileOutput_spec {field : OutputField}
    (hdefects : (compileOutput field).defects = []) :
    ∃ output, (compileOutput field).value = some output ∧ Output.Realizes field output := by
  unfold compileOutput at hdefects ⊢
  simp only [Reading.defects_bind, List.append_eq_nil_iff] at hdefects
  obtain ⟨path, hread, hvalue⟩ := compilePath_spec hdefects.1
  have hplace := hdefects.2
  rw [hvalue] at hplace
  by_cases hwildcard : path.hasWildcard
  · simp [hwildcard] at hplace
  · refine ⟨⟨field.name, path⟩, ?_, rfl, hread, by simpa using hwildcard⟩
    rw [Reading.value_bind, hvalue]
    simp [hwildcard]

theorem compileOutputs_spec {seen : List String} {fields : List OutputField}
    (hdefects : (compileOutputs seen fields).defects = []) :
    List.Forall₂ Output.Realizes fields (compileOutputs seen fields).value ∧
      ((compileOutputs seen fields).value.map Output.name).Nodup ∧
      ∀ output ∈ (compileOutputs seen fields).value, output.name ∉ seen := by
  induction fields generalizing seen with
  | nil => simp [compileOutputs]
  | cons field rest ih =>
      unfold compileOutputs at hdefects ⊢
      by_cases hseen : field.name ∈ seen
      · simp [hseen] at hdefects
      · simp only [hseen, if_false, Reading.defects_bind, Reading.defects_pure,
          List.append_nil, List.append_eq_nil_iff] at hdefects
        obtain ⟨output, hvalue, hrealizes⟩ := compileOutput_spec hdefects.1
        obtain ⟨hall, hnodup, hfresh⟩ := ih hdefects.2
        simp only [hseen, if_false, Reading.value_bind, Reading.value_pure, hvalue,
          Option.toList_some, List.singleton_append]
        exact ⟨.cons hrealizes hall, nodup_names_cons hrealizes.1 hseen hnodup hfresh⟩

theorem compileCondition_spec {inputs : List Input} {ruleNumber : Nat} {entry : String × Json}
    (hdefects : (compileCondition inputs ruleNumber entry).defects = []) :
    ∃ condition, (compileCondition inputs ruleNumber entry).value = some condition ∧
      Condition.Realizes inputs entry condition := by
  unfold compileCondition at hdefects ⊢
  cases hfind : findInput? inputs entry.1 with
  | none => simp [hfind] at hdefects
  | some input =>
      have hname := List.find?_some hfind
      exact ⟨_, rfl, List.mem_of_find?_eq_some hfind, by simpa using hname, rfl⟩

/-- What an entry of a result map becomes before the results are put in order. -/
def ResultSet.Assigns (outputs : List Output) (functions : Registry) (entry : String × Json)
    (result : Output × ResultValue) : Prop :=
  findOutput? outputs entry.1 = some result.1 ∧
    compileResultValue functions entry.2 = .ok result.2

theorem compileResult_spec {place : Place} {outputs : List Output} {functions : Registry}
    {entry : String × Json}
    (hdefects : (compileResult place outputs functions entry).defects = []) :
    ∃ result, (compileResult place outputs functions entry).value = some result ∧
      ResultSet.Assigns outputs functions entry result := by
  unfold compileResult at hdefects ⊢
  cases hfind : findOutput? outputs entry.1 with
  | none => simp [hfind] at hdefects
  | some output =>
      cases hvalue : compileResultValue functions entry.2 with
      | error fault => simp [hfind, hvalue] at hdefects
      | ok result => exact ⟨_, rfl, hfind, hvalue⟩

theorem ofJson_of_compileResultValue {functions : Registry} {value : Json}
    {result : ResultValue} (hvalue : compileResultValue functions value = .ok result) :
    ResultValue.ofJson value = .ok result := by
  unfold compileResultValue at hvalue
  split at hvalue
  · simp at hvalue
  · simp_all
  · split at hvalue <;> simp_all

theorem ResultSet.Realizes.isSome_resultFor? {outputs : List Output} {functions : Registry}
    {entries : KeyMap Json} {results : ResultSet}
    (hrealizes : results.Realizes outputs functions entries) {output : Output}
    (houtput : output ∈ outputs) :
    (results.resultFor? output).isSome = (entries.get? output.name).isSome := by
  have hresult := hrealizes.resultFor?_eq_some_iff output houtput
  rw [Bool.eq_iff_iff, Option.isSome_iff_exists, Option.isSome_iff_exists]
  constructor
  · rintro ⟨result, hfor⟩
    obtain ⟨value, hvalue, -⟩ := (hresult result).mp hfor
    exact ⟨value, hvalue⟩
  · rintro ⟨value, hvalue⟩
    obtain ⟨_, -, -, result, hcompiled⟩ :=
      hrealizes.entry_valid _ (Entries.mem_of_get? hvalue)
    exact ⟨result, (hresult result).mpr ⟨value, hvalue, ofJson_of_compileResultValue hcompiled⟩⟩

theorem name_of_findOutput? {outputs : List Output} {name : String} {output : Output}
    (hfind : findOutput? outputs name = some output) : output ∈ outputs ∧ output.name = name :=
  ⟨List.mem_of_find?_eq_some hfind, by simpa using List.find?_some hfind⟩

theorem resultFor?_cons (head : Output × ResultValue) (rest : ResultSet) (output : Output) :
    ResultSet.resultFor? (head :: rest) output =
      if head.1 = output then some head.2 else ResultSet.resultFor? rest output := by
  by_cases h : head.1 = output <;> simp [ResultSet.resultFor?, h]

theorem mem_of_resultFor? {results : ResultSet} {output : Output} {result : ResultValue}
    (hresult : results.resultFor? output = some result) : (output, result) ∈ results := by
  obtain ⟨⟨other, found⟩, hfind, rfl⟩ := Option.map_eq_some_iff.mp hresult
  obtain rfl : other = output := by simpa using List.find?_some hfind
  exact List.mem_of_find?_eq_some hfind

theorem resultFor?_of_assigns {outputs : List Output} {functions : Registry}
    {entries : List (String × Json)} {assigned : ResultSet} {output : Output}
    (hnames : (outputs.map Output.name).Nodup)
    (hassigned : List.Forall₂ (ResultSet.Assigns outputs functions) entries assigned)
    (houtput : output ∈ outputs) (result : ResultValue) :
    assigned.resultFor? output = some result ↔
      ∃ value, Entries.get? output.name entries = some value ∧
        ResultValue.ofJson value = .ok result := by
  induction hassigned with
  | nil => simp [ResultSet.resultFor?, Entries.get?]
  | @cons entry head entries rest hhead _ ih =>
      obtain ⟨hmem, hname⟩ := name_of_findOutput? hhead.1
      rw [resultFor?_cons, Entries.get?]
      by_cases h : head.1 = output
      · have hkey : entry.1 = output.name := by rw [← hname, h]
        simp [h, hkey, ofJson_of_compileResultValue hhead.2]
      -- Different outputs have different names, so the entry is for another output.
      · have hkey : entry.1 ≠ output.name := fun heq =>
          h (List.inj_on_of_nodup_map hnames hmem houtput (hname.trans heq))
        simpa [h, hkey] using ih

theorem resultFor?_inOutputOrder (outputs : List Output) (results : ResultSet)
    (output : Output) :
    (inOutputOrder outputs results).resultFor? output =
      if output ∈ outputs then results.resultFor? output else none := by
  induction outputs with
  | nil => rfl
  | cons head rest ih =>
      unfold inOutputOrder at ih ⊢
      cases hhead : results.resultFor? head with
      | none =>
          rw [List.filterMap_cons_none (by simp [hhead]), ih]
          by_cases h : output = head
          · subst h
            simp [hhead]
          · simp [h]
      | some result =>
          rw [List.filterMap_cons_some (b := (head, result)) (by simp [hhead]),
            resultFor?_cons, ih]
          by_cases h : head = output
          · subst h
            simp [hhead]
          · simp [h, Ne.symm h]

theorem compileResults_spec {place : Place} {outputs : List Output} {functions : Registry}
    {entries : KeyMap Json} (hnames : (outputs.map Output.name).Nodup)
    (hdefects : (compileResults place outputs functions entries).defects = []) :
    ResultSet.Realizes outputs functions entries
      (compileResults place outputs functions entries).value := by
  unfold compileResults at hdefects ⊢
  simp only [Reading.defects_bind, Reading.defects_pure, List.append_nil] at hdefects
  have hassigned := Reading.forall₂_filterMap_of_all
    (fun _ _ => compileResult_spec) hdefects
  constructor
  · intro output houtput result
    rw [Reading.value_bind, Reading.value_pure, resultFor?_inOutputOrder, if_pos houtput]
    exact resultFor?_of_assigns hnames hassigned houtput result
  · intro entry hentry
    obtain ⟨result, -, hfind, hvalue⟩ := exists_right_of_forall₂ hassigned hentry
    obtain ⟨houtput, hname⟩ := name_of_findOutput? hfind
    exact ⟨result.1, houtput, hname, result.2, hvalue⟩

theorem compileRule_spec {inputs : List Input} {outputs : List Output} {functions : Registry}
    {declaration : Nat} {entry : RuleEntry} (hnames : (outputs.map Output.name).Nodup)
    (hdefects : (compileRule inputs outputs functions declaration entry).defects = []) :
    Rule.Realizes inputs outputs functions (entry, declaration)
      (compileRule inputs outputs functions declaration entry).value := by
  unfold compileRule at hdefects ⊢
  simp only [Reading.defects_bind, Reading.defects_pure, List.append_nil,
    List.append_eq_nil_iff] at hdefects
  exact
    { declaration_eq := rfl
      priority_eq := rfl
      conditions := Reading.forall₂_filterMap_of_all (fun _ _ => compileCondition_spec)
        hdefects.1
      results := compileResults_spec hnames hdefects.2 }

/-- Everything in the table comes from its definition, and everything in the definition is in it. -/
structure IsResolved (table : Table) : Prop where
  target_eq : Path.read table.definition.path = .ok table.target
  inputs_eq : table.inputs = table.definition.inputs.map Input.ofField
  inputNames : (table.definition.inputs.map InputField.name).Nodup
  outputs : List.Forall₂ Output.Realizes table.definition.outputs table.outputs
  outputNames : (table.outputs.map Output.name).Nodup
  rules : ∃ declared,
    List.Forall₂ (Rule.Realizes table.inputs table.outputs table.functions)
      table.definition.rules.zipIdx declared ∧
    table.rules = declared.mergeSort Rule.precedes
  defaults : Option.Rel (ResultSet.Realizes table.outputs table.functions)
    table.definition.defaults table.defaults

theorem Rule.precedes_iff {first second : Rule} :
    first.precedes second = true ↔ first.priority < second.priority ∨
      first.priority = second.priority ∧ first.declaration ≤ second.declaration := by
  simp [Rule.precedes]

theorem Rule.precedes_total (first second : Rule) :
    (first.precedes second || second.precedes first) = true := by
  simp only [Bool.or_eq_true, Rule.precedes_iff, Int64.lt_iff_toInt_lt, ← Int64.toInt_inj]
  omega

theorem Rule.precedes_trans (first second third : Rule) (hfirst : first.precedes second = true)
    (hsecond : second.precedes third = true) : first.precedes third = true := by
  simp only [Rule.precedes_iff, Int64.lt_iff_toInt_lt, ← Int64.toInt_inj] at hfirst hsecond ⊢
  omega

theorem IsResolved.nodup_inputs {table : Table} (hresolved : table.IsResolved) :
    (table.inputs.map Input.name).Nodup := by
  have hfields : Input.name ∘ Input.ofField = InputField.name := rfl
  rw [hresolved.inputs_eq, List.map_map, hfields]
  exact hresolved.inputNames

/-- The rules of a table are those of its definition, each once, in the order of evaluation. -/
theorem IsResolved.rules_in_order {table : Table} (hresolved : table.IsResolved) :
    ∃ configured : List NumberedRule,
      configured.Perm table.definition.rules.zipIdx ∧
      List.Forall₂ (Rule.Realizes table.inputs table.outputs table.functions)
        configured table.rules ∧
      configured.Pairwise NumberedRule.Precedes := by
  obtain ⟨declared, hdeclared, hrules⟩ := hresolved.rules
  have hperm : table.rules.Perm declared := hrules ▸ List.mergeSort_perm declared Rule.precedes
  have hsorted : table.rules.Pairwise fun first second => first.precedes second = true :=
    hrules ▸ List.pairwise_mergeSort Rule.precedes_trans Rule.precedes_total declared
  obtain ⟨configured, hrealized, hconfigured⟩ := List.perm_comp_forall₂ hperm hdeclared.flip
  refine ⟨configured, hconfigured, hrealized.flip, ?_⟩
  have hpositions : (configured.map Prod.snd).Nodup := by
    rw [(hconfigured.map Prod.snd).nodup_iff, List.zipIdx_map_snd]
    exact List.nodup_range'
  refine pairwise_of_forall₂ hrealized.flip hsorted (List.pairwise_map.mp hpositions) ?_
  intro first second firstRule secondRule hfirst hsecond hprecedes hne
  rw [Rule.precedes_iff, hfirst.priority_eq, hsecond.priority_eq, hfirst.declaration_eq,
    hsecond.declaration_eq] at hprecedes
  rcases hprecedes with hlt | ⟨heq, hle⟩
  · exact .inl hlt
  · exact .inr ⟨heq, Nat.lt_of_le_of_ne hle hne⟩

theorem IsResolved.input_mem {table : Table} (hresolved : table.IsResolved) {rule : Rule}
    (hrule : rule ∈ table.rules) {condition : Condition}
    (hcondition : condition ∈ rule.conditions) :
    condition.input ∈ table.inputs := by
  obtain ⟨_, -, hrealized, -⟩ := hresolved.rules_in_order
  obtain ⟨_, -, hrealizes⟩ := exists_left_of_forall₂ hrealized hrule
  obtain ⟨_, -, hinput, -⟩ := exists_left_of_forall₂ hrealizes.conditions hcondition
  exact hinput

end Table

namespace Definition

variable {definition : Definition} {functions : Registry} {options : TableOptions}
  {table : Table}

theorem resolve_of_compile (haccepted : definition.compile functions options = .ok table) :
    definition.resolve functions options = ⟨some table, []⟩ := by
  unfold compile at haccepted
  split at haccepted
  · simp_all
  · simp at haccepted

theorem compile_eq_ok (hvalue : (definition.resolve functions options).value = some table)
    (hdefects : (definition.resolve functions options).defects = []) :
    definition.compile functions options = .ok table := by
  unfold compile
  cases hresolve : definition.resolve functions options with
  | mk value defects => simp_all

theorem exists_of_compile_isOk (hok : (definition.compile functions options).isOk = true) :
    ∃ table, definition.compile functions options = .ok table := by
  cases hcompile : definition.compile functions options with
  | ok table => exact ⟨table, rfl⟩
  | error defects => simp [hcompile, Except.isOk, Except.toBool] at hok

/-- The table that is made of a definition once the target path is read. -/
def tableAt (definition : Definition) (target : Path) (functions : Registry)
    (options : TableOptions) : Table :=
  let inputs := (Table.compileInputs [] definition.inputs).value
  let outputs := (Table.compileOutputs [] definition.outputs).value
  let rules := definition.rules.zipIdx.map fun (entry, declaration) =>
    (Table.compileRule inputs outputs functions declaration entry).value
  { definition, target, inputs, outputs, rules := rules.mergeSort Table.Rule.precedes,
    defaults := (Table.compileDefaults outputs functions definition.defaults).value,
    options, functions }

/-- What a configured rule compiles to at its position. -/
def ruleAt (definition : Definition) (functions : Registry) (rule : NumberedRule) : Table.Rule :=
  (Table.compileRule (Table.compileInputs [] definition.inputs).value
    (Table.compileOutputs [] definition.outputs).value functions rule.2 rule.1).value

theorem rules_tableAt (definition : Definition) (target : Path) (functions : Registry)
    (options : TableOptions) :
    (definition.tableAt target functions options).rules =
      (definition.rules.zipIdx.map (definition.ruleAt functions)).mergeSort Table.Rule.precedes :=
  rfl

theorem resolve_value (definition : Definition) (functions : Registry) (options : TableOptions) :
    (definition.resolve functions options).value =
      (Table.compilePath .table definition.path).value.map fun target =>
        definition.tableAt target functions options := by
  simp only [resolve, tableAt, Reading.value_bind, Reading.value_pure, Reading.value_all,
    List.map_map]
  rfl

/-- Acceptance in full: no defect is found, and this is the table. -/
theorem compile_eq_ok_iff :
    definition.compile functions options = .ok table ↔
      (definition.resolve functions options).defects = [] ∧
        ∃ target, Path.read definition.path = .ok target ∧
          table = definition.tableAt target functions options := by
  have hvalue := resolve_value definition functions options
  constructor
  · intro haccepted
    have hresolve := resolve_of_compile haccepted
    rw [hresolve] at hvalue ⊢
    obtain ⟨target, htarget, htable⟩ := Option.map_eq_some_iff.mp hvalue.symm
    refine ⟨rfl, target, ?_, htable.symm⟩
    unfold Table.compilePath at htarget
    cases hread : Path.read definition.path with
    | error fault => simp [hread] at htarget
    | ok path =>
        obtain rfl : path = target := by simpa [hread] using htarget
        rfl
  · rintro ⟨hdefects, target, hread, rfl⟩
    apply compile_eq_ok _ hdefects
    simp [hvalue, Table.compilePath, hread]

/-- What compiling a definition without a defect comes to. -/
theorem compile_spec (haccepted : definition.compile functions options = .ok table) :
    table.definition = definition ∧ table.functions = functions ∧ table.options = options ∧
      table.IsResolved := by
  obtain ⟨hdefects, target, hread, rfl⟩ := compile_eq_ok_iff.mp haccepted
  unfold resolve at hdefects
  simp only [Reading.defects_bind, Reading.defects_pure, List.append_nil,
    List.append_eq_nil_iff] at hdefects
  obtain ⟨-, hinputs, houtputs, hrules, hdefaults⟩ := hdefects
  obtain ⟨hinputsValue, hinputNames, -⟩ := Table.compileInputs_spec hinputs
  obtain ⟨houtputsAll, houtputNames, -⟩ := Table.compileOutputs_spec houtputs
  refine ⟨rfl, rfl, rfl, ?_⟩
  constructor
  case target_eq => exact hread
  case inputs_eq => exact hinputsValue
  case inputNames => exact hinputNames
  case outputs => exact houtputsAll
  case outputNames => exact houtputNames
  case rules =>
    have hall := Reading.forall₂_value_of_all
      (R := Table.Rule.Realizes (Table.compileInputs [] definition.inputs).value
        (Table.compileOutputs [] definition.outputs).value functions)
      (fun _ _ hrule => Table.compileRule_spec houtputNames hrule) hrules
    rw [Reading.value_all, List.map_map] at hall
    exact ⟨_, hall, rfl⟩
  case defaults =>
    unfold tableAt
    unfold Table.compileDefaults at hdefaults ⊢
    cases hconfigured : definition.defaults with
    | none => exact .none
    | some entries =>
        simp only [hconfigured, Reading.defects_bind, Reading.defects_pure,
          List.append_nil] at hdefaults
        exact .some (Table.compileResults_spec houtputNames hdefaults)

theorem compile_withOptions (other : TableOptions)
    (haccepted : definition.compile functions options = .ok table) :
    definition.compile functions other = .ok { table with options := other } := by
  obtain ⟨hdefects, target, hread, rfl⟩ := compile_eq_ok_iff.mp haccepted
  exact compile_eq_ok_iff.mpr ⟨hdefects, target, hread, rfl⟩

theorem compile_withStrategy (strategy : Strategy)
    (haccepted : definition.compile functions options = .ok table) :
    { definition with strategy }.compile functions options =
      .ok { table with definition.strategy := strategy } := by
  obtain ⟨hdefects, target, hread, rfl⟩ := compile_eq_ok_iff.mp haccepted
  exact compile_eq_ok_iff.mpr ⟨hdefects, target, hread, rfl⟩

/-- Another readable target path changes the target and nothing else. -/
theorem compile_withPath {source : String} {target : Path} (hread : Path.read source = .ok target)
    (haccepted : definition.compile functions options = .ok table) :
    { definition with path := source }.compile functions options =
      .ok { table with definition.path := source, target := target } := by
  obtain ⟨hdefects, other, hother, rfl⟩ := compile_eq_ok_iff.mp haccepted
  refine compile_eq_ok_iff.mpr ⟨?_, target, hread, rfl⟩
  simp only [resolve, Table.compilePath, hother, hread] at hdefects ⊢
  exact hdefects

end Definition

end DecisionTables
