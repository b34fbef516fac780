import DecisionTables.Proofs.Table.WellFormedness

/-!
# References to inputs and outputs

Conditions and results refer to inputs and outputs by name.  The references are looked up among the
inputs and outputs that are left when those with a defect of their own are dropped.  A repeated name
is dropped behind its first declaration, so it is left, and an input is kept whatever its path is.
An output is dropped with its path, though, and since later declarations of its name are repeats,
the whole name is gone.  So exactly the undeclared inputs are reported as undefined, but of the
outputs those as well whose first declaration has an unusable path.
-/

namespace DecisionTables

/-- The path can be read and leads to a single place. -/
def OutputField.IsUsable (field : OutputField) : Prop :=
  ∃ path, Path.read field.path = .ok path ∧ path.hasWildcard = false

theorem OutputField.isUsable_iff {field : OutputField} :
    field.IsUsable ↔ (Path.read field.path).toOption.any (! ·.hasWildcard) = true := by
  unfold IsUsable
  cases Path.read field.path <;> simp [Except.toOption]

instance (field : OutputField) : Decidable field.IsUsable :=
  decidable_of_iff' _ OutputField.isUsable_iff

namespace Definition

/-- The rule that defects call by the number. -/
def ruleNumbered? (definition : Definition) : Nat → Option RuleEntry
  | 0 => none
  | index + 1 => definition.rules[index]?

def resultsAt? (definition : Definition) : Place → Option (KeyMap Json)
  | .rule number => (definition.ruleNumbered? number).map RuleEntry.results
  | .defaultResults => definition.defaults
  | _ => none

/-- The first output that is declared under the name, which is the one that counts. -/
def firstOutput? (definition : Definition) (name : String) : Option OutputField :=
  definition.outputs.find? fun field => field.name = name

/-- The rule of the number has a condition under the name. -/
def TestsInput (definition : Definition) (number : Nat) (name : String) : Prop :=
  ∃ rule ∈ definition.ruleNumbered? number, name ∈ rule.conditions.keys

instance (definition : Definition) (number : Nat) (name : String) :
    Decidable (definition.TestsInput number name) :=
  inferInstanceAs
    (Decidable (∃ rule ∈ definition.ruleNumbered? number, name ∈ rule.conditions.keys))

/-- The results at the place have one under the name. -/
def SetsOutput (definition : Definition) (place : Place) (name : String) : Prop :=
  ∃ results ∈ definition.resultsAt? place, name ∈ results.keys

instance (definition : Definition) (place : Place) (name : String) :
    Decidable (definition.SetsOutput place name) :=
  inferInstanceAs (Decidable (∃ results ∈ definition.resultsAt? place, name ∈ results.keys))

/-- The name is declared, but what counts as its declaration has no usable path. -/
def HasUnusableOutput (definition : Definition) (name : String) : Prop :=
  ∃ field ∈ definition.firstOutput? name, ¬ field.IsUsable

instance (definition : Definition) (name : String) :
    Decidable (definition.HasUnusableOutput name) :=
  inferInstanceAs (Decidable (∃ field ∈ definition.firstOutput? name, ¬ field.IsUsable))

end Definition

/-- The defect is a reference to something that is not there. -/
def Defect.IsUndefined : Defect → Prop
  | undefinedInput _ _ => True
  | undefinedOutput _ _ => True
  | _ => False

/-! ## Declarations -/

namespace Table

variable {seen : List String} {name : String} {defect : Defect}

theorem not_isUndefined_of_mem_compilePath {place : Place} {source : String}
    (hdefect : defect ∈ (compilePath place source).defects) : ¬ defect.IsUndefined := by
  unfold compilePath at hdefect
  cases hread : Path.read source with
  | ok path => simp [hread] at hdefect
  | error fault =>
      obtain rfl : defect = .invalidPath place source fault := by simpa [hread] using hdefect
      exact id

theorem not_isUndefined_of_mem_compileInputs {fields : List InputField}
    (hdefect : defect ∈ (compileInputs seen fields).defects) : ¬ defect.IsUndefined := by
  induction fields generalizing seen with
  | nil => simp [compileInputs] at hdefect
  | cons field rest ih =>
      by_cases hseen : field.name ∈ seen
      · simp only [compileInputs, hseen, if_true, Reading.defects_bind, Reading.defects_report,
          List.cons_append, List.nil_append, List.mem_cons] at hdefect
        rcases hdefect with rfl | hdefect
        · exact id
        · exact ih hdefect
      · simp only [compileInputs, hseen, if_false, Reading.defects_bind, Reading.defects_pure,
          List.append_nil] at hdefect
        exact ih hdefect

theorem not_isUndefined_of_mem_compileOutput {field : OutputField}
    (hdefect : defect ∈ (compileOutput field).defects) : ¬ defect.IsUndefined := by
  unfold compileOutput at hdefect
  rw [Reading.defects_bind, List.mem_append] at hdefect
  rcases hdefect with hdefect | hdefect
  · exact not_isUndefined_of_mem_compilePath hdefect
  · split at hdefect
    · simp at hdefect
    · split at hdefect
      · obtain rfl : defect = .wildcardOutput field.name field.path := by simpa using hdefect
        exact id
      · simp at hdefect

theorem not_isUndefined_of_mem_compileOutputs {fields : List OutputField}
    (hdefect : defect ∈ (compileOutputs seen fields).defects) : ¬ defect.IsUndefined := by
  induction fields generalizing seen with
  | nil => simp [compileOutputs] at hdefect
  | cons field rest ih =>
      by_cases hseen : field.name ∈ seen
      · simp only [compileOutputs, hseen, if_true, Reading.defects_bind, Reading.defects_report,
          List.cons_append, List.nil_append, List.mem_cons] at hdefect
        rcases hdefect with rfl | hdefect
        · exact id
        · exact ih hdefect
      · simp only [compileOutputs, hseen, if_false, Reading.defects_bind, Reading.defects_pure,
          List.append_nil, List.mem_append] at hdefect
        rcases hdefect with hdefect | hdefect
        · exact not_isUndefined_of_mem_compileOutput hdefect
        · exact ih hdefect

/-- Every declared input is left under its name, whatever its path is. -/
theorem mem_names_compileInputs {fields : List InputField} :
    name ∈ (compileInputs seen fields).value.map Input.name ↔
      name ∈ fields.map InputField.name ∧ name ∉ seen := by
  induction fields generalizing seen with
  | nil => simp [compileInputs]
  | cons field rest ih =>
      by_cases hseen : field.name ∈ seen
      · simp only [compileInputs, hseen, if_true, Reading.value_bind, ih, List.map_cons,
          List.mem_cons]
        constructor
        · rintro ⟨hrest, hfresh⟩
          exact ⟨.inr hrest, hfresh⟩
        · rintro ⟨rfl | hrest, hfresh⟩
          · exact absurd hseen hfresh
          · exact ⟨hrest, hfresh⟩
      · simp only [compileInputs, hseen, if_false, Reading.value_bind, Reading.value_pure,
          List.map_cons, List.mem_cons, ih, not_or]
        constructor
        · rintro (rfl | ⟨hrest, -, hfresh⟩)
          · exact ⟨.inl rfl, hseen⟩
          · exact ⟨.inr hrest, hfresh⟩
        · rintro ⟨hname, hfresh⟩
          by_cases heq : name = field.name
          · exact .inl heq
          · exact .inr ⟨hname.resolve_left heq, heq, hfresh⟩

theorem mem_names_compileOutput {field : OutputField} :
    name ∈ (compileOutput field).value.toList.map Output.name ↔
      name = field.name ∧ field.IsUsable := by
  unfold compileOutput compilePath OutputField.IsUsable
  cases hread : Path.read field.path with
  | error fault => simp
  | ok path => cases hwildcard : path.hasWildcard <;> simp [hwildcard]

/-- An output is left under its name when the first of its declarations is usable. -/
theorem mem_names_compileOutputs {fields : List OutputField} :
    name ∈ (compileOutputs seen fields).value.map Output.name ↔
      name ∉ seen ∧ ∃ field, fields.find? (fun field => field.name = name) = some field ∧
        field.IsUsable := by
  induction fields generalizing seen with
  | nil => simp [compileOutputs]
  | cons field rest ih =>
      by_cases hseen : field.name ∈ seen
      · simp only [compileOutputs, hseen, if_true, Reading.value_bind, ih]
        apply and_congr_right
        intro hfresh
        have hother : field.name ≠ name := by
          rintro rfl
          exact hfresh hseen
        simp [hother]
      · simp only [compileOutputs, hseen, if_false, Reading.value_bind, Reading.value_pure,
          List.map_append, List.mem_append, mem_names_compileOutput, ih]
        by_cases heq : field.name = name
        · subst heq
          simp [hseen]
        · simp [heq, Ne.symm heq]

/-! ## References -/

variable {inputs : List Input} {outputs : List Output} {functions : Registry} {place : Place}
  {ruleNumber : Nat}

theorem mem_compileCondition_defects_iff {entry : String × Json} :
    defect ∈ (compileCondition inputs ruleNumber entry).defects ↔
      entry.1 ∉ inputs.map Input.name ∧ defect = .undefinedInput ruleNumber entry.1 := by
  rw [defects_compileCondition]
  split_ifs with hnamed <;> simp [hnamed]

theorem mem_compileResult_defects_iff {entry : String × Json} :
    defect ∈ (compileResult place outputs functions entry).defects ↔
      (entry.1 ∉ outputs.map Output.name ∧ defect = .undefinedOutput place entry.1) ∨
        entry.1 ∈ outputs.map Output.name ∧
          ∃ fault, compileResultValue functions entry.2 = .error fault ∧
            defect = .invalidResult place entry.1 fault := by
  rw [defects_compileResult]
  split_ifs with hnamed
  · cases compileResultValue functions entry.2 <;> simp [hnamed]
  · simp [hnamed]

theorem mem_compileResults_defects_iff {results : KeyMap Json} :
    defect ∈ (compileResults place outputs functions results).defects ↔
      ∃ entry ∈ results.entries,
        defect ∈ (compileResult place outputs functions entry).defects := by
  simp [compileResults]

theorem undefinedOutput_mem_compileResults_iff {other : Place} {results : KeyMap Json} :
    .undefinedOutput other name ∈ (compileResults place outputs functions results).defects ↔
      other = place ∧ name ∈ results.keys ∧ name ∉ outputs.map Output.name := by
  simp only [mem_compileResults_defects_iff, mem_compileResult_defects_iff, KeyMap.keys,
    Defect.undefinedOutput.injEq, reduceCtorEq, and_false, exists_false, or_false]
  constructor
  · rintro ⟨entry, hentry, hundefined, rfl, rfl⟩
    exact ⟨rfl, List.mem_map_of_mem hentry, hundefined⟩
  · rintro ⟨rfl, hname, hundefined⟩
    obtain ⟨entry, hentry, rfl⟩ := List.mem_map.mp hname
    exact ⟨entry, hentry, hundefined, rfl, rfl⟩

theorem undefinedInput_not_mem_compileResults {number : Nat} {results : KeyMap Json} :
    .undefinedInput number name ∉ (compileResults place outputs functions results).defects := by
  simp [mem_compileResults_defects_iff, mem_compileResult_defects_iff]

theorem undefinedInput_mem_compileRule_iff {number declaration : Nat} {entry : RuleEntry} :
    .undefinedInput number name ∈
        (compileRule inputs outputs functions declaration entry).defects ↔
      number = declaration + 1 ∧ name ∈ entry.conditions.keys ∧ name ∉ inputs.map Input.name := by
  simp only [compileRule, Reading.defects_bind, Reading.defects_pure, Reading.defects_all,
    List.append_nil, List.mem_append, undefinedInput_not_mem_compileResults, or_false,
    List.mem_flatMap, List.mem_map, KeyMap.keys]
  constructor
  · rintro ⟨_, ⟨condition, hcondition, rfl⟩, hdefect⟩
    obtain ⟨hundefined, hdefect⟩ := mem_compileCondition_defects_iff.mp hdefect
    obtain ⟨rfl, rfl⟩ := Defect.undefinedInput.inj hdefect
    exact ⟨rfl, ⟨condition, hcondition, rfl⟩, by simpa using hundefined⟩
  · rintro ⟨rfl, ⟨condition, hcondition, rfl⟩, hundefined⟩
    exact ⟨_, ⟨condition, hcondition, rfl⟩,
      mem_compileCondition_defects_iff.mpr ⟨by simpa using hundefined, rfl⟩⟩

theorem undefinedOutput_mem_compileRule_iff {declaration : Nat} {entry : RuleEntry} :
    .undefinedOutput place name ∈
        (compileRule inputs outputs functions declaration entry).defects ↔
      place = .rule (declaration + 1) ∧ name ∈ entry.results.keys ∧
        name ∉ outputs.map Output.name := by
  have hconditions : .undefinedOutput place name ∉
      (Reading.all (entry.conditions.entries.map
        (compileCondition inputs (declaration + 1)))).defects := by
    simp [mem_compileCondition_defects_iff]
  simp only [compileRule, Reading.defects_bind, Reading.defects_pure, List.append_nil,
    List.mem_append, hconditions, false_or, undefinedOutput_mem_compileResults_iff]

theorem undefinedInput_not_mem_compileDefaults {number : Nat} {defaults : Option (KeyMap Json)} :
    .undefinedInput number name ∉ (compileDefaults outputs functions defaults).defects := by
  cases defaults with
  | none => simp [compileDefaults]
  | some results => simp [compileDefaults, undefinedInput_not_mem_compileResults]

theorem undefinedOutput_mem_compileDefaults_iff {defaults : Option (KeyMap Json)} :
    .undefinedOutput place name ∈ (compileDefaults outputs functions defaults).defects ↔
      ∃ results, defaults = some results ∧ place = .defaultResults ∧ name ∈ results.keys ∧
        name ∉ outputs.map Output.name := by
  cases defaults with
  | none => simp [compileDefaults]
  | some results => simp [compileDefaults, undefinedOutput_mem_compileResults_iff]

end Table

namespace Definition

variable {definition : Definition} {functions : Registry} {options : TableOptions}
  {name : String} {defects : List Defect}

theorem resolve_defects_of_compile
    (hrefused : definition.compile functions options = .error defects) :
    (definition.resolve functions options).defects = defects := by
  unfold compile at hrefused
  split at hrefused
  · contradiction
  · rename_i hresolve
    rw [hresolve]
    exact Except.error.inj hrefused

/-- Only the rules and the defaults refer to anything. -/
theorem mem_resolve_defects_iff {defect : Defect} (hundefined : defect.IsUndefined) :
    defect ∈ (definition.resolve functions options).defects ↔
      (∃ index entry, definition.rules[index]? = some entry ∧
        defect ∈ (Table.compileRule (Table.compileInputs [] definition.inputs).value
          (Table.compileOutputs [] definition.outputs).value functions index entry).defects) ∨
      defect ∈ (Table.compileDefaults (Table.compileOutputs [] definition.outputs).value functions
        definition.defaults).defects := by
  have hpath : defect ∉ (Table.compilePath .table definition.path).defects :=
    fun hdefect => Table.not_isUndefined_of_mem_compilePath hdefect hundefined
  have hinputs : defect ∉ (Table.compileInputs [] definition.inputs).defects :=
    fun hdefect => Table.not_isUndefined_of_mem_compileInputs hdefect hundefined
  have houtputs : defect ∉ (Table.compileOutputs [] definition.outputs).defects :=
    fun hdefect => Table.not_isUndefined_of_mem_compileOutputs hdefect hundefined
  simp only [resolve, Reading.defects_bind, Reading.defects_pure, Reading.defects_all,
    List.append_nil, List.mem_append, hpath, hinputs, houtputs, false_or, List.mem_flatMap,
    List.mem_map, List.mem_zipIdx_iff_getElem?]
  apply or_congr_left
  constructor
  · rintro ⟨_, ⟨⟨entry, index⟩, hentry, rfl⟩, hdefect⟩
    exact ⟨index, entry, hentry, hdefect⟩
  · rintro ⟨index, entry, hentry, hdefect⟩
    exact ⟨_, ⟨(entry, index), hentry, rfl⟩, hdefect⟩

theorem undefinedInput_mem_resolve_iff {number : Nat} :
    .undefinedInput number name ∈ (definition.resolve functions options).defects ↔
      definition.TestsInput number name ∧ name ∉ definition.inputs.map InputField.name := by
  have hundefined : (Defect.undefinedInput number name).IsUndefined := trivial
  rw [mem_resolve_defects_iff hundefined,
    or_iff_left Table.undefinedInput_not_mem_compileDefaults]
  simp only [Table.undefinedInput_mem_compileRule_iff, Table.mem_names_compileInputs,
    List.not_mem_nil, not_false_eq_true, and_true]
  constructor
  · rintro ⟨index, entry, hentry, rfl, htested, hundeclared⟩
    exact ⟨⟨entry, hentry, htested⟩, hundeclared⟩
  · rintro ⟨⟨entry, hentry, htested⟩, hundeclared⟩
    cases number with
    | zero => contradiction
    | succ index => exact ⟨index, entry, hentry, rfl, htested, hundeclared⟩

/-- A name is not left for an output when it is not declared or its declaration is of no use. -/
theorem not_mem_names_compileOutputs_iff :
    name ∉ (Table.compileOutputs [] definition.outputs).value.map Table.Output.name ↔
      name ∉ definition.outputs.map OutputField.name ∨ definition.HasUnusableOutput name := by
  have hnone : definition.firstOutput? name = none ↔
      name ∉ definition.outputs.map OutputField.name := by
    simp [firstOutput?]
  rw [Table.mem_names_compileOutputs, ← hnone, HasUnusableOutput, ← firstOutput?]
  cases definition.firstOutput? name <;> simp

theorem undefinedOutput_mem_resolve_iff {place : Place} :
    .undefinedOutput place name ∈ (definition.resolve functions options).defects ↔
      definition.SetsOutput place name ∧
        (name ∉ definition.outputs.map OutputField.name ∨ definition.HasUnusableOutput name) := by
  have hundefined : (Defect.undefinedOutput place name).IsUndefined := trivial
  rw [mem_resolve_defects_iff hundefined, ← not_mem_names_compileOutputs_iff,
    Table.undefinedOutput_mem_compileDefaults_iff]
  simp only [Table.undefinedOutput_mem_compileRule_iff]
  constructor
  · rintro (⟨index, entry, hentry, rfl, hset, hmissing⟩ | ⟨results, hresults, rfl, hset, hmissing⟩)
    · have hresults : definition.resultsAt? (.rule (index + 1)) = some entry.results := by
        simp [resultsAt?, ruleNumbered?, hentry]
      exact ⟨⟨entry.results, hresults, hset⟩, hmissing⟩
    · exact ⟨⟨results, hresults, hset⟩, hmissing⟩
  · rintro ⟨⟨results, hresults, hset⟩, hmissing⟩
    cases place with
    | rule number =>
        obtain ⟨entry, hentry, rfl⟩ := Option.map_eq_some_iff.mp hresults
        cases number with
        | zero => contradiction
        | succ index => exact .inl ⟨index, entry, hentry, rfl, hset, hmissing⟩
    | defaultResults => exact .inr ⟨results, hresults, rfl, hset, hmissing⟩
    | _ => contradiction

/--
What is reported as undefined by a refused definition.  For inputs it is what the rules test and no
input declares.  For outputs it is also what is declared, when the first declaration of the name has
no usable path, and nothing else.
-/
theorem undefined_mem_defects_iff
    (hrefused : definition.compile functions options = .error defects) :
    (∀ number name, .undefinedInput number name ∈ defects ↔
      definition.TestsInput number name ∧ name ∉ definition.inputs.map InputField.name) ∧
    ∀ place name, .undefinedOutput place name ∈ defects ↔
      definition.SetsOutput place name ∧
        (name ∉ definition.outputs.map OutputField.name ∨
          definition.HasUnusableOutput name) := by
  rw [← resolve_defects_of_compile hrefused]
  exact ⟨fun _ _ => undefinedInput_mem_resolve_iff, fun _ _ => undefinedOutput_mem_resolve_iff⟩

/-- The total is declared twice, first with a wildcard; the path of the size is first no path. -/
def totals : Definition :=
  { path := "$.orders[*]"
    inputs := [⟨"size", "size[", none⟩, ⟨"size", "@.size", some .number⟩]
    outputs := [⟨"total", "@.rows[*].total"⟩, ⟨"total", "@.total"⟩, ⟨"label", "@.label"⟩]
    rules :=
      [⟨1, .ofPairs [("size", .string ">3"), ("weight", .string "<9")],
        .ofPairs [("label", .string "big"), ("total", .string "all"), ("sum", .string "all")]⟩]
    defaults := some (.ofPairs [("label", .string "small")])
    strategy := .standard }

theorem totals_refused :
    totals.compile .empty {} = .error (totals.resolve .empty {}).defects := by
  have hmalformed : ¬ totals.WellFormed .empty := by
    intro hformed
    have hnodup := hformed.inputNames
    simp [totals] at hnodup
  exact compile_eq_error (mt resolve_defects_eq_nil_iff.mp hmalformed)

theorem undefined_mem_defects_totals :
    ∃ defects, totals.compile .empty {} = .error defects ∧
      .undefinedInput 1 "size" ∉ defects ∧ .undefinedInput 1 "weight" ∈ defects ∧
      .undefinedOutput (.rule 1) "total" ∈ defects ∧
      .undefinedOutput (.rule 1) "sum" ∈ defects ∧
      .undefinedOutput .defaultResults "label" ∉ defects := by
  obtain ⟨hinputs, houtputs⟩ := undefined_mem_defects_iff totals_refused
  refine ⟨_, totals_refused, ?_⟩
  simp only [hinputs, houtputs]
  exact of_decide_eq_true (by cbv)

/-- The rule sets a declared output, which is reported as undefined. -/
theorem reports_declared_total_as_undefined :
    ∃ defects, totals.compile .empty {} = .error defects ∧
      .undefinedOutput (.rule 1) "total" ∈ defects ∧
      "total" ∈ totals.outputs.map OutputField.name := by
  refine ⟨_, totals_refused, undefinedOutput_mem_resolve_iff.mpr ⟨?_, .inr ?_⟩, ?_⟩
  all_goals exact of_decide_eq_true (by cbv)

end Definition

end DecisionTables
