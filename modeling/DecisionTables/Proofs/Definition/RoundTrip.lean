import DecisionTables.Definition.Reader
import DecisionTables.Definition.Writer
import DecisionTables.Proofs.Definition.Reading
import DecisionTables.Proofs.Entries
import Mathlib

/-!
# Definitions through their JSON form

Every part of a definition is written as an object whose fields have different names, so each field
is found again under its own name with the value that was written there, and never as null.  The
decoder of the field makes of this value what was written, and a field that was left out is read as
absent.  So each part is read back as it was and without a defect, and with its parts the whole
definition, whatever stands in it.
-/

namespace DecisionTables

namespace Decode

/-- The decoder takes the value, which is not null, and makes this of it. -/
structure Accepts {α : Type} (decoder : Json → Except FieldFault α) (value : Json) (decoded : α) :
    Prop where
  not_null : value.isNull = false
  decodes : decoder value = .ok decoded

theorem text_accepts (s : String) : Accepts text (.string s) s :=
  ⟨rfl, rfl⟩

theorem truth_accepts (b : Bool) : Accepts truth (.bool b) b :=
  ⟨rfl, rfl⟩

theorem list_accepts (items : List Json) : Accepts list (.array items) items :=
  ⟨rfl, rfl⟩

theorem any_accepts {value : Json} (hvalue : value.isNull = false) : Accepts any value value :=
  ⟨hvalue, rfl⟩

theorem integer_accepts (n : Int64) : Accepts integer (.number (.ofInt64 n)) n := by
  constructor
  · rfl
  · have hbound : n.toInt < 9223372036854775808 := n.toInt_lt
    simp [integer, Number.ofInt64, hbound]

theorem map_accepts (entries : KeyMap Json) : Accepts map (.ofKeyMap entries) entries := by
  constructor
  · rfl
  · simp [map, Json.ofKeyMap, KeyMap.ofPairs_entries]

end Decode

namespace Fields

/-- The fields of an object that was written with the members. -/
def written (place : Place) (members : List (String × Json)) : Fields :=
  ⟨place, Entries.ofPairs members⟩

theorem openAt_ofMembers (place : Place) (members : List (String × Json)) :
    openAt place (.ofMembers members) = pure (some (written place members)) :=
  rfl

variable {place : Place} {members : List (String × Json)} {field : String} {value : Json}
  {α : Type} {decoder : Json → Except FieldFault α} {decoded : α}

theorem find?_written (hkeys : (members.map Prod.fst).Nodup)
    (hfield : Entries.get? field members = some value) (hvalue : value.isNull = false) :
    (written place members).find? field = some value := by
  rw [find?, written, Entries.get?_ofPairs field hkeys, hfield]
  simp [hvalue]

theorem find?_omitted (hkeys : (members.map Prod.fst).Nodup)
    (hfield : Entries.get? field members = none) :
    (written place members).find? field = none := by
  rw [find?, written, Entries.get?_ofPairs field hkeys, hfield]
  rfl

theorem required_written (hkeys : (members.map Prod.fst).Nodup)
    (hfield : Entries.get? field members = some value)
    (haccepts : Decode.Accepts decoder value decoded) :
    (written place members).required field decoder = pure (some decoded) := by
  rw [required, find?_written hkeys hfield haccepts.not_null]
  simp only [decode, haccepts.decodes]

theorem optional_written (hkeys : (members.map Prod.fst).Nodup)
    (hfield : Entries.get? field members = some value)
    (haccepts : Decode.Accepts decoder value decoded) :
    (written place members).optional field decoder = pure (some decoded) := by
  rw [optional, find?_written hkeys hfield haccepts.not_null]
  simp only [decode, haccepts.decodes]

theorem optional_omitted (hkeys : (members.map Prod.fst).Nodup)
    (hfield : Entries.get? field members = none) :
    (written place members).optional field decoder = pure none := by
  rw [optional, find?_omitted hkeys hfield]

end Fields

/-! ## Names of choices -/

theorem readChoice_of_ofName? {α : Type} {choice : NamedChoice} {ofName? : String → Option α}
    {name : String} {chosen : α} (hname : ofName? name = some chosen) :
    readChoice choice ofName? (some name) = pure (some chosen) := by
  simp only [readChoice, choice?_string, hname]

theorem MatchMode.ofName?_name (mode : MatchMode) : ofName? mode.name = some mode := by
  cases mode <;> rfl

theorem ConflictPolicy.ofName?_name (policy : ConflictPolicy) :
    ofName? policy.name = some policy := by
  cases policy <;> rfl

theorem InputType.ofName?_folded_name (type : InputType) :
    ofName? (type.name.map Char.toLower) = some type := by
  cases type <;> cbv

/-! ## The parts of a definition

For every part the members that it is written with are named, and the fields are read one by one.
-/

namespace InputField

/-- The type of an input is the only field of it that may be left out. -/
def members (input : InputField) : List (String × Json) :=
  [("name", .string input.name), ("path", .string input.path)] ++
    (input.type.map fun type => ("type", Json.string type.name)).toList

theorem toJson_eq (input : InputField) : input.toJson = .ofMembers input.members := by
  unfold toJson members
  cases input.type <;> rfl

theorem nodup_members (input : InputField) : (input.members.map Prod.fst).Nodup := by
  unfold members
  cases input.type <;> simp

theorem read_toJson (number : Nat) (input : InputField) :
    read number input.toJson = pure (some input) := by
  have hkeys := input.nodup_members
  have hname : (Fields.written (.input number) input.members).required "name" Decode.text =
      pure (some input.name) :=
    Fields.required_written hkeys rfl (Decode.text_accepts input.name)
  have hpath : (Fields.written (.input number) input.members).required "path" Decode.text =
      pure (some input.path) :=
    Fields.required_written hkeys rfl (Decode.text_accepts input.path)
  have htype : (Fields.written (.input number) input.members).optional "type" Decode.text =
      pure (input.type.map InputType.name) := by
    cases h : input.type with
    | none =>
        apply Fields.optional_omitted hkeys
        simp [members, h, Entries.get?]
    | some type =>
        apply Fields.optional_written hkeys _ (Decode.text_accepts type.name)
        simp [members, h, Entries.get?]
  rw [toJson_eq, read, Fields.openAt_ofMembers]
  simp only [Reading.pure_bind, hname, hpath, htype]
  obtain ⟨name, path, type⟩ := input
  cases type with
  | none => rfl
  | some type =>
      simp only [Option.map_some, readChoice_of_ofName? type.ofName?_folded_name,
        Reading.pure_bind]

end InputField

namespace OutputField

def members (output : OutputField) : List (String × Json) :=
  [("name", .string output.name), ("path", .string output.path)]

theorem read_toJson (number : Nat) (output : OutputField) :
    read number output.toJson = pure (some output) := by
  have hkeys : (output.members.map Prod.fst).Nodup := by simp [members]
  have hname : (Fields.written (.output number) output.members).required "name" Decode.text =
      pure (some output.name) :=
    Fields.required_written hkeys rfl (Decode.text_accepts output.name)
  have hpath : (Fields.written (.output number) output.members).required "path" Decode.text =
      pure (some output.path) :=
    Fields.required_written hkeys rfl (Decode.text_accepts output.path)
  have hjson : output.toJson = .ofMembers output.members := rfl
  rw [hjson, read, Fields.openAt_ofMembers]
  simp only [Reading.pure_bind, hname, hpath]

end OutputField

namespace RuleEntry

def members (rule : RuleEntry) : List (String × Json) :=
  [("priority", .number (.ofInt64 rule.priority)), ("conditions", .ofKeyMap rule.conditions),
    ("results", .ofKeyMap rule.results)]

theorem read_toJson (number : Nat) (rule : RuleEntry) :
    read number rule.toJson = pure rule := by
  have hkeys : (rule.members.map Prod.fst).Nodup := by simp [members]
  have hpriority :
      (Fields.written (.rule number) rule.members).required "priority" Decode.integer =
        pure (some rule.priority) :=
    Fields.required_written hkeys rfl (Decode.integer_accepts rule.priority)
  have hconditions :
      (Fields.written (.rule number) rule.members).optional "conditions" Decode.map =
        pure (some rule.conditions) :=
    Fields.optional_written hkeys rfl (Decode.map_accepts rule.conditions)
  have hresults : (Fields.written (.rule number) rule.members).required "results" Decode.map =
      pure (some rule.results) :=
    Fields.required_written hkeys rfl (Decode.map_accepts rule.results)
  have hjson : rule.toJson = .ofMembers rule.members := rfl
  rw [hjson, read, Fields.openAt_ofMembers]
  simp only [Reading.pure_bind, hpriority, hconditions, hresults, Option.getD_some]

end RuleEntry

namespace Strategy

def members (strategy : Strategy) : List (String × Json) :=
  [("mode", .string strategy.mode.name), ("conflictResolution", .string strategy.conflict.name),
    ("stopOnError", .bool strategy.stopOnError)]

theorem read_toJson (strategy : Strategy) : read strategy.toJson = pure strategy := by
  have hkeys : (strategy.members.map Prod.fst).Nodup := by simp [members]
  have hmode : (Fields.written .executionStrategy strategy.members).optional "mode" Decode.text =
      pure (some strategy.mode.name) :=
    Fields.optional_written hkeys rfl (Decode.text_accepts strategy.mode.name)
  have hconflict :
      (Fields.written .executionStrategy strategy.members).optional "conflictResolution"
        Decode.text = pure (some strategy.conflict.name) :=
    Fields.optional_written hkeys rfl (Decode.text_accepts strategy.conflict.name)
  have hstop :
      (Fields.written .executionStrategy strategy.members).optional "stopOnError" Decode.truth =
        pure (some strategy.stopOnError) :=
    Fields.optional_written hkeys rfl (Decode.truth_accepts strategy.stopOnError)
  have hjson : strategy.toJson = .ofMembers strategy.members := rfl
  rw [hjson, read, Fields.openAt_ofMembers]
  simp only [Reading.pure_bind, hmode, hconflict, hstop, Option.getD_some,
    readChoice_of_ofName? strategy.mode.ofName?_name,
    readChoice_of_ofName? strategy.conflict.ofName?_name]

end Strategy

/-! ## Whole definitions -/

theorem Reading.all_pure {α : Type} (values : List α) :
    Reading.all (values.map pure) = pure values := by
  have hvalues : (values.map (pure : α → Reading α)).map Reading.value = values := by
    simp [Function.comp_def]
  have hdefects : (values.map (pure : α → Reading α)).flatMap Reading.defects = [] := by
    simp
  rw [Reading.all, hvalues, hdefects]
  rfl

/-- Entries that are written one by one are read back in their order. -/
theorem readEntries_map {α β : Type} {read : Nat → Json → Reading β} {write : α → Json}
    {entry : α → β} (hread : ∀ number a, read number (write a) = pure (entry a))
    (written : List α) :
    readEntries read (written.map write) = pure (written.map entry) := by
  have hentries : ((written.map write).zipIdx.map fun item => read (item.2 + 1) item.1) =
      (written.map entry).map pure := by
    rw [List.zipIdx_map, List.map_map]
    have hsingle : (fun item => read (item.2 + 1) item.1) ∘ Prod.map write id =
        (fun a => pure (entry a)) ∘ Prod.fst := by
      funext pair
      exact hread (pair.2 + 1) pair.1
    rw [hsingle, ← List.map_map, List.zipIdx_map_fst, List.map_map]
    rfl
  exact (congrArg Reading.all hentries).trans (Reading.all_pure _)

namespace Definition

/-- Everything but the path of the rows.  Default results may be left out. -/
def configurationMembers (definition : Definition) : List (String × Json) :=
  [("inputs", .array (definition.inputs.map InputField.toJson)),
    ("outputs", .array (definition.outputs.map OutputField.toJson)),
    ("rules", .array (definition.rules.map RuleEntry.toJson)),
    ("executionStrategy", definition.strategy.toJson)] ++
      (definition.defaults.map fun defaults => ("defaultResults", Json.ofKeyMap defaults)).toList

def members (definition : Definition) : List (String × Json) :=
  [("path", .string definition.path), ("decisionTable", .ofMembers definition.configurationMembers)]

theorem toJson_eq (definition : Definition) :
    definition.toJson = .ofMembers definition.members := by
  unfold toJson members configurationMembers
  cases definition.defaults <;> rfl

theorem nodup_configurationMembers (definition : Definition) :
    (definition.configurationMembers.map Prod.fst).Nodup := by
  unfold configurationMembers
  cases definition.defaults <;> simp

/-- The fields of the written configuration, read one by one. -/
structure HasConfiguration (definition : Definition) (fields : Fields) : Prop where
  inputs : fields.required "inputs" Decode.list =
    pure (some (definition.inputs.map InputField.toJson))
  outputs : fields.required "outputs" Decode.list =
    pure (some (definition.outputs.map OutputField.toJson))
  rules : fields.required "rules" Decode.list =
    pure (some (definition.rules.map RuleEntry.toJson))
  defaults : fields.optional "defaultResults" Decode.map = pure definition.defaults
  strategy : fields.find? "executionStrategy" = some definition.strategy.toJson

theorem hasConfiguration_written (definition : Definition) :
    definition.HasConfiguration
      (.written .decisionTable definition.configurationMembers) := by
  have hkeys := definition.nodup_configurationMembers
  constructor
  case inputs => exact Fields.required_written hkeys rfl (Decode.list_accepts _)
  case outputs => exact Fields.required_written hkeys rfl (Decode.list_accepts _)
  case rules => exact Fields.required_written hkeys rfl (Decode.list_accepts _)
  case defaults =>
    cases h : definition.defaults with
    | none =>
        apply Fields.optional_omitted hkeys
        simp [configurationMembers, h, Entries.get?]
    | some defaults =>
        apply Fields.optional_written hkeys _ (Decode.map_accepts defaults)
        simp [configurationMembers, h, Entries.get?]
  case strategy => exact Fields.find?_written hkeys rfl rfl

theorem readConfiguration_configurationMembers (definition : Definition) :
    readConfiguration definition.path (.ofMembers definition.configurationMembers) =
      pure definition := by
  have hfields := definition.hasConfiguration_written
  rw [readConfiguration, Fields.openAt_ofMembers]
  simp only [Reading.pure_bind, hfields.inputs, hfields.outputs, hfields.rules, hfields.defaults,
    hfields.strategy, Option.getD_some, readEntries_map InputField.read_toJson,
    readEntries_map OutputField.read_toJson, readEntries_map RuleEntry.read_toJson,
    Strategy.read_toJson]
  simp

/-- A definition is read back from its JSON form as it was, whatever it holds. -/
theorem ofJson_toJson (definition : Definition) :
    ofJson definition.toJson = .ok definition := by
  have hkeys : (definition.members.map Prod.fst).Nodup := by simp [members]
  have hpath : (Fields.written .table definition.members).required "path" Decode.text =
      pure (some definition.path) :=
    Fields.required_written hkeys rfl (Decode.text_accepts definition.path)
  have hconfiguration :
      (Fields.written .table definition.members).required "decisionTable" Decode.any =
        pure (some (.ofMembers definition.configurationMembers)) :=
    Fields.required_written hkeys rfl (Decode.any_accepts rfl)
  have hread : read definition.toJson = pure definition := by
    rw [toJson_eq, read, Fields.openAt_ofMembers]
    simp only [Reading.pure_bind, hpath, hconfiguration, Option.getD_some,
      readConfiguration_configurationMembers]
  rw [ofJson, hread]
  rfl

end Definition

end DecisionTables
