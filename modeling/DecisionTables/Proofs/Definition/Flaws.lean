import DecisionTables.Definition.Reader
import DecisionTables.Proofs.Definition.Reading
import Mathlib

/-!
# Flaws of a written definition

The form of a definition is a table of fields for each of its parts: which fields a part must have,
which shape a field has, and which names it can be.  Against this table every part of a value has
its flaws.  Reading reports just these, wherever they are, and whatever else is wrong beside them.
-/

namespace DecisionTables

/-- The member under a key, where it is there and is not null. -/
def Json.present? (value : Json) (key : String) : Option Json :=
  (value.get? key).filter fun member => !member.isNull

/-- What is wrong with a value that is to have the shape. -/
def Shape.fault? : Shape → Json → Option FieldFault
  | .text, .string _ => none
  | .truth, .bool _ => none
  | .integer, .number (.integer n _ _) =>
    if n ≤ 9223372036854775807 then none else some (.outOfRange n .integer)
  | .list, .array _ => none
  | .map, .object _ => none
  | shape, found => some (.wrongType found shape)

namespace NamedChoice

def names : NamedChoice → List String
  | inputType => ["number", "string", "boolean", "bool"]
  | matchMode => ["firstMatch", "allMatches", "bestMatch"]
  | conflictPolicy => ["priority", "merge", "lastWins"]

/-- The names of types may be written in any case. -/
def fold : NamedChoice → String → String
  | inputType, name => name.map Char.toLower
  | matchMode, name => name
  | conflictPolicy, name => name

end NamedChoice

/-- A field without a shape can hold any value. -/
structure FieldForm where
  name : String
  required : Bool := false
  shape : Option Shape := none
  choice : Option NamedChoice := none

/-- The fields that are recognised in a part of a definition. -/
def Place.fields : Place → List FieldForm
  | table =>
    [{ name := "path", required := true, shape := some .text },
      { name := "decisionTable", required := true }]
  | decisionTable =>
    [{ name := "inputs", required := true, shape := some .list },
      { name := "outputs", required := true, shape := some .list },
      { name := "rules", required := true, shape := some .list },
      { name := "defaultResults", shape := some .map },
      { name := "executionStrategy" }]
  | input _ =>
    [{ name := "name", required := true, shape := some .text },
      { name := "path", required := true, shape := some .text },
      { name := "type", shape := some .text, choice := some .inputType }]
  | output _ =>
    [{ name := "name", required := true, shape := some .text },
      { name := "path", required := true, shape := some .text }]
  | rule _ =>
    [{ name := "priority", required := true, shape := some .integer },
      { name := "conditions", shape := some .map },
      { name := "results", required := true, shape := some .map }]
  | executionStrategy =>
    [{ name := "mode", shape := some .text, choice := some .matchMode },
      { name := "conflictResolution", shape := some .text, choice := some .conflictPolicy },
      { name := "stopOnError", shape := some .truth }]
  | _ => []

/-- A required field is missing, or a field has a wrong shape or none of its names. -/
def FieldForm.IsFlaw (field : FieldForm) (place : Place) (value : Json) (defect : Defect) : Prop :=
  (field.required = true ∧ value.present? field.name = none ∧
    defect = .missingField place field.name) ∨
  (∃ shape found fault, field.shape = some shape ∧ value.present? field.name = some found ∧
    shape.fault? found = some fault ∧ defect = .invalidField place field.name fault) ∨
  ∃ choice name, field.choice = some choice ∧ value.present? field.name = some (.string name) ∧
    choice.fold name ∉ choice.names ∧ defect = .unknownName choice (choice.fold name)

/-- A part is no object, or one of its fields is flawed. -/
def Place.IsFlaw (place : Place) (value : Json) (defect : Defect) : Prop :=
  ((∀ members, value ≠ .object members) ∧ defect = .notAnObject place value.kind) ∨
  ∃ members, value = .object members ∧ ∃ field ∈ place.fields, field.IsFlaw place value defect

/-- The lists of a definition with the places of their entries, which are numbered from one. -/
def Place.lists : List (String × (Nat → Place)) :=
  [("inputs", input), ("outputs", output), ("rules", rule)]

/-- The parts of a definition that are there in its JSON form. -/
inductive Json.HasPart (value : Json) : Place → Json → Prop
  | table : HasPart value .table value
  | decisionTable {config : Json} (hconfig : value.present? "decisionTable" = some config) :
      HasPart value .decisionTable config
  | entry {config item : Json} {key : String} {place : Nat → Place} {items : List Json}
      {position : Nat} (hconfig : value.present? "decisionTable" = some config)
      (hlist : (key, place) ∈ Place.lists) (hitems : config.present? key = some (.array items))
      (hitem : items[position]? = some item) : HasPart value (place (position + 1)) item
  | executionStrategy {config strategy : Json}
      (hconfig : value.present? "decisionTable" = some config)
      (hstrategy : config.present? "executionStrategy" = some strategy) :
      HasPart value .executionStrategy strategy

/-- Some part of the value has the flaw that the defect tells. -/
def Json.HasFlaw (value : Json) (defect : Defect) : Prop :=
  ∃ place part, value.HasPart place part ∧ place.IsFlaw part defect

/-! ## Fields -/

/-- The decoder fails just on what does not have the shape. -/
def Decode.Follows {α : Type} (decoder : Json → Except FieldFault α) (shape : Option Shape) :
    Prop :=
  ∀ found fault, decoder found = .error fault ↔ ∃ s, shape = some s ∧ s.fault? found = some fault

namespace Decode

theorem text_follows : Follows text (some .text) := by
  intro found fault
  cases found <;> simp [text, Shape.fault?]

theorem truth_follows : Follows truth (some .truth) := by
  intro found fault
  cases found <;> simp [truth, Shape.fault?]

theorem integer_follows : Follows integer (some .integer) := by
  intro found fault
  cases found with
  | number n =>
      cases n with
      | integer n lower upper =>
          by_cases hfits : n < 9223372036854775808
          · have hle : n ≤ 9223372036854775807 := by omega
            simp [integer, Shape.fault?, hfits, hle]
          · have hle : ¬ n ≤ 9223372036854775807 := by omega
            simp [integer, Shape.fault?, hfits, hle]
      | float x => simp [integer, Shape.fault?]
  | _ => simp [integer, Shape.fault?]

theorem list_follows : Follows list (some .list) := by
  intro found fault
  cases found <;> simp [list, Shape.fault?]

theorem map_follows : Follows map (some .map) := by
  intro found fault
  cases found <;> simp [map, Shape.fault?]

theorem any_follows : Follows any none := by
  intro found fault
  simp [any]

end Decode

namespace Fields

variable {fields : Fields} {key : String} {α : Type} {decoder : Json → Except FieldFault α}
  {shape : Option Shape} {defect : Defect}

theorem find?_eq_present? (fields : Fields) (key : String) :
    fields.find? key = (Json.object fields.members).present? key :=
  rfl

theorem mem_decode_iff (hdecoder : Decode.Follows decoder shape) {found : Json} :
    defect ∈ (fields.decode key decoder found).defects ↔
      ∃ s fault, shape = some s ∧ s.fault? found = some fault ∧
        defect = .invalidField fields.place key fault := by
  have hfollows := hdecoder found
  unfold decode
  cases hdecoded : decoder found with
  | ok decoded =>
      have hfits : ∀ s fault, shape = some s → s.fault? found ≠ some fault := by
        intro s fault hshape hfault
        simpa [hdecoded] using (hfollows fault).mpr ⟨s, hshape, hfault⟩
      simp only [Reading.defects_pure, List.not_mem_nil, false_iff]
      rintro ⟨s, fault, hshape, hfault, -⟩
      exact hfits s fault hshape hfault
  | error fault =>
      obtain ⟨s, hshape, hfault⟩ := (hfollows fault).mp hdecoded
      simp [hshape, hfault]

/-- Reading a field that must be there reports its flaws. -/
theorem mem_required_iff (hdecoder : Decode.Follows decoder shape) :
    defect ∈ (fields.required key decoder).defects ↔
      FieldForm.IsFlaw { name := key, required := true, shape } fields.place
        (.object fields.members) defect := by
  unfold required
  simp only [FieldForm.IsFlaw, ← find?_eq_present?]
  cases hfind : fields.find? key with
  | none => simp
  | some found => simp [mem_decode_iff hdecoder]

theorem mem_optional_iff (hdecoder : Decode.Follows decoder shape) :
    defect ∈ (fields.optional key decoder).defects ↔
      FieldForm.IsFlaw { name := key, shape } fields.place (.object fields.members) defect := by
  unfold optional
  simp only [FieldForm.IsFlaw, ← find?_eq_present?]
  cases hfind : fields.find? key with
  | none => simp
  | some found => simp [mem_decode_iff hdecoder]

/-- A field that holds a name is flawed by its shape or by the name. -/
theorem mem_choice_iff {choice : NamedChoice} {ofName? : String → Option α}
    {name? : Option String} (hnames : ∀ name, ofName? name = none ↔ name ∉ choice.names)
    (hname : name? = (fields.optional key Decode.text).value.map choice.fold) :
    defect ∈ (fields.optional key Decode.text).defects ∨
        defect ∈ (readChoice choice ofName? name?).defects ↔
      FieldForm.IsFlaw { name := key, shape := some .text, choice := some choice } fields.place
        (.object fields.members) defect := by
  subst hname
  unfold optional
  simp only [FieldForm.IsFlaw, ← find?_eq_present?]
  cases hfind : fields.find? key with
  | none => simp [readChoice]
  | some found =>
      cases found with
      | string name =>
          cases hname : ofName? (choice.fold name) with
          | none =>
              have hunknown := (hnames _).mp hname
              simp [decode, Decode.text, readChoice, hname, hunknown, Shape.fault?]
          | some chosen =>
              have hknown : choice.fold name ∈ choice.names := by
                by_contra hunknown
                simp [(hnames _).mpr hunknown] at hname
              simp [decode, Decode.text, readChoice, hname, hknown, Shape.fault?]
      | _ => simp [decode, Decode.text, readChoice, Shape.fault?]

end Fields

theorem find?_label_eq_none_iff {α : Type} {label : α → String} {all : List α} {name : String} :
    all.find? (fun item => label item == name) = none ↔ name ∉ all.map label := by
  simp

theorem InputType.ofName?_eq_none_iff (name : String) :
    ofName? name = none ↔ name ∉ NamedChoice.inputType.names := by
  have hplain : [number, string, boolean].find? (fun type => type.name == name) = none ↔
      name ∉ ["number", "string", "boolean"] := find?_label_eq_none_iff
  by_cases hshort : name = "bool"
  · simp [ofName?, NamedChoice.names, hshort]
  · rw [ofName?, if_neg hshort, hplain]
    simp [NamedChoice.names, hshort]

theorem MatchMode.ofName?_eq_none_iff (name : String) :
    ofName? name = none ↔ name ∉ NamedChoice.matchMode.names :=
  find?_label_eq_none_iff

theorem ConflictPolicy.ofName?_eq_none_iff (name : String) :
    ofName? name = none ↔ name ∉ NamedChoice.conflictPolicy.names :=
  find?_label_eq_none_iff

/-! ## Parts -/

variable {value : Json} {defect : Defect}

/-- A part that is no object has this one flaw. -/
theorem Place.isFlaw_iff_of_not_object {place : Place}
    (hvalue : ∀ members, value ≠ .object members) :
    place.IsFlaw value defect ↔ defect = .notAnObject place value.kind := by
  simp only [IsFlaw, hvalue, not_false_eq_true, implies_true, ne_eq, true_and, false_and,
    exists_const, or_false]

theorem Place.isFlaw_object_iff {place : Place} {members : List (String × Json)} :
    place.IsFlaw (.object members) defect ↔
      ∃ field ∈ place.fields, field.IsFlaw place (.object members) defect := by
  simp [IsFlaw]

theorem InputField.mem_read_iff (number : Nat) (value : Json) :
    defect ∈ (read number value).defects ↔ (Place.input number).IsFlaw value defect := by
  cases value with
  | object members =>
      let fields : Fields := ⟨.input number, members⟩
      have htype : defect ∈ (fields.optional "type" Decode.text).defects ∨
          defect ∈ (readChoice .inputType InputType.ofName?
            ((fields.optional "type" Decode.text).value.map fun name =>
              name.map Char.toLower)).defects ↔
          FieldForm.IsFlaw { name := "type", shape := some .text, choice := some .inputType }
            (.input number) (.object members) defect :=
        Fields.mem_choice_iff InputType.ofName?_eq_none_iff rfl
      rw [Place.isFlaw_object_iff]
      simp only [read, Fields.openAt, Reading.pure_bind, Reading.defects_bind]
      cases (fields.required "name" Decode.text).value <;>
        cases (fields.required "path" Decode.text).value <;>
        simp [Fields.mem_required_iff Decode.text_follows, Place.fields, ← htype, fields]
  | _ => simp [read, Fields.openAt, Place.isFlaw_iff_of_not_object]

theorem OutputField.mem_read_iff (number : Nat) (value : Json) :
    defect ∈ (read number value).defects ↔ (Place.output number).IsFlaw value defect := by
  cases value with
  | object members =>
      rw [Place.isFlaw_object_iff]
      simp only [read, Fields.openAt, Reading.pure_bind, Reading.defects_bind]
      cases (Fields.required ⟨.output number, members⟩ "name" Decode.text).value <;>
        cases (Fields.required ⟨.output number, members⟩ "path" Decode.text).value <;>
        simp [Fields.mem_required_iff Decode.text_follows, Place.fields]
  | _ => simp [read, Fields.openAt, Place.isFlaw_iff_of_not_object]

theorem RuleEntry.mem_read_iff (number : Nat) (value : Json) :
    defect ∈ (read number value).defects ↔ (Place.rule number).IsFlaw value defect := by
  cases value with
  | object members =>
      rw [Place.isFlaw_object_iff]
      simp only [read, Fields.openAt, Reading.pure_bind, Reading.defects_bind,
        Reading.defects_pure, List.mem_append, List.not_mem_nil, or_false,
        Fields.mem_required_iff Decode.integer_follows, Fields.mem_optional_iff Decode.map_follows,
        Fields.mem_required_iff Decode.map_follows]
      simp [Place.fields]
  | _ => simp [read, Fields.openAt, Place.isFlaw_iff_of_not_object]

theorem Strategy.mem_read_iff :
    defect ∈ (read value).defects ↔ Place.executionStrategy.IsFlaw value defect := by
  cases value with
  | object members =>
      let fields : Fields := ⟨.executionStrategy, members⟩
      have hmode : defect ∈ (fields.optional "mode" Decode.text).defects ∨
          defect ∈ (readChoice .matchMode MatchMode.ofName?
            (fields.optional "mode" Decode.text).value).defects ↔
          FieldForm.IsFlaw { name := "mode", shape := some .text, choice := some .matchMode }
            .executionStrategy (.object members) defect :=
        Fields.mem_choice_iff MatchMode.ofName?_eq_none_iff Option.map_id'.symm
      have hconflict : defect ∈ (fields.optional "conflictResolution" Decode.text).defects ∨
          defect ∈ (readChoice .conflictPolicy ConflictPolicy.ofName?
            (fields.optional "conflictResolution" Decode.text).value).defects ↔
          FieldForm.IsFlaw
            { name := "conflictResolution", shape := some .text, choice := some .conflictPolicy }
            .executionStrategy (.object members) defect :=
        Fields.mem_choice_iff ConflictPolicy.ofName?_eq_none_iff Option.map_id'.symm
      rw [Place.isFlaw_object_iff]
      simp only [read, Fields.openAt, Reading.pure_bind, Reading.defects_bind]
      simp [Fields.mem_optional_iff Decode.truth_follows, Place.fields, ← hmode, ← hconflict,
        fields, or_assoc]
  | _ => simp [read, Fields.openAt, Place.isFlaw_iff_of_not_object]

/-! ## Whole definitions -/

theorem mem_readEntries_iff {α : Type} {read : Nat → Json → Reading α} {items : List Json} :
    defect ∈ (readEntries read items).defects ↔
      ∃ position item, items[position]? = some item ∧
        defect ∈ (read (position + 1) item).defects := by
  simp only [readEntries, Reading.defects_all, List.mem_flatMap, List.mem_map]
  constructor
  · rintro ⟨_, ⟨⟨item, position⟩, hentry, rfl⟩, hdefect⟩
    exact ⟨position, item, List.mem_zipIdx_iff_getElem?.mp hentry, hdefect⟩
  · rintro ⟨position, item, hitem, hdefect⟩
    exact ⟨_, ⟨(item, position), List.mem_zipIdx_iff_getElem?.mpr hitem, rfl⟩, hdefect⟩

/-- Of a list that is not there, or is no list, there are no entries. -/
theorem getElem?_required_list {fields : Fields} {key : String} {position : Nat} {item : Json} :
    ((fields.required key Decode.list).value.getD [])[position]? = some item ↔
      ∃ items, (Json.object fields.members).present? key = some (.array items) ∧
        items[position]? = some item := by
  unfold Fields.required
  rw [Fields.find?_eq_present?]
  cases (Json.object fields.members).present? key with
  | none => simp
  | some found => cases found <;> simp [Fields.decode, Decode.list]

/-- Some entry of a list has the flaw. -/
def Json.HasEntryFlaw (config : Json) (key : String) (place : Nat → Place) (defect : Defect) :
    Prop :=
  ∃ items position item, config.present? key = some (.array items) ∧
    items[position]? = some item ∧ (place (position + 1)).IsFlaw item defect

theorem mem_readEntries_required_iff {α : Type} {read : Nat → Json → Reading α}
    {place : Nat → Place} {fields : Fields} {key : String}
    (hread : ∀ number item, defect ∈ (read number item).defects ↔
      (place number).IsFlaw item defect) :
    defect ∈ (readEntries read ((fields.required key Decode.list).value.getD [])).defects ↔
      (Json.object fields.members).HasEntryFlaw key place defect := by
  simp only [mem_readEntries_iff, getElem?_required_list, hread, Json.HasEntryFlaw]
  constructor
  · rintro ⟨position, item, ⟨items, hitems, hitem⟩, hflaw⟩
    exact ⟨items, position, item, hitems, hitem, hflaw⟩
  · rintro ⟨items, position, item, hitems, hitem, hflaw⟩
    exact ⟨position, item, ⟨items, hitems, hitem⟩, hflaw⟩

/-- A field that may be missing and can hold anything is never flawed. -/
theorem FieldForm.not_isFlaw_of_any {key : String} {place : Place} :
    ¬ FieldForm.IsFlaw { name := key } place value defect := by
  simp [IsFlaw]

/-- The parts of a definition below its table. -/
def Json.HasConfigurationFlaw (config : Json) (defect : Defect) : Prop :=
  Place.decisionTable.IsFlaw config defect ∨
  (∃ list ∈ Place.lists, config.HasEntryFlaw list.1 list.2 defect) ∨
  ∃ strategy, config.present? "executionStrategy" = some strategy ∧
    Place.executionStrategy.IsFlaw strategy defect

theorem Json.hasFlaw_iff :
    value.HasFlaw defect ↔
      Place.table.IsFlaw value defect ∨
      ∃ config, value.present? "decisionTable" = some config ∧
        config.HasConfigurationFlaw defect := by
  constructor
  · rintro ⟨_, _, hpart, hflaw⟩
    cases hpart with
    | table => exact .inl hflaw
    | decisionTable hconfig => exact .inr ⟨_, hconfig, .inl hflaw⟩
    | entry hconfig hlist hitems hitem =>
        exact .inr ⟨_, hconfig, .inr (.inl ⟨_, hlist, _, _, _, hitems, hitem, hflaw⟩)⟩
    | executionStrategy hconfig hstrategy =>
        exact .inr ⟨_, hconfig, .inr (.inr ⟨_, hstrategy, hflaw⟩)⟩
  · rintro (hflaw | ⟨config, hconfig, hflaw | ⟨list, hlist, items, position, item, hitems, hitem,
      hflaw⟩ | ⟨strategy, hstrategy, hflaw⟩⟩)
    · exact ⟨_, _, .table, hflaw⟩
    · exact ⟨_, _, .decisionTable hconfig, hflaw⟩
    · exact ⟨_, _, .entry hconfig hlist hitems hitem, hflaw⟩
    · exact ⟨_, _, .executionStrategy hconfig hstrategy, hflaw⟩

namespace Definition

theorem mem_readConfiguration_iff {path : String} {config : Json} :
    defect ∈ (readConfiguration path config).defects ↔ config.HasConfigurationFlaw defect := by
  unfold Json.HasConfigurationFlaw
  cases config with
  | object members =>
      rw [Place.isFlaw_object_iff]
      simp only [readConfiguration, Fields.openAt, Reading.pure_bind, Reading.defects_bind,
        List.mem_append, Fields.mem_required_iff Decode.list_follows,
        Fields.mem_optional_iff Decode.map_follows,
        mem_readEntries_required_iff InputField.mem_read_iff,
        mem_readEntries_required_iff OutputField.mem_read_iff,
        mem_readEntries_required_iff RuleEntry.mem_read_iff, Fields.find?_eq_present?]
      -- The flaws of the fields stand before and behind those of the entries.
      cases (Json.object members).present? "executionStrategy" with
      | none =>
          simp only [id_eq, Reading.defects_pure, Place.fields, Place.lists,
            FieldForm.not_isFlaw_of_any, List.mem_cons, List.not_mem_nil, exists_eq_or_imp,
            exists_eq_left, reduceCtorEq, false_and, exists_const, or_false]
          tauto
      | some strategy =>
          simp only [id_eq, Reading.defects_bind, Reading.defects_pure, List.append_nil,
            Strategy.mem_read_iff, Place.fields, Place.lists, FieldForm.not_isFlaw_of_any,
            List.mem_cons, List.not_mem_nil, exists_eq_or_imp, exists_eq_left, exists_eq_left',
            Option.some.injEq, or_false]
          tauto
  | _ =>
      simp [readConfiguration, Fields.openAt, Place.isFlaw_iff_of_not_object, Json.HasEntryFlaw,
        Json.present?, Json.get?]

theorem value_required_any (fields : Fields) (key : String) :
    (fields.required key Decode.any).value = (Json.object fields.members).present? key := by
  unfold Fields.required
  rw [Fields.find?_eq_present?]
  cases (Json.object fields.members).present? key <;> rfl

/-- The defects that are reported are just the flaws of the value. -/
theorem mem_read_iff : defect ∈ (read value).defects ↔ value.HasFlaw defect := by
  rw [Json.hasFlaw_iff]
  cases value with
  | object members =>
      rw [Place.isFlaw_object_iff]
      simp only [read, Fields.openAt, Reading.pure_bind, Reading.defects_bind, List.mem_append,
        Fields.mem_required_iff Decode.text_follows, Fields.mem_required_iff Decode.any_follows,
        value_required_any]
      cases (Json.object members).present? "decisionTable" with
      | none => simp [Place.fields]
      | some config => simp [Place.fields, mem_readConfiguration_iff, or_assoc]
  | _ =>
      simp [read, Fields.openAt, Place.isFlaw_iff_of_not_object, Json.present?, Json.get?]

end Definition

end DecisionTables
