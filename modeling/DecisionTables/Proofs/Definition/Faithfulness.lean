import DecisionTables.Proofs.Definition.Flaws
import DecisionTables.Proofs.Json.Canonical
import Mathlib

/-!
# Faithful reading

A value without a flaw is read for what it says.  Its entries are those of the definition, one by
one and in their order, every field of the definition is written in the value, and a default stands
only where the value has nothing in an optional place.  A value with flaws has each of them
reported, and its rules keep their numbers.
-/

namespace DecisionTables

/-- What is written under a key, or what stands for it where nothing is written. -/
def Json.Gives (value : Json) (key : String) (omitted : Prop) (written : Json → Prop) : Prop :=
  match value.present? key with
  | none => omitted
  | some found => written found

theorem Json.Gives.imp {value : Json} {key : String} {omitted other : Prop}
    {written further : Json → Prop} (hgives : value.Gives key omitted written)
    (homitted : omitted → other) (hwritten : ∀ found, written found → further found) :
    value.Gives key other further := by
  unfold Gives at hgives ⊢
  cases hpresent : value.present? key with
  | none =>
      rw [hpresent] at hgives
      exact homitted hgives
  | some found =>
      rw [hpresent] at hgives
      exact hwritten found hgives

/-- What is read with a default is the default, or it is written. -/
theorem Json.Gives.getD {α : Type} {value : Json} {key : String} {write : α → Json}
    {item? : Option α}
    (hgives : value.Gives key (item? = none) fun found => ∃ item, found = write item ∧
      item? = some item) (default : α) :
    value.Gives key (item?.getD default = default) (· = write (item?.getD default)) := by
  refine hgives.imp ?_ ?_
  · rintro rfl
    rfl
  · rintro found ⟨item, rfl, rfl⟩
    rfl

theorem Json.Gives.present?_eq {α : Type} {value : Json} {key : String} {write : α → Json}
    {item? : Option α}
    (hgives : value.Gives key (item? = none) fun found => ∃ item, found = write item ∧
      item? = some item) : value.present? key = item?.map write := by
  unfold Gives at hgives
  cases hpresent : value.present? key with
  | none =>
      rw [hpresent] at hgives
      obtain rfl := hgives
      rfl
  | some found =>
      rw [hpresent] at hgives
      obtain ⟨item, rfl, rfl⟩ := hgives
      rfl

/-- The names of a type in lower case. -/
def InputType.names : InputType → List String
  | number => ["number"]
  | string => ["string"]
  | boolean => ["boolean", "bool"]

structure InputField.IsWrittenAs (value : Json) (input : InputField) : Prop where
  name : value.present? "name" = some (.string input.name)
  path : value.present? "path" = some (.string input.path)
  type : value.Gives "type" (input.type = none) fun found =>
    ∃ name type, found = .string name ∧ input.type = some type ∧
      name.map Char.toLower ∈ type.names

structure OutputField.IsWrittenAs (value : Json) (output : OutputField) : Prop where
  name : value.present? "name" = some (.string output.name)
  path : value.present? "path" = some (.string output.path)

structure RuleEntry.IsWrittenAs (value : Json) (rule : RuleEntry) : Prop where
  priority : value.present? "priority" = some (.number (.ofInt64 rule.priority))
  conditions : value.Gives "conditions" (rule.conditions = .empty) (· = .ofKeyMap rule.conditions)
  results : value.present? "results" = some (.ofKeyMap rule.results)

structure Strategy.IsWrittenAs (value : Json) (strategy : Strategy) : Prop where
  isObject : ∃ members, value = .object members
  mode : value.Gives "mode" (strategy.mode = .firstMatch) (· = .string strategy.mode.name)
  conflict : value.Gives "conflictResolution" (strategy.conflict = .priority)
    (· = .string strategy.conflict.name)
  stopOnError : value.Gives "stopOnError" (strategy.stopOnError = false)
    (· = .bool strategy.stopOnError)

/-- Everything but the path of the rows is written in the value. -/
structure Definition.IsConfiguredAs (config : Json) (definition : Definition) : Prop where
  inputs : ∃ items, config.present? "inputs" = some (.array items) ∧
    List.Forall₂ InputField.IsWrittenAs items definition.inputs
  outputs : ∃ items, config.present? "outputs" = some (.array items) ∧
    List.Forall₂ OutputField.IsWrittenAs items definition.outputs
  rules : ∃ items, config.present? "rules" = some (.array items) ∧
    List.Forall₂ RuleEntry.IsWrittenAs items definition.rules
  defaults : config.present? "defaultResults" = definition.defaults.map Json.ofKeyMap
  strategy : config.Gives "executionStrategy" (definition.strategy = .standard)
    definition.strategy.IsWrittenAs

structure Definition.IsWrittenAs (value : Json) (definition : Definition) : Prop where
  path : value.present? "path" = some (.string definition.path)
  configuration : ∃ config, value.present? "decisionTable" = some config ∧
    definition.IsConfiguredAs config

/-! ## Fields without a flaw -/

theorem Json.canonical_of_present? {value found : Json} {key : String}
    (hcanonical : value.Canonical) (hpresent : value.present? key = some found) :
    found.Canonical := by
  obtain ⟨hmember, -⟩ := Option.filter_eq_some_iff.mp hpresent
  have hchild : value.child? (.key key) = some found := hmember
  exact canonical_of_child? hcanonical hchild

/-- Of canonical values the decoder takes just those that are written for what it makes of them. -/
def Decode.Inverts {α : Type} (decoder : Json → Except FieldFault α) (write : α → Json) : Prop :=
  ∀ found decoded, found.Canonical → decoder found = .ok decoded → found = write decoded

namespace Decode

theorem text_inverts : Inverts text .string := by
  intro found s _ hdecoded
  cases found <;> simp_all [text]

theorem truth_inverts : Inverts truth .bool := by
  intro found b _ hdecoded
  cases found <;> simp_all [truth]

theorem list_inverts : Inverts list .array := by
  intro found items _ hdecoded
  cases found <;> simp_all [list]

theorem any_inverts : Inverts any id := by
  intro found decoded _ hdecoded
  exact Except.ok.inj hdecoded

theorem integer_inverts : Inverts integer fun n => .number (.ofInt64 n) := by
  intro found n _ hdecoded
  cases found with
  | number written =>
      cases written with
      | integer m lower upper =>
          by_cases hfits : m < 9223372036854775808
          · obtain rfl : Int64.ofInt m = n := by simpa [integer, hfits] using hdecoded
            have hsame : (Int64.ofInt m).toInt = m := Int64.toInt_ofInt_of_le lower hfits
            simp [Number.ofInt64, hsame]
          · simp [integer, hfits] at hdecoded
      | float x => simp [integer] at hdecoded
  | _ => simp [integer] at hdecoded

theorem map_inverts : Inverts map .ofKeyMap := by
  intro found entries hcanonical hdecoded
  cases found with
  | object members =>
      obtain rfl : KeyMap.ofPairs members = entries := by simpa [map] using hdecoded
      simp [Json.ofKeyMap, KeyMap.ofPairs, hcanonical.1.ofPairs_eq]
  | _ => simp [map] at hdecoded

end Decode

namespace Fields

variable {fields : Fields} {key : String} {α : Type} {decoder : Json → Except FieldFault α}
  {write : α → Json}

theorem decode_clean {found : Json} (hinverts : Decode.Inverts decoder write)
    (hcanonical : found.Canonical) (hclean : (fields.decode key decoder found).defects = []) :
    ∃ decoded, found = write decoded ∧
      (fields.decode key decoder found).value = some decoded := by
  unfold decode at hclean ⊢
  cases hdecoded : decoder found with
  | ok decoded => exact ⟨decoded, hinverts found decoded hcanonical hdecoded, rfl⟩
  | error fault => simp [hdecoded] at hclean

theorem required_clean (hinverts : Decode.Inverts decoder write)
    (hcanonical : (Json.object fields.members).Canonical)
    (hclean : (fields.required key decoder).defects = []) :
    ∃ decoded, (Json.object fields.members).present? key = some (write decoded) ∧
      (fields.required key decoder).value = some decoded := by
  unfold required at hclean ⊢
  rw [find?_eq_present?] at hclean ⊢
  cases hpresent : (Json.object fields.members).present? key with
  | none => simp [hpresent] at hclean
  | some found =>
      rw [hpresent] at hclean
      obtain ⟨decoded, rfl, hvalue⟩ :=
        decode_clean hinverts (Json.canonical_of_present? hcanonical hpresent) hclean
      exact ⟨decoded, rfl, hvalue⟩

theorem optional_clean (hinverts : Decode.Inverts decoder write)
    (hcanonical : (Json.object fields.members).Canonical)
    (hclean : (fields.optional key decoder).defects = []) :
    (Json.object fields.members).Gives key ((fields.optional key decoder).value = none)
      fun found => ∃ decoded, found = write decoded ∧
        (fields.optional key decoder).value = some decoded := by
  unfold optional Json.Gives at *
  rw [find?_eq_present?] at *
  cases hpresent : (Json.object fields.members).present? key with
  | none => rfl
  | some found =>
      rw [hpresent] at hclean
      exact decode_clean hinverts (Json.canonical_of_present? hcanonical hpresent) hclean

/-- A field that holds a name, which is folded before it is looked up. -/
theorem choice_clean {choice : NamedChoice} {ofName? : String → Option α} {fold : String → String}
    {name? : Option String} (hname : name? = (fields.optional key Decode.text).value.map fold)
    (hcanonical : (Json.object fields.members).Canonical)
    (htext : (fields.optional key Decode.text).defects = [])
    (hknown : (readChoice choice ofName? name?).defects = []) :
    (Json.object fields.members).Gives key ((readChoice choice ofName? name?).value = none)
      fun found => ∃ name chosen, found = .string name ∧ ofName? (fold name) = some chosen ∧
        (readChoice choice ofName? name?).value = some chosen := by
  refine (optional_clean Decode.text_inverts hcanonical htext).imp ?_ ?_
  · intro hnone
    rw [hname, hnone]
    rfl
  · rintro found ⟨name, rfl, hvalue⟩
    rw [hvalue, Option.map_some] at hname
    subst hname
    simp only [readChoice, choice?_string] at hknown ⊢
    cases hchosen : ofName? (fold name) with
    | none => simp [hchosen] at hknown
    | some chosen => exact ⟨name, chosen, rfl, hchosen, by simp only [Reading.value_pure]⟩

/-- A field that holds a name of which there is one for each choice. -/
theorem label_clean {choice : NamedChoice} {ofName? : String → Option α} {label : α → String}
    (hlabel : ∀ {name chosen}, ofName? name = some chosen → label chosen = name)
    (hcanonical : (Json.object fields.members).Canonical)
    (htext : (fields.optional key Decode.text).defects = [])
    (hknown : (readChoice choice ofName? (fields.optional key Decode.text).value).defects = []) :
    (Json.object fields.members).Gives key
      ((readChoice choice ofName? (fields.optional key Decode.text).value).value = none)
      fun found => ∃ chosen, found = .string (label chosen) ∧
        (readChoice choice ofName? (fields.optional key Decode.text).value).value =
          some chosen := by
  refine (choice_clean Option.map_id'.symm hcanonical htext hknown).imp id ?_
  rintro found ⟨name, chosen, rfl, hname, hchosen⟩
  exact ⟨chosen, by rw [hlabel hname], hchosen⟩

end Fields

/-! ## Parts without a flaw -/

theorem InputType.mem_names_of_ofName? {name : String} {type : InputType}
    (htype : ofName? name = some type) : name ∈ type.names := by
  by_cases hshort : name = "bool"
  · obtain rfl : boolean = type := by simpa [ofName?, hshort] using htype
    simp [names, hshort]
  · rw [ofName?, if_neg hshort] at htype
    have hname : type.name = name := by simpa using List.find?_some htype
    subst hname
    cases type <;> simp [names, InputType.name]

theorem MatchMode.name_of_ofName? {name : String} {mode : MatchMode}
    (hmode : ofName? name = some mode) : mode.name = name := by
  simpa using List.find?_some hmode

theorem ConflictPolicy.name_of_ofName? {name : String} {policy : ConflictPolicy}
    (hpolicy : ofName? name = some policy) : policy.name = name := by
  simpa using List.find?_some hpolicy

variable {number : Nat} {value : Json}

theorem InputField.isWrittenAs_of_read (hcanonical : value.Canonical)
    (hclean : (read number value).defects = []) :
    ∃ input, (read number value).value = some input ∧ input.IsWrittenAs value := by
  cases value with
  | object members =>
      let fields : Fields := ⟨.input number, members⟩
      let type := readChoice .inputType InputType.ofName?
        ((fields.optional "type" Decode.text).value.map fun name => name.map Char.toLower)
      simp only [read, Fields.openAt, Reading.pure_bind, Reading.defects_bind,
        List.append_eq_nil_iff] at hclean
      obtain ⟨hname, hpath, htext, htype, -⟩ := hclean
      obtain ⟨name, hnamePresent, hnameValue⟩ :=
        Fields.required_clean Decode.text_inverts hcanonical hname
      obtain ⟨path, hpathPresent, hpathValue⟩ :=
        Fields.required_clean Decode.text_inverts hcanonical hpath
      have hgives := Fields.choice_clean rfl hcanonical htext htype
      have hvalue : (read number (.object members)).value = some ⟨name, path, type.value⟩ := by
        simp only [read, Fields.openAt, Reading.pure_bind, Reading.value_bind, hnameValue,
          hpathValue]
        rfl
      refine ⟨_, hvalue, ?_⟩
      constructor
      case name => exact hnamePresent
      case path => exact hpathPresent
      case type =>
        refine hgives.imp id ?_
        rintro found ⟨name, chosen, hfound, hknown, hchosen⟩
        exact ⟨name, chosen, hfound, hchosen, InputType.mem_names_of_ofName? hknown⟩
  | _ => simp [read, Fields.openAt] at hclean

theorem OutputField.isWrittenAs_of_read (hcanonical : value.Canonical)
    (hclean : (read number value).defects = []) :
    ∃ output, (read number value).value = some output ∧ output.IsWrittenAs value := by
  cases value with
  | object members =>
      simp only [read, Fields.openAt, Reading.pure_bind, Reading.defects_bind,
        List.append_eq_nil_iff] at hclean
      obtain ⟨hname, hpath, -⟩ := hclean
      obtain ⟨name, hnamePresent, hnameValue⟩ :=
        Fields.required_clean Decode.text_inverts hcanonical hname
      obtain ⟨path, hpathPresent, hpathValue⟩ :=
        Fields.required_clean Decode.text_inverts hcanonical hpath
      have hvalue : (read number (.object members)).value = some ⟨name, path⟩ := by
        simp only [read, Fields.openAt, Reading.pure_bind, Reading.value_bind, hnameValue,
          hpathValue]
        rfl
      exact ⟨_, hvalue, hnamePresent, hpathPresent⟩
  | _ => simp [read, Fields.openAt] at hclean

theorem RuleEntry.isWrittenAs_of_read (hcanonical : value.Canonical)
    (hclean : (read number value).defects = []) :
    (read number value).value.IsWrittenAs value := by
  cases value with
  | object members =>
      simp only [read, Fields.openAt, Reading.pure_bind, Reading.defects_bind,
        List.append_eq_nil_iff] at hclean
      obtain ⟨hpriority, hconditions, hresults, -⟩ := hclean
      obtain ⟨priority, hpriorityPresent, hpriorityValue⟩ :=
        Fields.required_clean Decode.integer_inverts hcanonical hpriority
      obtain ⟨results, hresultsPresent, hresultsValue⟩ :=
        Fields.required_clean Decode.map_inverts hcanonical hresults
      have hgives := Fields.optional_clean Decode.map_inverts hcanonical hconditions
      simp only [read, Fields.openAt, Reading.pure_bind, Reading.value_bind, Reading.value_pure,
        hpriorityValue, hresultsValue, Option.getD_some]
      constructor
      case priority => exact hpriorityPresent
      case conditions => exact hgives.getD .empty
      case results => exact hresultsPresent
  | _ => simp [read, Fields.openAt] at hclean

theorem Strategy.isWrittenAs_of_read (hcanonical : value.Canonical)
    (hclean : (read value).defects = []) : (read value).value.IsWrittenAs value := by
  cases value with
  | object members =>
      simp only [read, Fields.openAt, Reading.pure_bind, Reading.defects_bind,
        List.append_eq_nil_iff] at hclean
      obtain ⟨hmodeText, hmode, hconflictText, hconflict, hstop, -⟩ := hclean
      have hmodeGives :=
        Fields.label_clean MatchMode.name_of_ofName? hcanonical hmodeText hmode
      have hconflictGives :=
        Fields.label_clean ConflictPolicy.name_of_ofName? hcanonical hconflictText hconflict
      have hstopGives := Fields.optional_clean Decode.truth_inverts hcanonical hstop
      simp only [read, Fields.openAt, Reading.pure_bind, Reading.value_bind, Reading.value_pure]
      constructor
      case isObject => exact ⟨members, rfl⟩
      case mode => exact hmodeGives.getD .firstMatch
      case conflict => exact hconflictGives.getD .priority
      case stopOnError => exact hstopGives.getD false
  | _ => simp [read, Fields.openAt] at hclean

/-! ## Whole definitions -/

theorem forall₂_of_zipIdx {α : Type} {R : Json → α → Prop} {items : List Json} {values : List α}
    (hall : List.Forall₂ (fun entry a => R entry.1 a) items.zipIdx values) :
    List.Forall₂ R items values := by
  have hitems : List.Forall₂ R (items.zipIdx.map Prod.fst) values :=
    List.forall₂_map_left_iff.mpr hall
  rwa [List.zipIdx_map_fst] at hitems

theorem canonical_of_mem_zipIdx {items : List Json} (hcanonical : (Json.array items).Canonical)
    {entry : Json × Nat} (hentry : entry ∈ items.zipIdx) : entry.1.Canonical :=
  Json.canonicalItems_iff.mp hcanonical _ (List.fst_mem_of_mem_zipIdx hentry)

/-- Entries without a flaw are read one by one. -/
theorem forall₂_of_readEntries {α : Type} {read : Nat → Json → Reading α} {items : List Json}
    {R : Json → α → Prop}
    (hread : ∀ {number item}, item.Canonical → (read number item).defects = [] →
      R item (read number item).value)
    (hcanonical : (Json.array items).Canonical) (hclean : (readEntries read items).defects = []) :
    List.Forall₂ R items (readEntries read items).value := by
  apply forall₂_of_zipIdx
  apply Reading.forall₂_value_of_all _ hclean
  intro entry hentry
  exact hread (canonical_of_mem_zipIdx hcanonical hentry)

/-- The same where entries can be left out, of which none is. -/
theorem forall₂_filterMap_of_readEntries {α : Type} {read : Nat → Json → Reading (Option α)}
    {items : List Json} {R : Json → α → Prop}
    (hread : ∀ {number item}, item.Canonical → (read number item).defects = [] →
      ∃ a, (read number item).value = some a ∧ R item a)
    (hcanonical : (Json.array items).Canonical) (hclean : (readEntries read items).defects = []) :
    List.Forall₂ R items ((readEntries read items).value.filterMap id) := by
  apply forall₂_of_zipIdx
  apply Reading.forall₂_filterMap_of_all _ hclean
  intro entry hentry
  exact hread (canonical_of_mem_zipIdx hcanonical hentry)

namespace Definition

theorem isConfiguredAs_of_readConfiguration {path : String} (hcanonical : value.Canonical)
    (hclean : (readConfiguration path value).defects = []) :
    (readConfiguration path value).value.IsConfiguredAs value ∧
      (readConfiguration path value).value.path = path := by
  cases value with
  | object members =>
      simp only [readConfiguration, Fields.openAt, Reading.pure_bind, Reading.defects_bind,
        List.append_eq_nil_iff, Fields.find?_eq_present?] at hclean
      obtain ⟨hinputs, houtputs, hrules, hinputEntries, houtputEntries, hruleEntries, hdefaults,
        hstrategy⟩ := hclean
      obtain ⟨inputs, hinputsPresent, hinputsValue⟩ :=
        Fields.required_clean Decode.list_inverts hcanonical hinputs
      obtain ⟨outputs, houtputsPresent, houtputsValue⟩ :=
        Fields.required_clean Decode.list_inverts hcanonical houtputs
      obtain ⟨rules, hrulesPresent, hrulesValue⟩ :=
        Fields.required_clean Decode.list_inverts hcanonical hrules
      have hdefaultsGives := Fields.optional_clean Decode.map_inverts hcanonical hdefaults
      rw [hinputsValue] at hinputEntries
      rw [houtputsValue] at houtputEntries
      rw [hrulesValue] at hruleEntries
      have hinputsRead := forall₂_filterMap_of_readEntries InputField.isWrittenAs_of_read
        (Json.canonical_of_present? hcanonical hinputsPresent) hinputEntries
      have houtputsRead := forall₂_filterMap_of_readEntries OutputField.isWrittenAs_of_read
        (Json.canonical_of_present? hcanonical houtputsPresent) houtputEntries
      have hrulesRead := forall₂_of_readEntries RuleEntry.isWrittenAs_of_read
        (Json.canonical_of_present? hcanonical hrulesPresent) hruleEntries
      obtain ⟨strategy, hvalue, hstrategyGives⟩ :
          ∃ strategy, (readConfiguration path (.object members)).value =
              ⟨path, (readEntries InputField.read inputs).value.filterMap id,
                (readEntries OutputField.read outputs).value.filterMap id,
                (readEntries RuleEntry.read rules).value,
                ((⟨.decisionTable, members⟩ : Fields).optional "defaultResults" Decode.map).value,
                strategy⟩ ∧
            (Json.object members).Gives "executionStrategy" (strategy = .standard)
              strategy.IsWrittenAs := by
        simp only [readConfiguration, Fields.openAt, Reading.pure_bind, Reading.value_bind,
          hinputsValue, houtputsValue, hrulesValue, Option.getD_some, Fields.find?_eq_present?,
          Json.Gives]
        cases hpresent : (Json.object members).present? "executionStrategy" with
        | none => exact ⟨.standard, rfl, rfl⟩
        | some found =>
            simp only [hpresent, Reading.defects_bind, List.append_eq_nil_iff] at hstrategy
            have hfound := Json.canonical_of_present? hcanonical hpresent
            exact ⟨_, rfl, Strategy.isWrittenAs_of_read hfound hstrategy.1⟩
      rw [hvalue]
      refine ⟨?_, rfl⟩
      constructor
      case inputs => exact ⟨inputs, hinputsPresent, hinputsRead⟩
      case outputs => exact ⟨outputs, houtputsPresent, houtputsRead⟩
      case rules => exact ⟨rules, hrulesPresent, hrulesRead⟩
      case defaults => exact hdefaultsGives.present?_eq
      case strategy => exact hstrategyGives
  | _ => simp [readConfiguration, Fields.openAt] at hclean

theorem isWrittenAs_of_read (hcanonical : value.Canonical) (hclean : (read value).defects = []) :
    (read value).value.IsWrittenAs value := by
  cases value with
  | object members =>
      simp only [read, Fields.openAt, Reading.pure_bind, Reading.defects_bind,
        List.append_eq_nil_iff] at hclean
      obtain ⟨hpath, hconfig, hconfiguration⟩ := hclean
      obtain ⟨path, hpathPresent, hpathValue⟩ :=
        Fields.required_clean Decode.text_inverts hcanonical hpath
      obtain ⟨config, hconfigWritten, hconfigValue⟩ :=
        Fields.required_clean Decode.any_inverts hcanonical hconfig
      have hconfigPresent : (Json.object members).present? "decisionTable" = some config :=
        hconfigWritten
      have hvalue : (read (.object members)).value = (readConfiguration path config).value := by
        simp only [read, Fields.openAt, Reading.pure_bind, Reading.value_bind, hpathValue,
          hconfigValue, Option.getD_some]
      simp only [hpathValue, hconfigValue, Option.getD_some] at hconfiguration
      obtain ⟨hconfigured, hpathRead⟩ := isConfiguredAs_of_readConfiguration
        (Json.canonical_of_present? hcanonical hconfigPresent) hconfiguration
      rw [hvalue]
      constructor
      case path => rw [hpathRead, hpathPresent]
      case configuration => exact ⟨config, hconfigPresent, hconfigured⟩
  | _ => simp [read, Fields.openAt] at hclean

/-- A defective rule keeps its slot. -/
theorem length_rules_read {config : Json} {items : List Json}
    (hconfig : value.present? "decisionTable" = some config)
    (hitems : config.present? "rules" = some (.array items)) :
    (read value).value.rules.length = items.length := by
  cases value with
  | object members =>
      cases config with
      | object configMembers =>
          have hrules : ((⟨.decisionTable, configMembers⟩ : Fields).required "rules"
              Decode.list).value = some items := by
            rw [Fields.required, Fields.find?_eq_present?, hitems]
            rfl
          simp only [read, readConfiguration, Fields.openAt, Reading.pure_bind, Reading.value_bind,
            value_required_any, hconfig, hrules]
          cases (⟨.decisionTable, configMembers⟩ : Fields).find? "executionStrategy" <;>
            simp [readEntries]
      | _ => simp [Json.present?, Json.get?] at hitems
  | _ => simp [Json.present?, Json.get?] at hconfig

/--
Reading loses nothing silently: the rules keep their number, what is read without a defect is what
the value says, and the defects are just the flaws that the value has.
-/
theorem read_loses_nothing (value : Json) :
    (∀ config items, value.present? "decisionTable" = some config →
      config.present? "rules" = some (.array items) →
        (read value).value.rules.length = items.length) ∧
    (value.Canonical → (read value).defects = [] → (read value).value.IsWrittenAs value) ∧
    ∀ defect, defect ∈ (read value).defects ↔ value.HasFlaw defect :=
  ⟨fun _ _ => length_rules_read, isWrittenAs_of_read, fun _ => mem_read_iff⟩

/-- A type in capitals, a rule without conditions, and no strategy. -/
def letters : Json :=
  .object
    [("decisionTable", .object
      [("inputs", .array [.object [("name", .string "weight"), ("path", .string "@.weight"),
          ("type", .string "Number")]]),
        ("outputs", .array [.object [("name", .string "class"), ("path", .string "@.class")]]),
        ("rules", .array [.object [("priority", .number (.ofInt64 (-2))),
          ("results", .object [("class", .string "heavy")])]])]),
      ("path", .string "$.letters[*]")]

/-- An unknown type, a rule that is no object, one without results, and a strategy that is text. -/
def spoiltLetters : Json :=
  .object
    [("decisionTable", .object
      [("executionStrategy", .string "fast"),
        ("inputs", .array [.object [("name", .string "weight"), ("path", .string "@.weight"),
          ("type", .string "Mass")]]),
        ("outputs", .array [.object [("name", .string "class"), ("path", .string "@.class")]]),
        ("rules", .array [.null, .object [("priority", .number (.ofInt64 (-2)))]])]),
      ("path", .string "$.letters[*]")]

theorem read_loses_nothing_letters :
    (read letters).value.IsWrittenAs letters ∧
      (read spoiltLetters).value.rules.length = 2 ∧
      Defect.unknownName .inputType "mass" ∈ (read spoiltLetters).defects ∧
      Defect.notAnObject (.rule 1) "null" ∈ (read spoiltLetters).defects ∧
      Defect.missingField (.rule 2) "results" ∈ (read spoiltLetters).defects ∧
      Defect.notAnObject .executionStrategy "string" ∈ (read spoiltLetters).defects := by
  have hcanonical : letters.Canonical := by
    simp [letters, Json.Canonical, Json.CanonicalItems, Json.CanonicalMembers, Entries.Sorted]
    cbv
  have hclean : (read letters).defects = [] := by cbv
  obtain ⟨-, hwritten, -⟩ := read_loses_nothing letters
  obtain ⟨hcount, -, hflaws⟩ := read_loses_nothing spoiltLetters
  -- The parts of the value that are flawed, each with its place.
  have hinput : spoiltLetters.HasPart (.input 1) (.object [("name", .string "weight"),
      ("path", .string "@.weight"), ("type", .string "Mass")]) :=
    .entry rfl (.head _) rfl rfl
  have hnull : spoiltLetters.HasPart (.rule 1) .null :=
    .entry rfl (.tail _ (.tail _ (.head _))) rfl rfl
  have hrule : spoiltLetters.HasPart (.rule 2) (.object [("priority", .number (.ofInt64 (-2)))]) :=
    .entry rfl (.tail _ (.tail _ (.head _))) rfl rfl
  have hstrategy : spoiltLetters.HasPart .executionStrategy (.string "fast") :=
    .executionStrategy rfl rfl
  refine ⟨hwritten hcanonical hclean, hcount _ _ rfl rfl, ?_, ?_, ?_, ?_⟩
  · refine (hflaws _).mpr ⟨_, _, hinput, .inr ⟨_, rfl, _, .tail _ (.tail _ (.head _)), ?_⟩⟩
    refine .inr (.inr ⟨.inputType, "Mass", rfl, rfl, by decide +kernel, ?_⟩)
    cbv
  · exact (hflaws _).mpr ⟨_, _, hnull, .inl ⟨by simp, rfl⟩⟩
  · refine (hflaws _).mpr ⟨_, _, hrule, .inr ⟨_, rfl, _, .tail _ (.tail _ (.head _)), ?_⟩⟩
    exact .inl ⟨rfl, rfl, rfl⟩
  · exact (hflaws _).mpr ⟨_, _, hstrategy, .inl ⟨by simp, rfl⟩⟩

end Definition

end DecisionTables
