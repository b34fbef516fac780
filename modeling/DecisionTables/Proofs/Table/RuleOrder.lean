import DecisionTables.Proofs.Table.Renumbering
import DecisionTables.Proofs.Table.WellFormedness
import Mathlib

/-!
# The order in which rules are declared

Compiling puts the rules in the order of their priorities and falls back on their positions only for
equal ones.  So where the priorities differ, a definition with its rules in another order is
accepted as well and compiles to the same rules in the same order, which differ in the positions
they are told with.  A run of the one table is then a run of the other with other rule numbers.
-/

namespace DecisionTables

/-- The definition with its rules in another order, given by the rule to be put at each position. -/
def Definition.permuted (definition : Definition)
    (order : Equiv.Perm (Fin definition.rules.length)) : Definition :=
  { definition with rules := List.ofFn (definition.rules.get ∘ order) }

/-- Where the rule at a position was before the rules were put in another order. -/
def originalPosition {count : Nat} (order : Equiv.Perm (Fin count)) (position : Nat) : Nat :=
  if hwithin : position < count then order ⟨position, hwithin⟩ else position

variable {definition : Definition} {functions : Registry} {options : TableOptions}

/-! ## Permuted definitions -/

theorem Definition.rules_permuted_perm (order : Equiv.Perm (Fin definition.rules.length)) :
    (definition.permuted order).rules.Perm definition.rules := by
  have hperm := order.ofFn_comp_perm definition.rules.get
  rwa [List.ofFn_get] at hperm

theorem Definition.WellFormed.permuted (hformed : definition.WellFormed functions)
    (order : Equiv.Perm (Fin definition.rules.length)) :
    (definition.permuted order).WellFormed functions where
  target := hformed.target
  inputNames := hformed.inputNames
  outputNames := hformed.outputNames
  outputPaths := hformed.outputPaths
  rules rule hrule := hformed.rules rule ((rules_permuted_perm order).mem_iff.mp hrule)
  defaults := hformed.defaults

/-- Told with their original positions, the permuted rules are the original ones. -/
theorem Definition.zipIdx_permuted_perm (order : Equiv.Perm (Fin definition.rules.length)) :
    ((definition.permuted order).rules.zipIdx.map (Prod.map id (originalPosition order))).Perm
      definition.rules.zipIdx := by
  let numbered := fun position : Fin definition.rules.length =>
    (definition.rules.get position, position.val)
  have hpermuted : (definition.permuted order).rules.zipIdx.map
      (Prod.map id (originalPosition order)) = List.ofFn (numbered ∘ order) := by
    apply List.ext_getElem
    · simp [permuted]
    · intro position hposition _
      have hwithin : position < definition.rules.length := by simpa [permuted] using hposition
      simp [permuted, originalPosition, numbered, hwithin]
  have horiginal : definition.rules.zipIdx = List.ofFn numbered := by
    apply List.ext_getElem
    · simp
    · simp [numbered]
  rw [hpermuted, horiginal]
  exact order.ofFn_comp_perm numbered

namespace Table

variable {inputs : List Input} {outputs : List Output} {rename : Nat → Nat}

/-! ## Compiled rules -/

theorem value_compileCondition (inputs : List Input) (ruleNumber other : Nat)
    (entry : String × Json) :
    (compileCondition inputs ruleNumber entry).value =
      (compileCondition inputs other entry).value := by
  unfold compileCondition
  cases findInput? inputs entry.1 <;> rfl

theorem value_compileResult (place other : Place) (outputs : List Output) (functions : Registry)
    (entry : String × Json) :
    (compileResult place outputs functions entry).value =
      (compileResult other outputs functions entry).value := by
  unfold compileResult
  cases findOutput? outputs entry.1 with
  | none => rfl
  | some output => cases compileResultValue functions entry.2 <;> rfl

theorem value_compileResults (place other : Place) (outputs : List Output) (functions : Registry)
    (entries : KeyMap Json) :
    (compileResults place outputs functions entries).value =
      (compileResults other outputs functions entries).value := by
  simp only [compileResults, Reading.value_bind, Reading.value_pure, Reading.value_all,
    List.map_map, Function.comp_def, value_compileResult place other]

/-- The position of a rule has no part in what else it compiles to. -/
theorem value_compileRule (inputs : List Input) (outputs : List Output) (functions : Registry)
    (rename : Nat → Nat) (declaration : Nat) (entry : RuleEntry) :
    (compileRule inputs outputs functions (rename declaration) entry).value =
      (compileRule inputs outputs functions declaration entry).value.renumber rename := by
  simp only [compileRule, Reading.value_bind, Reading.value_pure, Reading.value_all, List.map_map,
    Function.comp_def, Rule.renumber,
    value_compileCondition inputs (rename declaration + 1) (declaration + 1),
    value_compileResults (.rule (rename declaration + 1)) (.rule (declaration + 1))]

theorem pairwise_priority_mergeSort {rules : List Rule}
    (hdistinct : (rules.map Rule.priority).Nodup) :
    (rules.mergeSort Rule.precedes).Pairwise fun first second =>
      first.priority < second.priority := by
  have hsorted := List.pairwise_mergeSort Rule.precedes_trans Rule.precedes_total rules
  have hperm := (List.mergeSort_perm rules Rule.precedes).map Rule.priority
  have hne := List.pairwise_map.mp (hperm.nodup_iff.mpr hdistinct)
  refine hsorted.imp₂ ?_ hne
  intro first second hprecedes hne
  rcases Rule.precedes_iff.mp hprecedes with hless | ⟨heq, -⟩
  · exact hless
  · exact absurd heq hne

theorem mergeSort_eq_of_perm {rules other : List Rule}
    (hdistinct : (rules.map Rule.priority).Nodup)
    (hperm : (other.map (Rule.renumber rename)).Perm rules) :
    rules.mergeSort Rule.precedes =
      (other.mergeSort Rule.precedes).map (Rule.renumber rename) := by
  have hpriorities : (other.map Rule.priority).Perm (rules.map Rule.priority) := by
    simpa [Function.comp_def, Rule.renumber] using hperm.map Rule.priority
  have hsorted := pairwise_priority_mergeSort hdistinct
  have hotherSorted : ((other.mergeSort Rule.precedes).map (Rule.renumber rename)).Pairwise
      fun first second => first.priority < second.priority :=
    List.pairwise_map.mpr (pairwise_priority_mergeSort (hpriorities.nodup_iff.mpr hdistinct))
  have hsame : (rules.mergeSort Rule.precedes).Perm
      ((other.mergeSort Rule.precedes).map (Rule.renumber rename)) :=
    calc
      (rules.mergeSort Rule.precedes).Perm rules := List.mergeSort_perm _ _
      rules.Perm (other.map (Rule.renumber rename)) := hperm.symm
      (other.map (Rule.renumber rename)).Perm
          ((other.mergeSort Rule.precedes).map (Rule.renumber rename)) :=
        ((List.mergeSort_perm _ _).map _).symm
  -- The order is strict, so only one arrangement of the same rules is sorted.
  apply List.Perm.eq_of_pairwise _ hsorted hotherSorted hsame
  intro first second _ _ hless hgreater
  exact absurd hgreater (Int64.lt_asymm hless)

end Table

/-- Told with other positions, configured rules compile to the same rules with these positions. -/
theorem Definition.ruleAt_renumber (definition : Definition) (functions : Registry)
    (rename : Nat → Nat) :
    definition.ruleAt functions ∘ Prod.map id rename =
      Table.Rule.renumber rename ∘ definition.ruleAt functions := by
  funext rule
  exact Table.value_compileRule _ _ functions rename rule.2 rule.1

theorem Definition.rules_tableAt_permuted (target : Path)
    (hdistinct : (definition.rules.map RuleEntry.priority).Nodup)
    (order : Equiv.Perm (Fin definition.rules.length)) :
    (definition.tableAt target functions options).rules =
      ((definition.permuted order).tableAt target functions options).rules.map
        (Table.Rule.renumber (originalPosition order)) := by
  have hpriorities : (definition.rules.zipIdx.map (definition.ruleAt functions)).map
      Table.Rule.priority = definition.rules.map RuleEntry.priority := by
    have hfirst : definition.rules.zipIdx.map (RuleEntry.priority ∘ Prod.fst) =
        definition.rules.map RuleEntry.priority := by
      rw [← List.map_map, List.zipIdx_map_fst]
    rw [List.map_map]
    exact hfirst
  have hperm := (zipIdx_permuted_perm order).map (definition.ruleAt functions)
  rw [List.map_map, ruleAt_renumber, ← List.map_map] at hperm
  exact Table.mergeSort_eq_of_perm (hpriorities ▸ hdistinct) hperm

namespace Table

variable {table : Table}

/-- A table of permuted rules runs as the original one does, with other rule numbers. -/
theorem execute_permuted (haccepted : definition.compile functions options = .ok table)
    (hdistinct : (definition.rules.map RuleEntry.priority).Nodup)
    (hfunctions : functions.IgnoresOccasions)
    (order : Equiv.Perm (Fin definition.rules.length)) :
    ∃ other, (definition.permuted order).compile functions options = .ok other ∧
      ∀ document occasion otherOccasion,
        table.execute document occasion =
          (other.execute document otherOccasion).renumber (originalPosition order) := by
  obtain ⟨hdefects, target, hread, rfl⟩ := Definition.compile_eq_ok_iff.mp haccepted
  have hformed := Definition.resolve_defects_eq_nil_iff.mp hdefects
  have hother : ((definition.permuted order).resolve functions options).defects = [] :=
    Definition.resolve_defects_eq_nil_iff.mpr (hformed.permuted order)
  have hrenumbers : Renumbers (originalPosition order)
      (definition.tableAt target functions options)
      ((definition.permuted order).tableAt target functions options) :=
    { target := rfl
      inputs := rfl
      outputs := rfl
      rules := Definition.rules_tableAt_permuted target hdistinct order
      defaults := rfl
      strategy := rfl
      options := rfl
      functions := rfl }
  refine ⟨_, Definition.compile_eq_ok_iff.mpr ⟨hother, target, hread, rfl⟩, ?_⟩
  intro document occasion otherOccasion
  exact hrenumbers.execute_eq hfunctions occasion otherOccasion document

/-- Several rules match at once, and an input with several nodes ends the evaluation of a row. -/
def tolls : Definition :=
  { path := "$.trips[*]"
    inputs := [⟨"kind", "@.kind", none⟩, ⟨"stop", "@.stops[*]", none⟩]
    outputs := [⟨"fees", "@.fees"⟩, ⟨"note", "$.note"⟩]
    rules :=
      [⟨3, .ofPairs [("stop", .string "border")],
        .ofPairs [("fees", .array [.string "customs"])]⟩,
        ⟨-1, .empty, .ofPairs [("fees", .array [.string "base"]),
          ("note", .string "#concat('seen ', #valueof('@.kind'))")]⟩,
        ⟨2, .ofPairs [("kind", .string "truck")],
          .ofPairs [("fees", .array [.string "heavy"]), ("note", .string "trucks")]⟩]
    defaults := none
    strategy := ⟨.allMatches, .merge, true⟩ }

def tollsDocument : Json :=
  .object [("trips", .array [.object [("kind", .string "truck"),
    ("stops", .array [.string "border"])], .object [("stops", .array [.null, .null])], .null])]

theorem execute_permuted_tolls :
    (tolls.rules.map RuleEntry.priority).Nodup ∧
      [0, 1, 2].map (originalPosition (finRotate 3)) = [1, 2, 0] ∧
      ∃ table other,
        tolls.compile .steady {} = .ok table ∧
          (tolls.permuted (finRotate 3)).compile .steady {} = .ok other ∧
          table.execute tollsDocument =
            (other.execute tollsDocument [7]).renumber (originalPosition (finRotate 3)) := by
  have hok : (tolls.compile .steady {}).isOk = true := by cbv
  obtain ⟨table, haccepted⟩ := Definition.exists_of_compile_isOk hok
  have hdistinct : (tolls.rules.map RuleEntry.priority).Nodup := by decide
  have hfunctions := Registry.ignoresOccasions_steady
  obtain ⟨other, hother, hruns⟩ :=
    execute_permuted haccepted hdistinct hfunctions (finRotate 3)
  exact ⟨hdistinct, by decide, table, other, haccepted, hother, hruns tollsDocument [] [7]⟩

end Table

end DecisionTables
