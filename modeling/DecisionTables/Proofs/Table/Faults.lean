import DecisionTables.Proofs.Path.Writing
import DecisionTables.Proofs.Table.IndexedRun
import DecisionTables.Proofs.Table.WellFormedness
import Mathlib

/-!
# Faults in the run of an accepted table

A run may come to errors that lie in the document: a path that selects several nodes, a write that
is blocked, a function that fails on its arguments.  Errors of the table itself are ruled out when
it is compiled.  No position is out of range, no output is written through a wildcard, and no call
has an unknown function or a wrong number of arguments, unless a function itself returns such an
error.  Every diagnostic of a run is traced to where it arises, and there it is none of these.
-/

namespace DecisionTables

/-- The error that a notice tells. -/
def Notice.error? : Notice → Option CallError
  | nullInput _ => none
  | unreadableInput _ _ error => some (.path error)
  | uncomputedOutput _ error => some error
  | unwrittenOutput _ error => some (.path error)

namespace CallError

/-- An error that lies in a table and not in the document. -/
def IsInternal (error : CallError) : Prop :=
  error.IsReference ∨ ∃ path, error = .path (.unwritable path .wildcard)

theorem IsAmbiguity.not_isInternal {error : CallError} (hambiguous : error.IsAmbiguity) :
    ¬ error.IsInternal := by
  obtain ⟨path, count, rfl⟩ := hambiguous
  simp [IsInternal, IsReference]

end CallError

/-- The notice tells no error of the table itself, unless a function has returned it. -/
structure Notice.IsOrdinary (functions : Registry) (notice : Notice) : Prop where
  write : ∀ output path, notice ≠ .unwrittenOutput output (.unwritable path .wildcard)
  error : ∀ error, notice.error? = some error → error.IsInternal → functions.Raises error

namespace Path

theorem not_isInternal_of_parse {source : String} {error : PathError}
    (hparse : Path.parse source = .error error) : ¬ (CallError.path error).IsInternal := by
  unfold parse at hparse
  split at hparse
  · contradiction
  · obtain rfl := Except.error.inj hparse
    simp [CallError.IsInternal, CallError.IsReference]

end Path

namespace Table

variable {table : Table} {document : Json} {row : Location}

/-! ## Inputs -/

theorem Input.not_isInternal_of_extract {field : InputField} {error : PathError}
    (hfailed : (Input.ofField field).extract document row = .failed error) :
    ¬ (CallError.path error).IsInternal := by
  unfold extract ofField at hfailed
  cases hparse : Path.parse field.path with
  | error syntaxError =>
      obtain rfl : syntaxError = error := by simpa [hparse] using hfailed
      exact Path.not_isInternal_of_parse hparse
  | ok path =>
      cases hselected : path.selectOne document row with
      | error pathError =>
          obtain rfl : pathError = error := by simpa [hparse, hselected] using hfailed
          exact (Path.isAmbiguity_of_selectOne hselected).not_isInternal
      | ok node =>
          simp only [hparse, hselected] at hfailed
          split at hfailed <;> simp_all

theorem Rule.exists_of_verdict_failed {rule : Rule} {extract : Input → Extracted}
    {options : CriteriaOptions} {name : String} {error : PathError}
    (hfailed : rule.verdict extract options = .failed name error) :
    ∃ condition ∈ rule.conditions, extract condition.input = .failed error := by
  unfold verdict at hfailed
  split at hfailed
  · rename_i input found hfailure
    obtain ⟨condition, hcondition, hsome⟩ := List.exists_of_findSome?_eq_some hfailure
    refine ⟨condition, hcondition, ?_⟩
    split at hsome <;> simp_all
  · split at hfailed <;> contradiction

/-- The notice tells how the rule has failed. -/
def Notice.Tells (notice : Notice) (verdict : Rule → Verdict) (rule : Rule) : Prop :=
  ∃ name error, verdict rule = .failed name error ∧
    notice = .unreadableInput rule.number name error

theorem mem_scan_notices {verdict : Rule → Verdict} {strategy : Strategy} {rules : List Rule}
    {notice : Notice} (hnotice : notice ∈ (scan verdict strategy rules).notices) :
    ∃ rule ∈ rules, Notice.Tells notice verdict rule := by
  induction rules with
  | nil => simp [scan, Selection.none] at hnotice
  | cons rule rest ih =>
      have hlater : notice ∈ (scan verdict strategy rest).notices →
          ∃ failed ∈ rule :: rest, Notice.Tells notice verdict failed := fun hrest =>
        (ih hrest).imp fun _ => And.imp_left (List.mem_cons_of_mem _)
      cases hverdict : verdict rule with
      | unmatching =>
          simp only [scan, hverdict] at hnotice
          exact hlater hnotice
      | matching =>
          simp only [scan, hverdict] at hnotice
          split at hnotice
          · simp [Selection.afterMatching, Selection.afterUnmatching, Selection.none] at hnotice
          · exact hlater hnotice
      | failed name error =>
          have hhead : notice = .unreadableInput rule.number name error →
              ∃ failed ∈ rule :: rest, Notice.Tells notice verdict failed := fun htold =>
            ⟨rule, List.mem_cons_self, name, error, hverdict, htold⟩
          simp only [scan, hverdict] at hnotice
          split at hnotice
          · exact hhead (by simpa [Selection.afterFailed, Selection.none] using hnotice)
          · exact (List.mem_cons.mp hnotice).elim hhead hlater

theorem mem_select_notices {extract : Input → Extracted} {notice : Notice}
    (hnotice : notice ∈ (table.select extract).notices) :
    ∃ rule ∈ table.rules, Notice.Tells notice
      (fun rule => rule.verdict extract table.options.criteria) rule := by
  have hscan : (table.select extract).notices =
      (scan (fun rule => rule.verdict extract table.options.criteria) table.strategy
        table.rules).notices := by
    unfold select
    split <;> rfl
  rw [hscan] at hnotice
  exact mem_scan_notices hnotice

theorem IsResolved.isOrdinary_of_select (hresolved : table.IsResolved) {notice : Notice}
    (hnotice : notice ∈ (table.select fun input => input.extract document row).notices) :
    notice.IsOrdinary table.functions := by
  obtain ⟨rule, hrule, name, error, hfailed, rfl⟩ := mem_select_notices hnotice
  obtain ⟨condition, hcondition, hextract⟩ := Rule.exists_of_verdict_failed hfailed
  have hinput := hresolved.input_mem hrule hcondition
  rw [hresolved.inputs_eq] at hinput
  obtain ⟨field, -, hfield⟩ := List.mem_map.mp hinput
  rw [← hfield] at hextract
  refine ⟨by simp, fun told htold hinternal => ?_⟩
  obtain rfl : CallError.path error = told := Option.some.inj htold
  exact absurd hinternal (Input.not_isInternal_of_extract hextract)

/-! ## Values -/

theorem evaluateResults_error {functions : Registry} {context : Context} {position : Nat}
    {results : List ResultValue} {error : CallError}
    (herror : evaluateResults functions context position results = .error error) :
    ∃ result ∈ results, ∃ place, result.evaluate functions (context.within place) =
      .error error := by
  induction results generalizing position with
  | nil => simp [evaluateResults] at herror
  | cons result rest ih =>
      cases hresult : result.evaluate functions (context.within position) with
      | error first =>
          obtain rfl : first = error := by simpa [evaluateResults, hresult] using herror
          exact ⟨result, List.mem_cons_self, position, hresult⟩
      | ok value =>
          cases hrest : evaluateResults functions context (position + 1) rest with
          | error later =>
              obtain rfl : later = error := by
                simpa [evaluateResults, hresult, hrest] using herror
              exact (ih hrest).imp fun _ => And.imp_left (List.mem_cons_of_mem _)
          | ok values => simp [evaluateResults, hresult, hrest] at herror

theorem Pick.evaluate_error {pick : Pick} {functions : Registry} {dedup : Bool}
    {context : Context} {error : CallError}
    (herror : pick.evaluate functions dedup context = .error error) :
    ∃ result ∈ pick.results, ∃ context, result.evaluate functions context = .error error := by
  cases pick with
  | one result => exact ⟨result, List.mem_singleton_self result, context, herror⟩
  | merged results =>
      cases hvalues : evaluateResults functions context 0 results with
      | ok values => simp [evaluate, hvalues, Except.map] at herror
      | error first =>
          obtain rfl : first = error := by simpa [evaluate, hvalues, Except.map] using herror
          obtain ⟨result, hresult, place, hevaluate⟩ := evaluateResults_error hvalues
          exact ⟨result, hresult, _, hevaluate⟩

theorem ResultSet.Realizes.isValid {outputs : List Output} {functions : Registry}
    {entries : KeyMap Json} {results : ResultSet}
    (hrealizes : results.Realizes outputs functions entries) {output : Output}
    (houtput : output ∈ outputs) {result : ResultValue}
    (hresult : results.resultFor? output = some result) : result.IsValid functions := by
  have hconfigured := hrealizes.resultFor?_eq_some_iff output houtput result
  obtain ⟨value, hvalue, hread⟩ := hconfigured.mp hresult
  obtain ⟨_, -, -, compiled, hcompiled⟩ := hrealizes.entry_valid _ (Entries.mem_of_get? hvalue)
  obtain ⟨hcompiledRead, hvalid⟩ := compileResultValue_eq_ok_iff.mp hcompiled
  obtain rfl : compiled = result := Except.ok.inj (hcompiledRead.symm.trans hread)
  exact hvalid

theorem IsResolved.isValid_of_contributions (hresolved : table.IsResolved) {rules : List Rule}
    (hrules : ∀ rule ∈ rules, rule ∈ table.rules) {set : ResultSet}
    (hset : set ∈ (table.contributions rules).2) {output : Output}
    (houtput : output ∈ table.outputs) {result : ResultValue}
    (hresult : set.resultFor? output = some result) : result.IsValid table.functions := by
  rcases mem_contributions hset with ⟨rule, hrule, rfl⟩ | hdefaults
  · obtain ⟨_, -, hrealized, -⟩ := hresolved.rules_in_order
    obtain ⟨_, -, hrealizes⟩ := exists_left_of_forall₂ hrealized (hrules rule hrule)
    exact hrealizes.results.isValid houtput hresult
  · have hrealized := hresolved.defaults
    rw [hdefaults] at hrealized
    generalize table.definition.defaults = configured at hrealized
    cases hrealized with
    | some hrealizes => exact hrealizes.isValid houtput hresult

/-- An error in computing an output is no error of the table, or a function has returned it. -/
theorem IsResolved.isOrdinary_of_computeAll (hresolved : table.IsResolved) {rules : List Rule}
    (hrules : ∀ rule ∈ rules, rule ∈ table.rules) {policy : ConflictPolicy} {context : Context}
    {position : Nat} {notice : Notice}
    (hnotice : notice ∈ (table.computeAll context position
      (picks table.outputs policy (table.contributions rules).2)).2) :
    notice.IsOrdinary table.functions := by
  obtain ⟨entry, hentry, error, place, rfl, herror⟩ := mem_computeAll_notices hnotice
  obtain ⟨result, hresult, _, hevaluate⟩ := Pick.evaluate_error herror
  obtain ⟨houtput, hresults⟩ := mem_picks_spec hentry
  obtain ⟨set, hset, hfor⟩ := hresults result hresult
  have hvalid := hresolved.isValid_of_contributions hrules hset houtput hfor
  refine ⟨by simp, fun told htold hinternal => ?_⟩
  obtain rfl : error = told := Option.some.inj htold
  rcases hvalid.evaluate_error hevaluate with hambiguous | hraises
  · exact absurd hinternal hambiguous.not_isInternal
  · exact hraises

/-! ## Writes -/

theorem IsResolved.isOrdinary_of_writeAll (hresolved : table.IsResolved)
    {values : List (Output × Json)} (hvalues : ∀ entry ∈ values, entry.1 ∈ table.outputs)
    {notice : Notice} (hnotice : notice ∈ (writeAll row values document).notices) :
    notice.IsOrdinary table.functions := by
  obtain ⟨entry, hentry, error, before, rfl, herror⟩ := mem_writeAll_notices hnotice
  obtain ⟨field, -, -, -, hplain⟩ := exists_left_of_forall₂ hresolved.outputs (hvalues entry hentry)
  have hne : ∀ source, error ≠ .unwritable source .wildcard := fun source heq =>
    Path.write_error_ne_wildcard hplain row entry.2 before source (herror.trans (congrArg some heq))
  refine ⟨fun output source htold => ?_, fun told htold hinternal => ?_⟩
  · exact hne source (by simpa using (Notice.unwrittenOutput.inj htold).2)
  · obtain rfl : CallError.path error = told := Option.some.inj htold
    rcases hinternal with hreference | ⟨source, hsource⟩
    · exact hreference.elim
    · exact absurd (CallError.path.inj hsource) (hne source)

/-! ## Runs -/

theorem IsResolved.isOrdinary_of_runRow (hresolved : table.IsResolved) {occasion : Occasion}
    {index : Nat} {notice : Notice}
    (hnotice : notice ∈ (table.runRow occasion index row document).notices) :
    notice.IsOrdinary table.functions := by
  let extract := fun input : Input => input.extract document row
  have hselection : notice ∈ extractionNotices table.inputs extract ++
      (table.select extract).notices → notice.IsOrdinary table.functions := by
    intro hbefore
    rcases List.mem_append.mp hbefore with hwarning | hselected
    · obtain ⟨input, -, rfl⟩ := List.mem_map.mp hwarning
      exact ⟨by simp, by simp [Notice.error?]⟩
    · exact hresolved.isOrdinary_of_select hselected
  unfold runRow at hnotice
  simp only at hnotice
  split at hnotice
  · exact hselection hnotice
  · rcases List.mem_append.mp hnotice with hbefore | hfault
    · exact hselection hbefore
    · rcases List.mem_append.mp hfault with huncomputed | hunwritten
      · exact hresolved.isOrdinary_of_computeAll (fun _ => mem_of_mem_select) huncomputed
      · exact hresolved.isOrdinary_of_writeAll (fun _ => mem_outputs_of_computeAll) hunwritten

theorem IsResolved.isOrdinary_of_runRows (hresolved : table.IsResolved) {occasion : Occasion}
    {index : Nat} {rows : List Location} {diagnostic : Diagnostic}
    (hdiagnostic : diagnostic ∈
      (table.runRows occasion index rows document).report.diagnostics) :
    diagnostic.notice.IsOrdinary table.functions := by
  induction rows generalizing index document with
  | nil => simp [runRows] at hdiagnostic
  | cons row rest ih =>
      simp only [runRows] at hdiagnostic
      rcases List.mem_append.mp hdiagnostic with hrow | hlater
      · obtain ⟨notice, hnotice, rfl⟩ := List.mem_map.mp hrow
        exact hresolved.isOrdinary_of_runRow hnotice
      · exact ih hlater

end Table

namespace Definition

variable {definition : Definition} {functions : Registry} {options : TableOptions}
  {table : Table}

/--
Everything in an accepted table has its place, so that a run never looks beyond the end of a list.
No write is refused for a wildcard, and no call for its reference, unless functions themselves
return such errors.
-/
theorem execute_without_internal_faults
    (haccepted : definition.compile functions options = .ok table) :
    table.indexed.IsPlaced definition.rules.length ∧
    ∀ (document : Json) (occasion : Occasion),
      table.indexed.execute? document occasion = some (table.execute document occasion) ∧
      (∀ diagnostic ∈ (table.execute document occasion).report.diagnostics,
        diagnostic.notice.IsOrdinary functions) ∧
      ((∀ error, functions.Raises error → ¬ error.IsReference) →
        ∀ diagnostic ∈ (table.execute document occasion).report.diagnostics, ∀ error,
          diagnostic.notice.error? = some error → ¬ error.IsReference) := by
  obtain ⟨-, hfunctions, -, hresolved⟩ := compile_spec haccepted
  refine ⟨isPlaced_of_compile haccepted, fun document occasion => ?_⟩
  have hordinary : ∀ diagnostic ∈ (table.execute document occasion).report.diagnostics,
      diagnostic.notice.IsOrdinary functions := by
    intro diagnostic hdiagnostic
    exact hfunctions ▸ hresolved.isOrdinary_of_runRows hdiagnostic
  refine ⟨execute?_of_compile haccepted document occasion, hordinary, ?_⟩
  intro hraises diagnostic hdiagnostic error herror hreference
  exact hraises error ((hordinary diagnostic hdiagnostic).error error herror (.inl hreference))
    hreference

/-- The second rule comes first; its carrier cannot be computed, and its fee cannot be written. -/
def parcels : Definition :=
  { path := "$.parcels[*]"
    inputs := [⟨"weight", "@.weight", none⟩, ⟨"zone", "@.zone", none⟩]
    outputs := [⟨"label", "@.label"⟩, ⟨"fee", "@.fee.amount"⟩, ⟨"carrier", "@.carriers[2]"⟩]
    rules :=
      [⟨5, .ofPairs [("zone", .string "north")],
        .ofPairs [("label", .string "#concat('to ', #valueof('@.zone'))")]⟩,
        ⟨1, .ofPairs [("zone", .string "north"), ("weight", .string "heavy")],
          .ofPairs [("carrier", .string "#valueof('@.names[*]')"), ("fee", .string "high")]⟩]
    defaults := some (.ofPairs [("label", .string "none")])
    strategy := ⟨.allMatches, .lastWins, false⟩ }

def parcelsTable : Table :=
  let weight : Table.Input := ⟨"weight", .ok ⟨"@.weight", .row, [.key "weight"]⟩, none⟩
  let zone : Table.Input := ⟨"zone", .ok ⟨"@.zone", .row, [.key "zone"]⟩, none⟩
  let label : Table.Output := ⟨"label", ⟨"@.label", .row, [.key "label"]⟩⟩
  let fee : Table.Output := ⟨"fee", ⟨"@.fee.amount", .row, [.key "fee", .key "amount"]⟩⟩
  let carrier : Table.Output := ⟨"carrier", ⟨"@.carriers[2]", .row, [.key "carriers", .index 2]⟩⟩
  let text := ResultValue.computed "#concat('to ', #valueof('@.zone'))"
    ⟨"concat", [.literal (.string "to "), .call "valueof" [.literal (.string "@.zone")]]⟩
  let names := ResultValue.computed "#valueof('@.names[*]')"
    ⟨"valueof", [.literal (.string "@.names[*]")]⟩
  let north : Table.Condition := ⟨zone, .expression [[.test .equal (.text "north")]]⟩
  let heavy : Table.Condition := ⟨weight, .expression [[.test .equal (.text "heavy")]]⟩
  { definition := parcels
    target := ⟨parcels.path, .document, [.key "parcels", .wildcard]⟩
    inputs := [weight, zone]
    outputs := [label, fee, carrier]
    rules := [⟨1, 1, [heavy, north], [(fee, .fixed (.string "high")), (carrier, names)]⟩,
      ⟨0, 5, [north], [(label, text)]⟩]
    defaults := some [(label, .fixed (.string "none"))]
    options := {}
    functions := Registry.builtins ⟨fun _ => 0, ⟨0, 0⟩, fun _ => 0⟩ }

def parcelsDocument : Json :=
  .object [("parcels", .array [.object [("fee", .string "paid"), ("names", .array [.null, .null]),
    ("weight", .string "heavy"), ("zone", .string "north")], .object []])]

theorem execute_parcels_without_internal_faults :
    parcels.compile parcelsTable.functions = .ok parcelsTable ∧
      parcelsTable.indexed.IsPlaced 2 ∧
      parcelsTable.indexed.execute? parcelsDocument =
        some (parcelsTable.execute parcelsDocument) ∧
      (parcelsTable.execute parcelsDocument).report.errors.length = 2 ∧
      ∀ diagnostic ∈ (parcelsTable.execute parcelsDocument).report.diagnostics, ∀ error,
        diagnostic.notice.error? = some error → ¬ error.IsReference := by
  have haccepted : parcels.compile parcelsTable.functions = .ok parcelsTable := by cbv
  obtain ⟨hplaced, hruns⟩ := execute_without_internal_faults haccepted
  obtain ⟨hrun, -, hreferences⟩ := hruns parcelsDocument []
  exact ⟨haccepted, hplaced, hrun, by cbv,
    hreferences fun _ hraises => Registry.not_isReference_of_builtins hraises⟩

end Definition

end DecisionTables
