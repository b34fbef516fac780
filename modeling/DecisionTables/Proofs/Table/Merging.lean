import DecisionTables.Proofs.Table.Computation
import DecisionTables.Proofs.Table.Greatest
import DecisionTables.Proofs.Table.Repeats
import DecisionTables.Proofs.Table.Selection
import Mathlib

/-!
# Merged outputs

Where several of the rules that apply to a row define an output, the policy that merges computes all
of their results, in the order of evaluation, and makes one value of them: arrays are joined, of
numbers the first greatest one is taken, and of mixed values the last one.  If one of the results
cannot be computed, the output is passed over.  The results are followed from the definition through
the resolved table into the values for the row.
-/

namespace DecisionTables

open Table

/-- What the rules have configured for an output, as far as they define it. -/
def NumberedRule.configuredFor (rules : List NumberedRule) (output : Output) : List Json :=
  rules.filterMap fun rule => rule.1.results.get? output.name

/-- Rules in the order of evaluation are listed in one way only. -/
theorem NumberedRule.eq_of_pairwise_precedes {chosen others : List NumberedRule}
    (hchosen : chosen.Pairwise Precedes) (hothers : others.Pairwise Precedes)
    (hmem : ∀ rule, rule ∈ chosen ↔ rule ∈ others) : chosen = others := by
  have hnodup : ∀ {rules : List NumberedRule}, rules.Pairwise Precedes → rules.Nodup := by
    intro rules hrules
    refine hrules.imp fun hprecedes hsame => ?_
    exact hprecedes.not_symm (hsame ▸ hprecedes)
  have hperm := (List.perm_ext_iff_of_nodup (hnodup hchosen) (hnodup hothers)).mpr hmem
  exact hperm.eq_of_pairwise (fun _ _ _ _ hfirst hsecond => absurd hsecond hfirst.not_symm)
    hchosen hothers

namespace Table

/-! ## Values that are merged -/

theorem mergeValues_array (dedup : Bool) (lists : List (List Json)) :
    mergeValues dedup (lists.map .array) =
      .array (if dedup then withoutRepeats lists.flatten else lists.flatten) := by
  have hlists : (lists.map Json.array).mapM Json.items? = some lists :=
    mapM_map_eq_some (by intro list; rfl) lists
  rw [mergeValues, hlists]

theorem mergeValues_mixed (dedup : Bool) {values : List Json} {last : Json}
    (harrays : ∃ value ∈ values, value.items? = none)
    (hnumbers : ∃ value ∈ values, value.number? = none) (hlast : values.getLast? = some last) :
    mergeValues dedup values = last := by
  rw [mergeValues, mapM_eq_none_iff.mpr harrays, mapM_eq_none_iff.mpr hnumbers]
  simp [List.getLastD_eq_getLast?, hlast]

/-! ## Results of a row -/

section Row

variable (functions : Registry) (document : Json) (row : Location)

/-- What is configured has this value for a row that finds the document. -/
def Yields (configured value : Json) : Prop :=
  ∃ result, ResultValue.ofJson configured = .ok result ∧
    ∀ occasion, result.evaluate functions ⟨document, row, occasion⟩ = .ok value

/-- What is configured cannot be computed for a row that finds the document. -/
def Fails (configured : Json) : Prop :=
  ∃ result error, ResultValue.ofJson configured = .ok result ∧
    ∀ occasion, result.evaluate functions ⟨document, row, occasion⟩ = .error error

end Row

/-- The results that are read from what is configured. -/
def AreRead (configured : List Json) (results : List ResultValue) : Prop :=
  List.Forall₂ (fun json result => ResultValue.ofJson json = .ok result) configured results

variable {table : Table} {functions : Registry} {document : Json} {row : Location}
  {configured : List Json} {results : List ResultValue}

theorem yields_or_fails (hfunctions : functions.IgnoresOccasions)
    (hread : AreRead configured results) :
    ∀ json ∈ configured,
      (∃ value, Yields functions document row json value) ∨ Fails functions document row json := by
  intro json hjson
  obtain ⟨result, -, hresult⟩ := exists_right_of_forall₂ hread hjson
  have hsame : ∀ occasion, result.evaluate functions ⟨document, row, occasion⟩ =
      result.evaluate functions ⟨document, row, []⟩ := fun occasion =>
    result.evaluate_of_sameDocument hfunctions ⟨rfl, rfl⟩
  cases hevaluate : result.evaluate functions ⟨document, row, []⟩ with
  | ok value => exact .inl ⟨value, result, hresult, fun occasion => hevaluate ▸ hsame occasion⟩
  | error error => exact .inr ⟨result, error, hresult, fun occasion => hevaluate ▸ hsame occasion⟩

theorem evaluateResults_of_yields (hread : AreRead configured results) {values : List Json}
    (hyields : List.Forall₂ (Yields functions document row) configured values)
    (occasion : Occasion) (position : Nat) :
    evaluateResults functions ⟨document, row, occasion⟩ position results = .ok values := by
  induction hread generalizing values position with
  | nil =>
      cases hyields
      rfl
  | cons hfirst _ ih =>
      obtain ⟨value, rest, ⟨result, hresult, hvalue⟩, hvalues, rfl⟩ :=
        List.forall₂_cons_left_iff.mp hyields
      obtain rfl := Except.ok.inj (hfirst.symm.trans hresult)
      simp only [evaluateResults, Context.within, hvalue, ih hvalues]

theorem evaluateResults_of_fails (hread : AreRead configured results)
    (hfails : ∃ json ∈ configured, Fails functions document row json)
    (occasion : Occasion) (position : Nat) :
    ∃ error, evaluateResults functions ⟨document, row, occasion⟩ position results =
      .error error := by
  induction hread generalizing position with
  | nil => simp at hfails
  | @cons json result rest results hfirst _ ih =>
      cases hevaluate : result.evaluate functions
          (Context.within ⟨document, row, occasion⟩ position) with
      | error error => exact ⟨error, by simp only [evaluateResults, hevaluate]⟩
      | ok value =>
          obtain ⟨failing, hmem, found, error, hfound, herror⟩ := hfails
          rcases List.mem_cons.mp hmem with rfl | hlater
          · obtain rfl := Except.ok.inj (hfirst.symm.trans hfound)
            have hclash := hevaluate.symm.trans (herror _)
            contradiction
          · obtain ⟨later, hlaterError⟩ := ih ⟨failing, hlater, found, error, hfound, herror⟩
              (position + 1)
            exact ⟨later, by simp only [evaluateResults, hevaluate, hlaterError]⟩

theorem evaluate_merged_of_yields (hread : AreRead configured results) {values : List Json}
    (hyields : List.Forall₂ (Yields functions document row) configured values) (dedup : Bool)
    (occasion : Occasion) :
    (Pick.merged results).evaluate functions dedup ⟨document, row, occasion⟩ =
      .ok (mergeValues dedup values) := by
  rw [Pick.evaluate, evaluateResults_of_yields hread hyields]
  rfl

theorem evaluate_merged_of_fails (hread : AreRead configured results)
    (hfails : ∃ json ∈ configured, Fails functions document row json) (dedup : Bool)
    (occasion : Occasion) :
    ∃ error, (Pick.merged results).evaluate functions dedup ⟨document, row, occasion⟩ =
      .error error := by
  obtain ⟨error, herror⟩ := evaluateResults_of_fails hread hfails occasion 0
  refine ⟨error, ?_⟩
  rw [Pick.evaluate, herror]
  rfl

/-! ## Values for one output -/

/-- What there is for an output among the values for outputs. -/
def valuesAt (output : Output) (values : List (Output × Json)) : List Json :=
  (values.filter (·.1 = output)).map Prod.snd

theorem mem_valuesAt_iff {output : Output} {values : List (Output × Json)} {value : Json} :
    value ∈ valuesAt output values ↔ (output, value) ∈ values := by
  simp [valuesAt]

theorem valuesAt_eq_nil {output : Output} {values : List (Output × Json)}
    (hvalues : output ∉ values.map Prod.fst) : valuesAt output values = [] := by
  rw [List.eq_nil_iff_forall_not_mem]
  intro value hvalue
  exact hvalues (List.mem_map_of_mem (mem_valuesAt_iff.mp hvalue))

theorem valuesAt_cons (output : Output) (entry : Output × Json) (rest : List (Output × Json)) :
    valuesAt output (entry :: rest) =
      if entry.1 = output then entry.2 :: valuesAt output rest else valuesAt output rest := by
  unfold valuesAt
  rw [List.filter_cons]
  split_ifs <;> simp_all

/-- The only pick for an output decides what is computed for it. -/
theorem valuesAt_computeAll (context : Context) {picks : List (Output × Pick)}
    (hnodup : (picks.map Prod.fst).Nodup) {output : Output} {pick : Pick}
    (hpick : (output, pick) ∈ picks) (position : Nat) :
    ∃ place,
      valuesAt output (table.computeAll context position picks).1 =
        (pick.evaluate table.functions table.options.mergeDedup
          (context.within place)).toOption.toList ∧
      ∀ error, pick.evaluate table.functions table.options.mergeDedup (context.within place) =
          .error error →
        .uncomputedOutput output.name error ∈ (table.computeAll context position picks).2 := by
  induction picks generalizing position with
  | nil => simp at hpick
  | cons head rest ih =>
      obtain ⟨hfresh, hrest⟩ := List.nodup_cons.mp hnodup
      rcases List.mem_cons.mp hpick with rfl | hlater
      · have hnone : valuesAt output (table.computeAll context (position + 1) rest).1 = [] :=
          valuesAt_eq_nil fun hmem =>
            hfresh ((map_fst_computeAll_sublist table context _ rest).subset hmem)
        refine ⟨position, ?_⟩
        simp only [computeAll]
        cases pick.evaluate table.functions table.options.mergeDedup
            (context.within position) with
        | ok value => simp [valuesAt_cons, hnone, Except.toOption]
        | error error => simp [hnone, Except.toOption]
      · have hmem : output ∈ rest.map Prod.fst := List.mem_map_of_mem hlater
        have hne : head.1 ≠ output := fun hsame => hfresh (hsame ▸ hmem)
        obtain ⟨place, hvalues, hnotice⟩ := ih hrest hlater (position + 1)
        refine ⟨place, ?_, fun error herror => ?_⟩
        · simp only [computeAll]
          split
          · rw [valuesAt_cons, if_neg hne, hvalues]
          · exact hvalues
        · simp only [computeAll]
          split
          · exact hnotice error herror
          · exact List.mem_cons_of_mem _ (hnotice error herror)

theorem pick?_merge {results : List ResultValue} (hseveral : 2 ≤ results.length) :
    ConflictPolicy.merge.pick? results = some (.merged results) := by
  match results with
  | first :: second :: rest => rfl

/-- The results that rules have for an output are read from what is configured for it. -/
theorem areRead_of_realized {inputs : List Input} {outputs : List Output} {output : Output}
    (houtput : output ∈ outputs) {chosen : List NumberedRule} {rules : List Rule}
    (hrealized : List.Forall₂ (Rule.Realizes inputs outputs functions) chosen rules) :
    AreRead (NumberedRule.configuredFor chosen output)
      ((rules.map Rule.results).filterMap fun set => set.resultFor? output) := by
  induction hrealized with
  | nil => exact .nil
  | @cons entry rule chosen rules hrule _ ih =>
      have hsome := hrule.results.isSome_resultFor? houtput
      have hfor := hrule.results.resultFor?_eq_some_iff output houtput
      unfold NumberedRule.configuredFor at ih ⊢
      rw [List.map_cons, List.filterMap_cons, List.filterMap_cons]
      cases hresult : rule.results.resultFor? output with
      | none =>
          rw [hresult] at hsome
          rw [Option.isSome_eq_false_iff.mp hsome.symm |> Option.isNone_iff_eq_none.mp]
          exact ih
      | some result =>
          obtain ⟨configured, hconfigured, hread⟩ := (hfor result).mp hresult
          rw [hconfigured]
          exact .cons hread ih

theorem outputs_writeAll_subset (row : Location) (values : List (Output × Json))
    (document : Json) :
    (writeAll row values document).outputs ⊆ values.map fun entry => entry.1.name := by
  induction values generalizing document with
  | nil => simp [writeAll]
  | cons entry rest ih =>
      have hlater := ih (entry.1.path.write row entry.2 document).1
      rw [writeAll_cons, List.map_cons]
      cases (entry.1.path.write row entry.2 document).2 with
      | none => exact List.cons_subset_cons _ hlater
      | some error => exact fun name hname => List.mem_cons_of_mem _ (hlater hname)

/-- What is computed for an output in a row, in as many values as it is written. -/
def computedFor (table : Table) (occasion : Occasion) (index : Nat) (row : Location)
    (document : Json) (output : Output) : List Json :=
  valuesAt output (table.valuesFor occasion index row document)

/-- What becomes of an output in a row, told by what several rules have configured for it. -/
structure MergesOutput (table : Table) (functions : Registry) (dedup : Bool)
    (occasion : Occasion) (index : Nat) (row : Location) (document : Json) (output : Output)
    (configured : List Json) : Prop where
  evaluated : ∀ json ∈ configured,
    (∃ value, Yields functions document row json value) ∨ Fails functions document row json
  joined : dedup = false → ∀ lists : List (List Json),
    List.Forall₂ (Yields functions document row) configured (lists.map .array) →
      table.computedFor occasion index row document output = [.array lists.flatten]
  joinedOnce : dedup = true → ∀ lists : List (List Json),
    List.Forall₂ (Yields functions document row) configured (lists.map .array) →
      ∃ kept, KeepsFirst kept lists.flatten ∧
        table.computedFor occasion index row document output = [.array kept]
  passedOver : (∃ json ∈ configured, Fails functions document row json) →
    table.computedFor occasion index row document output = [] ∧
      output.name ∉ (table.runRow occasion index row document).report.written ∧
      ∃ error, .uncomputedOutput output.name error ∈
        (table.runRow occasion index row document).notices
  greatest : ∀ numbers : List Number,
    List.Forall₂ (Yields functions document row) configured (numbers.map .number) →
      ∃ best, IsFirstGreatest numbers best ∧
        table.computedFor occasion index row document output = [.number best]
  mixed : ∀ values last, List.Forall₂ (Yields functions document row) configured values →
    (∃ value ∈ values, value.items? = none) → (∃ value ∈ values, value.number? = none) →
      values.getLast? = some last →
        table.computedFor occasion index row document output = [last]
  applied : (table.runRow occasion index row document).document =
    (writeAll row (table.valuesFor occasion index row document) document).document

/-- Several results for an output of a row that is not given up are merged into its value. -/
theorem computedFor_eq {rules : List Rule} {output : Output} {results : List ResultValue}
    (hselect : (table.select fun input => input.extract document row).rules = rules)
    (hcompleted : (table.select fun input => input.extract document row).aborted = false)
    (hpolicy : table.strategy.conflict = .merge) (hnodup : table.outputs.Nodup)
    (houtput : output ∈ table.outputs)
    (hresults : (rules.map Rule.results).filterMap (fun set => set.resultFor? output) = results)
    (hseveral : 2 ≤ results.length) (occasion : Occasion) (index : Nat) :
    ∃ place,
      table.computedFor occasion index row document output =
        ((Pick.merged results).evaluate table.functions table.options.mergeDedup
          ⟨document, row, place⟩).toOption.toList ∧
      ∀ error, (Pick.merged results).evaluate table.functions table.options.mergeDedup
          ⟨document, row, place⟩ = .error error →
        .uncomputedOutput output.name error ∈
          (table.runRow occasion index row document).notices := by
  have hcontributions : (table.contributions rules).2 = rules.map Rule.results := by
    cases rules with
    | nil => simp [← hresults] at hseveral
    | cons => rfl
  have hpick : (output, .merged results) ∈ table.picksFor rules := by
    refine List.mem_filterMap.mpr ⟨output, houtput, ?_⟩
    rw [hcontributions, hresults, hpolicy, pick?_merge hseveral]
    rfl
  have hpicks : ((table.picksFor rules).map Prod.fst).Nodup :=
    (map_fst_picks_sublist _ _ _).nodup hnodup
  obtain ⟨place, hvalues, hnotice⟩ :=
    valuesAt_computeAll ⟨document, row, index :: occasion⟩ hpicks hpick 0
  refine ⟨place :: index :: occasion, ?_, fun error herror => ?_⟩
  · rw [computedFor, valuesFor, hselect, hcompleted]
    exact hvalues
  · rw [runRow_of_completed rfl hcompleted, hselect]
    exact List.mem_append_right _ (List.mem_append_left _ (hnotice error herror))

/--
An accepted table that keeps all matching rules and merges their results makes of the results for
an output what the policy says, in the order of evaluation.
-/
theorem merges_contributions {definition : Definition} {options : TableOptions}
    (haccepted : definition.compile functions options = .ok table)
    (hmode : definition.strategy.mode = .allMatches)
    (hpolicy : definition.strategy.conflict = .merge)
    (hlenient : definition.strategy.stopOnError = false)
    (hfunctions : functions.IgnoresOccasions) (occasion : Occasion) (index : Nat)
    (row : Location) (document : Json) :
    ∃ chosen : List NumberedRule, chosen.Pairwise NumberedRule.Precedes ∧
      (∀ rule, rule ∈ chosen ↔ definition.Applying
        (fun input => input.extract document row) options.criteria rule) ∧
      ∀ output ∈ table.outputs,
        2 ≤ (NumberedRule.configuredFor chosen output).length →
          table.MergesOutput functions options.mergeDedup occasion index row document output
            (NumberedRule.configuredFor chosen output) := by
  obtain ⟨rfl, rfl, rfl, hresolved⟩ := Definition.compile_spec haccepted
  obtain ⟨chosen, hchooses, hrealized, hcompleted⟩ :=
    hresolved.select_chooses hlenient fun input => input.extract document row
  rw [hmode] at hchooses
  obtain ⟨hordered, hmem, -⟩ := hchooses
  refine ⟨chosen, hordered, hmem, fun output houtput hseveral => ?_⟩
  have hread := areRead_of_realized houtput hrealized
  have hnodup : table.outputs.Nodup := hresolved.outputNames.of_map
  obtain ⟨place, hcomputed, hnotice⟩ := computedFor_eq rfl hcompleted hpolicy hnodup houtput rfl
    (hread.length_eq ▸ hseveral) occasion index
  obtain ⟨hdocument, hwritten⟩ := runRow_eq_writeAll table occasion index row document
  have hmerged : ∀ values,
      List.Forall₂ (Yields table.functions document row)
        (NumberedRule.configuredFor chosen output) values →
      table.computedFor occasion index row document output =
        [mergeValues table.options.mergeDedup values] := by
    intro values hyields
    rw [hcomputed, evaluate_merged_of_yields hread hyields]
    rfl
  constructor
  case evaluated => exact yields_or_fails hfunctions hread
  case joined =>
    intro hdedup lists hyields
    rw [hmerged _ hyields, mergeValues_array, hdedup]
    rfl
  case joinedOnce =>
    intro hdedup lists hyields
    refine ⟨withoutRepeats lists.flatten, keepsFirst_withoutRepeats _, ?_⟩
    rw [hmerged _ hyields, mergeValues_array, hdedup]
    rfl
  case passedOver =>
    intro hfails
    obtain ⟨error, herror⟩ :=
      evaluate_merged_of_fails hread hfails table.options.mergeDedup place
    have hnone : table.computedFor occasion index row document output = [] := by
      rw [hcomputed, herror]
      rfl
    refine ⟨hnone, ?_, error, hnotice error herror⟩
    rw [hwritten]
    intro hname
    obtain ⟨entry, hentry, hsame⟩ :=
      List.mem_map.mp (outputs_writeAll_subset row _ document hname)
    have houtputs := (map_fst_valuesFor_sublist table occasion index row document).subset
      (List.mem_map_of_mem hentry)
    obtain rfl : entry.1 = output :=
      List.inj_on_of_nodup_map hresolved.outputNames houtputs houtput hsame
    have hfound : entry.2 ∈ table.computedFor occasion index row document entry.1 :=
      mem_valuesAt_iff.mpr hentry
    simp [hnone] at hfound
  case greatest =>
    intro numbers hyields
    have hlength := hyields.length_eq
    rw [List.length_map] at hlength
    obtain ⟨first, rest, rfl⟩ := List.exists_cons_of_length_pos (l := numbers) (by omega)
    refine ⟨Table.greatest first rest, isFirstGreatest_greatest first rest, ?_⟩
    rw [hmerged _ hyields, mergeValues_number]
  case mixed =>
    intro values last hyields harrays hnumbers hlast
    rw [hmerged _ hyields, mergeValues_mixed _ harrays hnumbers hlast]
  case applied => exact hdocument

/-- The rule that comes first takes its stickers from the parcel. -/
def parcels : Definition :=
  { path := "$.parcels[*]"
    inputs := []
    outputs := [⟨"stickers", "@.stickers"⟩]
    rules :=
      [⟨1, .empty, .ofPairs [("stickers", .array [.string "fragile", .string "red"])]⟩,
        ⟨0, .empty, .ofPairs [("stickers", .string "#valueof('@.known')")]⟩]
    defaults := none
    strategy := ⟨.allMatches, .merge, false⟩ }

def parcelsFunctions : Registry :=
  .steady

def parcelsTable : Table :=
  parcels.tableAt ⟨parcels.path, .document, [.key "parcels", .wildcard]⟩ parcelsFunctions
    { mergeDedup := true }

def parcelsDocument : Json :=
  .object [("parcels", .array [.object [("known", .array [.string "red", .string "old"])]])]

def stickersOutput : Output :=
  ⟨"stickers", ⟨"@.stickers", .row, [.key "stickers"]⟩⟩

def firstParcel : Location :=
  ⟨[.key "parcels", .index 0]⟩

/-- Both rules apply to every parcel, and the second one comes first. -/
theorem chosen_of_parcels {chosen : List NumberedRule} {extract : Input → Extracted}
    (hordered : chosen.Pairwise NumberedRule.Precedes)
    (hmem : ∀ rule, rule ∈ chosen ↔ parcels.Applying extract {} rule) :
    chosen = [(parcels.rules[1], 1), (parcels.rules[0], 0)] := by
  refine NumberedRule.eq_of_pairwise_precedes hordered (by decide) fun rule => ?_
  rw [hmem, Definition.Applying]
  simp only [parcels, RuleEntry.Applies, KeyMap.empty, List.zipIdx_cons, List.zipIdx_nil,
    List.mem_cons, List.not_mem_nil, or_false, List.getElem_cons_zero, List.getElem_cons_succ]
  constructor
  · rintro ⟨rfl | rfl, -⟩ <;> simp
  · rintro (rfl | rfl) <;> simp

/-- What is known of the parcel comes first, and its color is not repeated. -/
theorem merges_contributions_of_parcels :
    parcels.compile parcelsFunctions { mergeDedup := true } = .ok parcelsTable ∧
      stickersOutput ∈ parcelsTable.outputs ∧
      parcelsTable.computedFor [] 0 firstParcel parcelsDocument stickersOutput =
        [.array [.string "red", .string "old", .string "fragile"]] := by
  have haccepted : parcels.compile parcelsFunctions { mergeDedup := true } = .ok parcelsTable := by
    cbv
  have hfunctions : parcelsFunctions.IgnoresOccasions := Registry.ignoresOccasions_steady
  have houtput : stickersOutput ∈ parcelsTable.outputs := by
    have houtputs : parcelsTable.outputs[0]? = some stickersOutput := by cbv
    exact List.mem_of_getElem? houtputs
  obtain ⟨chosen, hordered, hmem, hmerges⟩ :=
    merges_contributions haccepted rfl rfl rfl hfunctions [] 0 firstParcel parcelsDocument
  obtain rfl := chosen_of_parcels hordered hmem
  obtain ⟨-, -, honce, -⟩ := hmerges stickersOutput houtput (by decide)
  have hconfigured : NumberedRule.configuredFor [(parcels.rules[1], 1), (parcels.rules[0], 0)]
      stickersOutput =
        [.string "#valueof('@.known')", .array [.string "fragile", .string "red"]] := by
    cbv
  rw [hconfigured] at honce
  have hknown : Yields parcelsFunctions parcelsDocument firstParcel (.string "#valueof('@.known')")
      (.array [.string "red", .string "old"]) := by
    refine ⟨.computed "#valueof('@.known')" ⟨"valueof", [.literal (.string "@.known")]⟩,
      by cbv, fun occasion => ?_⟩
    cbv
  have hfixed : Yields parcelsFunctions parcelsDocument firstParcel
      (.array [.string "fragile", .string "red"]) (.array [.string "fragile", .string "red"]) :=
    ⟨.fixed _, rfl, fun _ => rfl⟩
  obtain ⟨kept, hkept, hcomputed⟩ := honce rfl
    [[.string "red", .string "old"], [.string "fragile", .string "red"]]
    (.cons hknown (.cons hfixed .nil))
  obtain rfl : kept = [.string "red", .string "old", .string "fragile"] := by
    rw [hkept.eq_firstOccurrences]
    cbv
  exact ⟨haccepted, houtput, hcomputed⟩

end Table

end DecisionTables
