import DecisionTables.Table.Execution
import DecisionTables.Proofs.Call.Occasion
import DecisionTables.Proofs.Table.Evaluation

/-!
# Where computed values come from

What a row applies are the results of selected rules or the default results.  From these every pick
takes its results, for an output of the table, and every pick ends as a value for its output or as a
notice with the error of its evaluation.  So where the results agree in two contexts, the same is
computed in both of them.

The run of a row falls apart here: unless the selection aborts it, its document is the one that
comes of applying the picks, and its notices are those of extraction, selection, computation and
writing, in this order.
-/

namespace DecisionTables

/-- The result has the same value in both contexts, on whatever occasions it is computed. -/
def ResultValue.AgreesIn (result : ResultValue) (functions : Registry) (context other : Context) :
    Prop :=
  ∀ occasion otherOccasion,
    result.evaluate functions { context with occasion } =
      result.evaluate functions { other with occasion := otherOccasion }

namespace Table

variable {table : Table} {outputs : List Output} {sets : List ResultSet}

def Pick.results : Pick → List ResultValue
  | one result => [result]
  | merged results => results

theorem pick?_lastWins (results : List ResultValue) :
    ConflictPolicy.lastWins.pick? results = results.getLast?.map .one := by
  match results with
  | [] => rfl
  | [only] => rfl
  | first :: second :: rest =>
      simp [ConflictPolicy.pick?, List.getLast?_cons, List.getLastD_eq_getLast?]

theorem pick?_priority (results : List ResultValue) :
    ConflictPolicy.priority.pick? results = results.head?.map .one := by
  match results with
  | [] => rfl
  | [only] => rfl
  | first :: second :: rest => rfl

theorem mem_of_mem_results_pick? {policy : ConflictPolicy} {results : List ResultValue}
    {pick : Pick} (hpick : policy.pick? results = some pick) {result : ResultValue}
    (hresult : result ∈ pick.results) : result ∈ results := by
  match results, policy with
  | [], _ => simp [ConflictPolicy.pick?] at hpick
  | [only], _ =>
      obtain rfl : Pick.one only = pick := by simpa [ConflictPolicy.pick?] using hpick
      exact hresult
  | first :: second :: rest, .priority =>
      obtain rfl : Pick.one first = pick := by simpa [ConflictPolicy.pick?] using hpick
      exact List.mem_singleton.mp hresult ▸ List.mem_cons_self
  | first :: second :: rest, .lastWins =>
      obtain rfl : Pick.one ((second :: rest).getLastD first) = pick := Option.some.inj hpick
      exact List.mem_singleton.mp hresult ▸ List.getLastD_mem_cons
  | first :: second :: rest, .merge =>
      obtain rfl : Pick.merged (first :: second :: rest) = pick := Option.some.inj hpick
      exact hresult

/-- Every pick goes to an output and is made of results for this output. -/
theorem mem_picks_spec {policy : ConflictPolicy} {entry : Output × Pick}
    (hentry : entry ∈ picks outputs policy sets) :
    entry.1 ∈ outputs ∧
      ∀ result ∈ entry.2.results, ∃ set ∈ sets, set.resultFor? entry.1 = some result := by
  obtain ⟨output, houtput, hpicked⟩ := List.mem_filterMap.mp hentry
  obtain ⟨pick, hpick, rfl⟩ := Option.map_eq_some_iff.mp hpicked
  refine ⟨houtput, fun result hresult => ?_⟩
  exact List.mem_filterMap.mp (mem_of_mem_results_pick? hpick hresult)

theorem mem_contributions {rules : List Rule} {set : ResultSet}
    (hset : set ∈ (table.contributions rules).2) :
    (∃ rule ∈ rules, rule.results = set) ∨ table.defaults = some set := by
  cases rules with
  | nil =>
      cases hdefaults : table.defaults with
      | none => simp [contributions, hdefaults] at hset
      | some defaults =>
          obtain rfl : set = defaults := by simpa [contributions, hdefaults] using hset
          exact .inr rfl
  | cons rule rest =>
      have hmem : set ∈ (rule :: rest).map Rule.results := by simpa [contributions] using hset
      exact .inl (List.mem_map.mp hmem)

theorem isSome_pick? (policy : ConflictPolicy) (results : List ResultValue) :
    (policy.pick? results).isSome = !results.isEmpty := by
  match results, policy with
  | [], _ => rfl
  | [only], _ => rfl
  | _ :: _ :: _, .priority => rfl
  | _ :: _ :: _, .lastWins => rfl
  | _ :: _ :: _, .merge => rfl

/-- Something is picked just for the outputs that some set of results defines. -/
theorem map_fst_picks (outputs : List Output) (policy : ConflictPolicy) (sets : List ResultSet) :
    (picks outputs policy sets).map Prod.fst =
      outputs.filter fun output => sets.any fun set => (set.resultFor? output).isSome := by
  have hdefined : ∀ output : Output,
      (policy.pick? (sets.filterMap fun set => set.resultFor? output)).isSome =
        sets.any fun set => (set.resultFor? output).isSome := by
    intro output
    rw [isSome_pick?, Bool.eq_iff_iff]
    simp [Option.isSome_iff_ne_none]
  induction outputs with
  | nil => rfl
  | cons output rest ih =>
      unfold picks at ih ⊢
      rw [List.filter_cons, ← hdefined, ← ih]
      cases hpick : policy.pick? (sets.filterMap fun set => set.resultFor? output) <;>
        simp [hpick]

theorem map_fst_picks_sublist (outputs : List Output) (policy : ConflictPolicy)
    (sets : List ResultSet) : ((picks outputs policy sets).map Prod.fst).Sublist outputs := by
  rw [map_fst_picks]
  exact List.filter_sublist

theorem map_fst_computeAll_sublist (table : Table) (context : Context) (position : Nat)
    (picks : List (Output × Pick)) :
    ((table.computeAll context position picks).1.map Prod.fst).Sublist (picks.map Prod.fst) := by
  induction picks generalizing position with
  | nil => exact .slnil
  | cons head rest ih =>
      simp only [computeAll]
      split
      · exact (ih _).cons_cons head.1
      · exact (ih _).cons head.1

theorem mem_outputs_of_computeAll {policy : ConflictPolicy} {context : Context} {position : Nat}
    {entry : Output × Json}
    (hentry : entry ∈ (table.computeAll context position (picks outputs policy sets)).1) :
    entry.1 ∈ outputs := by
  have hcomputed := map_fst_computeAll_sublist table context position (picks outputs policy sets)
  have houtputs := hcomputed.trans (map_fst_picks_sublist outputs policy sets)
  exact houtputs.subset (List.mem_map_of_mem hentry)

/-- A notice tells the error that the evaluation of a pick ended in. -/
theorem mem_computeAll_notices {context : Context} {position : Nat}
    {picks : List (Output × Pick)} {notice : Notice}
    (hnotice : notice ∈ (table.computeAll context position picks).2) :
    ∃ entry ∈ picks, ∃ error place, notice = .uncomputedOutput entry.1.name error ∧
      entry.2.evaluate table.functions table.options.mergeDedup (context.within place) =
        .error error := by
  induction picks generalizing position with
  | nil => simp [computeAll] at hnotice
  | cons head rest ih =>
      simp only [computeAll] at hnotice
      split at hnotice
      · obtain ⟨entry, hentry, htold⟩ := ih hnotice
        exact ⟨entry, List.mem_cons_of_mem _ hentry, htold⟩
      · rename_i error herror
        rcases List.mem_cons.mp hnotice with rfl | hlater
        · exact ⟨head, List.mem_cons_self, error, position, rfl, herror⟩
        · obtain ⟨entry, hentry, htold⟩ := ih hlater
          exact ⟨entry, List.mem_cons_of_mem _ hentry, htold⟩

/-- A value is what the evaluation of a pick for its output came to. -/
theorem exists_of_mem_computeAll {context : Context} {position : Nat}
    {picks : List (Output × Pick)} {entry : Output × Json}
    (hentry : entry ∈ (table.computeAll context position picks).1) :
    ∃ pick place, (entry.1, pick) ∈ picks ∧
      pick.evaluate table.functions table.options.mergeDedup (context.within place) =
        .ok entry.2 := by
  induction picks generalizing position with
  | nil => simp [computeAll] at hentry
  | cons head rest ih =>
      simp only [computeAll] at hentry
      split at hentry
      · rename_i value hvalue
        rcases List.mem_cons.mp hentry with rfl | hlater
        · exact ⟨head.2, position, List.mem_cons_self, hvalue⟩
        · obtain ⟨pick, place, hpick, hfound⟩ := ih hlater
          exact ⟨pick, place, List.mem_cons_of_mem _ hpick, hfound⟩
      · obtain ⟨pick, place, hpick, hfound⟩ := ih hentry
        exact ⟨pick, place, List.mem_cons_of_mem _ hpick, hfound⟩

theorem mem_writeAll_notices {row : Location} {document : Json} {values : List (Output × Json)}
    {notice : Notice}
    (hnotice : notice ∈ (writeAll row values document).notices) :
    ∃ entry ∈ values, ∃ error before, notice = .unwrittenOutput entry.1.name error ∧
      (entry.1.path.write row entry.2 before).2 = some error := by
  induction values generalizing document with
  | nil => simp [writeAll] at hnotice
  | cons head rest ih =>
      rcases hwrite : head.1.path.write row head.2 document with ⟨written, _ | fault⟩
      · simp only [writeAll, hwrite] at hnotice
        exact (ih hnotice).imp fun _ => And.imp_left (List.mem_cons_of_mem _)
      · simp only [writeAll, hwrite] at hnotice
        rcases List.mem_cons.mp hnotice with rfl | hlater
        · exact ⟨head, List.mem_cons_self, fault, document, rfl, by rw [hwrite]⟩
        · exact (ih hlater).imp fun _ => And.imp_left (List.mem_cons_of_mem _)

/-- What writes come to with one more before them, told by the fault that it had. -/
def Written.after (later : Written) (output : Output) : Option PathError → Written
  | none => { later with outputs := output.name :: later.outputs }
  | some error => { later with notices := .unwrittenOutput output.name error :: later.notices }

@[simp] theorem Written.document_after (later : Written) (output : Output)
    (fault : Option PathError) : (later.after output fault).document = later.document := by
  cases fault <;> rfl

theorem writeAll_cons (row : Location) (entry : Output × Json) (rest : List (Output × Json))
    (document : Json) :
    writeAll row (entry :: rest) document =
      (writeAll row rest (entry.1.path.write row entry.2 document).1).after entry.1
        (entry.1.path.write row entry.2 document).2 := by
  simp only [writeAll]
  split <;> rename_i heq <;> rw [heq] <;> rfl

/-- What comes later is written into the document that the values before it have left. -/
theorem document_writeAll_append (row : Location) (before after : List (Output × Json))
    (document : Json) :
    (writeAll row (before ++ after) document).document =
      (writeAll row after (writeAll row before document).document).document := by
  induction before generalizing document with
  | nil => rfl
  | cons entry rest ih =>
      rw [List.cons_append, writeAll_cons, writeAll_cons, Written.document_after,
        Written.document_after, ih]

/-! ## Contexts in which the same is computed -/

section Agreement

variable {functions : Registry} {context other : Context}

theorem evaluateResults_congr {results : List ResultValue}
    (hagrees : ∀ result ∈ results, result.AgreesIn functions context other) (position : Nat) :
    evaluateResults functions context position results =
      evaluateResults functions other position results := by
  induction results generalizing position with
  | nil => rfl
  | cons result rest ih =>
      obtain ⟨hresult, hresults⟩ := List.forall_mem_cons.mp hagrees
      have hhead : result.evaluate functions (context.within position) =
          result.evaluate functions (other.within position) := hresult _ _
      simp only [evaluateResults, hhead, ih hresults]

theorem Pick.evaluate_congr {pick : Pick}
    (hagrees : ∀ result ∈ pick.results, result.AgreesIn functions context other) (dedup : Bool)
    (position : Nat) :
    pick.evaluate functions dedup (context.within position) =
      pick.evaluate functions dedup (other.within position) := by
  cases pick with
  | one result => exact hagrees result List.mem_cons_self _ _
  | merged results =>
      have hwithin : ∀ result ∈ results,
          result.AgreesIn functions (context.within position) (other.within position) := hagrees
      simp only [Pick.evaluate, evaluateResults_congr hwithin 0]

theorem computeAll_congr {picks : List (Output × Pick)}
    (hagrees : ∀ entry ∈ picks, ∀ result ∈ entry.2.results,
      result.AgreesIn table.functions context other) (position : Nat) :
    table.computeAll context position picks = table.computeAll other position picks := by
  induction picks generalizing position with
  | nil => rfl
  | cons entry rest ih =>
      obtain ⟨hentry, hrest⟩ := List.forall_mem_cons.mp hagrees
      have hhead := Pick.evaluate_congr hentry table.options.mergeDedup position
      simp only [computeAll, hhead, ih hrest]

theorem Pick.evaluate_of_sameDocument (hfunctions : functions.IgnoresOccasions)
    (hsame : context.SeesSameDocument other) (pick : Pick) (dedup : Bool) :
    pick.evaluate functions dedup context = pick.evaluate functions dedup other := by
  cases pick with
  | one result => exact result.evaluate_of_sameDocument hfunctions hsame
  | merged results =>
      have hagrees : ∀ result ∈ results, result.AgreesIn functions context other :=
        fun result _ _ _ => result.evaluate_of_sameDocument hfunctions hsame
      simp only [Pick.evaluate, evaluateResults_congr hagrees 0]

theorem computeAll_of_sameDocument (hfunctions : table.functions.IgnoresOccasions)
    (hsame : context.SeesSameDocument other) (position : Nat) (picks : List (Output × Pick)) :
    table.computeAll context position picks = table.computeAll other position picks := by
  apply computeAll_congr
  intro entry _ result _ occasion otherOccasion
  exact result.evaluate_of_sameDocument hfunctions hsame

/-- Of a table only the functions and the options matter for what is computed. -/
theorem computeAll_of_settings {second : Table} (hfunctions : second.functions = table.functions)
    (hoptions : second.options = table.options) (context : Context) (position : Nat)
    (picks : List (Output × Pick)) :
    second.computeAll context position picks = table.computeAll context position picks := by
  induction picks generalizing position with
  | nil => rfl
  | cons entry rest ih => simp only [computeAll, hfunctions, hoptions, ih]

end Agreement

/-! ## What selected rules come to -/

/-- What is picked for the outputs where these rules match. -/
def picksFor (table : Table) (rules : List Rule) : List (Output × Pick) :=
  picks table.outputs table.strategy.conflict (table.contributions rules).2

theorem map_fst_computeAll_picksFor_sublist (table : Table) (context : Context) (position : Nat)
    (rules : List Rule) :
    ((table.computeAll context position (table.picksFor rules)).1.map Prod.fst).Sublist
      table.outputs :=
  (map_fst_computeAll_sublist table context position _).trans (map_fst_picks_sublist _ _ _)

/-- Where all results of the table agree in two contexts, the same is computed in both of them. -/
theorem computeAll_picksFor_congr {context other : Context}
    (hresults : ∀ rule ∈ table.rules, ∀ result ∈ rule.results,
      result.2.AgreesIn table.functions context other)
    (hdefaults : ∀ results, table.defaults = some results →
      ∀ result ∈ results, result.2.AgreesIn table.functions context other)
    {rules : List Rule} (hrules : ∀ rule ∈ rules, rule ∈ table.rules) :
    table.computeAll context 0 (table.picksFor rules) =
      table.computeAll other 0 (table.picksFor rules) := by
  apply computeAll_congr
  intro entry hentry result hresult
  obtain ⟨-, hfrom⟩ := mem_picks_spec hentry
  obtain ⟨set, hset, hfor⟩ := hfrom result hresult
  have hmem := mem_of_resultFor? hfor
  rcases mem_contributions hset with ⟨rule, hrule, rfl⟩ | hset
  · exact hresults rule (hrules rule hrule) _ hmem
  · exact hdefaults set hset _ hmem

/-- The outcome of applying picks to a row, with the notices for whatever failed. -/
def applyPicks (table : Table) (context : Context) (picks : List (Output × Pick)) : Written :=
  let computed := table.computeAll context 0 picks
  let written := writeAll context.row computed.1 context.document
  { written with notices := computed.2 ++ written.notices }

/-- The run of a row that was not given up, in which the picks came to these writes. -/
def RowRun.completed (index : Nat) (row : Location) (outcome : Outcome) (evaluated : Nat)
    (notices : List Notice) (applied : Written) : RowRun where
  document := applied.document
  report := ⟨index, row.pointer, outcome, evaluated, applied.outputs, applied.notices.isEmpty⟩
  notices := notices ++ applied.notices

section Rows

variable {row : Location} {document : Json} {selection : Selection}

theorem runRow_of_aborted
    (hselect : (table.select fun input => input.extract document row) = selection)
    (haborted : selection.aborted = true) (occasion : Occasion) (index : Nat) :
    table.runRow occasion index row document =
      { document
        report := ⟨index, row.pointer, .aborted, selection.evaluated, [], false⟩
        notices :=
          (extractionNotices table.inputs fun input => input.extract document row) ++
            selection.notices } := by
  subst hselect
  simp only [runRow, haborted, if_true]

/-- A row that is not given up applies what is picked for it. -/
theorem runRow_of_completed
    (hselect : (table.select fun input => input.extract document row) = selection)
    (hcompleted : selection.aborted = false) (occasion : Occasion) (index : Nat) :
    table.runRow occasion index row document =
      .completed index row (table.contributions selection.rules).1 selection.evaluated
        ((extractionNotices table.inputs fun input => input.extract document row) ++
          selection.notices)
        (table.applyPicks ⟨document, row, index :: occasion⟩ (table.picksFor selection.rules)) := by
  subst hselect
  simp only [runRow, hcompleted]
  rfl

/-- What is written for a row, in the order of the outputs. -/
def valuesFor (table : Table) (occasion : Occasion) (index : Nat) (row : Location)
    (document : Json) : List (Output × Json) :=
  let selection := table.select fun input => input.extract document row
  if selection.aborted then []
  else
    (table.computeAll ⟨document, row, index :: occasion⟩ 0 (table.picksFor selection.rules)).1

theorem map_fst_valuesFor_sublist (table : Table) (occasion : Occasion) (index : Nat)
    (row : Location) (document : Json) :
    ((table.valuesFor occasion index row document).map Prod.fst).Sublist table.outputs := by
  simp only [valuesFor]
  split
  · exact List.nil_sublist _
  · exact map_fst_computeAll_picksFor_sublist table _ 0 _

/-- A row leaves the document, and tells the outputs, that come of writing its values. -/
theorem runRow_eq_writeAll (table : Table) (occasion : Occasion) (index : Nat) (row : Location)
    (document : Json) :
    let written := writeAll row (table.valuesFor occasion index row document) document
    (table.runRow occasion index row document).document = written.document ∧
      (table.runRow occasion index row document).report.written = written.outputs := by
  cases haborted : (table.select fun input => input.extract document row).aborted with
  | true =>
      have hvalues : table.valuesFor occasion index row document = [] := by
        simp only [valuesFor, haborted, if_true]
      rw [hvalues, runRow_of_aborted rfl haborted]
      exact ⟨rfl, rfl⟩
  | false =>
      have hvalues : table.valuesFor occasion index row document =
          (table.computeAll ⟨document, row, index :: occasion⟩ 0 (table.picksFor
            (table.select fun input => input.extract document row).rules)).1 := by
        simp [valuesFor, haborted]
      rw [hvalues, runRow_of_completed rfl haborted]
      exact ⟨rfl, rfl⟩

end Rows

/-- Tables with the same functions and options apply the same picks alike on any occasions. -/
theorem applyPicks_of_settings {second : Table} (hfunctions : second.functions = table.functions)
    (hoptions : second.options = table.options) (hignores : table.functions.IgnoresOccasions)
    (document : Json) (row : Location) (occasion other : Occasion)
    (picks : List (Output × Pick)) :
    second.applyPicks ⟨document, row, occasion⟩ picks =
      table.applyPicks ⟨document, row, other⟩ picks := by
  have hsame : Context.SeesSameDocument ⟨document, row, occasion⟩ ⟨document, row, other⟩ :=
    ⟨rfl, rfl⟩
  simp only [applyPicks, computeAll_of_settings hfunctions hoptions,
    computeAll_of_sameDocument hignores hsame]

end Table

end DecisionTables
