import DecisionTables.Proofs.Table.Faults
import DecisionTables.Proofs.Table.Frame
import Mathlib

/-!
# Accounts of a run

The report of a run has an entry for every location that was selected before the run, and the
diagnostics of a row tell all that kept it from succeeding.  Computing the outputs of a row and
writing them both either pass an output on or drop it with a diagnostic.  So the outputs that the
contributing results define are those that were written together with those that a diagnostic is
about, each of them once.

What a row logs comes behind all that the rows before it have logged, and is not touched later.  So
the entry of a row and its diagnostics are those of processing the row on the document that the
rows before it have left.
-/

namespace DecisionTables

/-- The output that could not be computed or written. -/
def Notice.failedOutput? : Notice → Option String
  | nullInput _ => none
  | unreadableInput _ _ _ => none
  | uncomputedOutput output _ => some output
  | unwrittenOutput output _ => some output

/-- The sets of results that contribute to a row with the given outcome. -/
def Definition.contributing (definition : Definition) : Outcome → List (KeyMap Json)
  | .matched declarations => declarations.filterMap fun declaration =>
      definition.rules[declaration]?.map RuleEntry.results
  | .defaulted => definition.defaults.toList
  | .noMatch => []
  | .aborted => []

/-- The names of the outputs that at least one contributing set has a result for. -/
def Definition.definedOutputs (definition : Definition) (outcome : Outcome) : List String :=
  (definition.outputs.filter fun output =>
    (definition.contributing outcome).any fun results =>
      (results.get? output.name).isSome).map OutputField.name

/-- Names are kept in their order or dropped, each of them once. -/
structure Settlement (names kept dropped : List String) : Prop where
  sublist : kept.Sublist names
  perm : (kept ++ dropped).Perm names

namespace Settlement

variable {names kept dropped : List String}

theorem nil : Settlement [] [] [] :=
  ⟨.slnil, .nil⟩

theorem keep (hsettled : Settlement names kept dropped) (name : String) :
    Settlement (name :: names) (name :: kept) dropped :=
  ⟨hsettled.sublist.cons_cons name, hsettled.perm.cons name⟩

theorem drop (hsettled : Settlement names kept dropped) (name : String) :
    Settlement (name :: names) kept (name :: dropped) :=
  ⟨hsettled.sublist.cons name, List.perm_middle.trans (hsettled.perm.cons name)⟩

theorem trans {further lost : List String} (hfirst : Settlement names kept dropped)
    (hsecond : Settlement kept further lost) : Settlement names further (dropped ++ lost) where
  sublist := hsecond.sublist.trans hfirst.sublist
  perm := by
    have hkept : (further ++ (dropped ++ lost)).Perm (further ++ lost ++ dropped) := by
      rw [List.append_assoc]
      exact List.perm_append_comm.append_left further
    exact hkept.trans ((hsecond.perm.append_right dropped).trans hfirst.perm)

theorem length_add (hsettled : Settlement names kept dropped) :
    kept.length + dropped.length = names.length := by
  rw [← List.length_append]
  exact hsettled.perm.length_eq

end Settlement

/-- The outputs that notices are about, in the order of the notices. -/
def failedOutputs (notices : List Notice) : List String :=
  notices.filterMap Notice.failedOutput?

@[simp] theorem failedOutputs_append (first second : List Notice) :
    failedOutputs (first ++ second) = failedOutputs first ++ failedOutputs second :=
  List.filterMap_append

/-- A report on a row agrees with the definition and with what was noticed for the row. -/
structure RowReport.IsConsistent (report : RowReport) (definition : Definition)
    (notices : List Notice) : Prop where
  failure_iff : report.success = false ↔
    report.outcome = .aborted ∨ failedOutputs notices ≠ []
  settled : report.outcome ≠ .aborted →
    Settlement (definition.definedOutputs report.outcome) report.written (failedOutputs notices)
  counted : report.outcome ≠ .aborted →
    report.written.length + (failedOutputs notices).length =
      (definition.definedOutputs report.outcome).length
  ordered : report.written.Sublist (definition.outputs.map OutputField.name)
  nodup : report.written.Nodup

/-- What was noticed for one row, in the order of the log. -/
def Report.noticesOf (report : Report) (index : Nat) : List Notice :=
  (report.diagnostics.filter fun diagnostic => diagnostic.row = index).map Diagnostic.notice

open Table in
/--
The report of a run agrees with the definition and with the locations that were selected, where the
row of every index was processed on the given document.
-/
structure Report.IsConsistent (report : Report) (definition : Definition)
    (locations : List Location) (documentAt : Nat → Json) : Prop where
  places : report.rows.map (fun row => (row.index, row.pointer)) =
    locations.zipIdx.map fun (location, index) => (index, location.pointer)
  success_iff : report.success = true ↔ ∀ row ∈ report.rows, row.success = true
  rows : ∀ row ∈ report.rows, row.IsConsistent definition (report.noticesOf row.index)
  warnings : ∀ index location, locations[index]? = some location →
    (report.noticesOf index).filter (fun notice => notice.level = .warning) =
      (definition.inputs.filter fun field =>
        ((Input.ofField field).extract (documentAt index) location).isNullOrMissing).map
          fun field => .nullInput field.name
  ordered : (report.diagnostics.map Diagnostic.row).Pairwise (· ≤ ·)

namespace Table

variable {table : Table} {row : Location} {document : Json}

/-! ## Outputs that are defined -/

/-- The applied sets of results realize those of the definition that the outcome refers to. -/
theorem IsResolved.contributions_realize (hresolved : table.IsResolved) {rules : List Rule}
    (hrules : ∀ rule ∈ rules, rule ∈ table.rules) :
    List.Forall₂ (fun entries results =>
        ResultSet.Realizes table.outputs table.functions entries results)
      (table.definition.contributing (table.contributions rules).1)
      (table.contributions rules).2 := by
  cases rules with
  | nil =>
      have hdefaults := hresolved.defaults
      cases hconfigured : table.definition.defaults <;> cases hcompiled : table.defaults <;>
        simp_all [contributions, Definition.contributing]
  | cons first rest =>
      simp only [contributions, Definition.contributing]
      generalize first :: rest = rules at hrules
      induction rules with
      | nil => exact .nil
      | cons rule rest ih =>
          obtain ⟨hrule, hrest⟩ := List.forall_mem_cons.mp hrules
          obtain ⟨configured, hperm, hrealized, -⟩ := hresolved.rules_in_order
          obtain ⟨entry, hentry, hrealizes⟩ := exists_left_of_forall₂ hrealized hrule
          have hplace : table.definition.rules[rule.declaration]? = some entry.1 := by
            rw [hrealizes.declaration_eq]
            exact List.mem_zipIdx_iff_getElem?.mp (hperm.mem_iff.mp hentry)
          rw [List.map_cons, List.filterMap_cons_some (by rw [hplace]; rfl), List.map_cons]
          exact .cons hrealizes.results (ih hrest)

/-- A value is picked just for the outputs that the contributing results define. -/
theorem IsResolved.names_picksFor (hresolved : table.IsResolved) {rules : List Rule}
    (hrules : ∀ rule ∈ rules, rule ∈ table.rules) :
    (table.picksFor rules).map (fun entry => entry.1.name) =
      table.definition.definedOutputs (table.contributions rules).1 := by
  have hsets := hresolved.contributions_realize hrules
  have hdefined : ∀ output ∈ table.outputs,
      ((table.contributions rules).2.any fun set => (set.resultFor? output).isSome) =
        (table.definition.contributing (table.contributions rules).1).any fun results =>
          (results.get? output.name).isSome := by
    intro output houtput
    generalize (table.contributions rules).2 = sets at hsets ⊢
    generalize table.definition.contributing (table.contributions rules).1 = entries at hsets ⊢
    induction hsets with
    | nil => rfl
    | cons hhead _ ih => rw [List.any_cons, List.any_cons, ih, hhead.isSome_resultFor? houtput]
  have hpicked := map_fst_picks table.outputs table.strategy.conflict (table.contributions rules).2
  rw [List.filter_congr hdefined] at hpicked
  have hfiltered := List.rel_filter (p := fun field : OutputField =>
      (table.definition.contributing (table.contributions rules).1).any fun results =>
        (results.get? field.name).isSome)
    (q := fun output : Output =>
      (table.definition.contributing (table.contributions rules).1).any fun results =>
        (results.get? output.name).isSome)
    (fun field output hrealizes => by simp only [hrealizes.1]) hresolved.outputs
  rw [← hpicked] at hfiltered
  have hnames := Definition.outputNames_of_realizes hfiltered
  rw [List.map_map] at hnames
  exact hnames

/-! ## Outputs that are computed and written -/

theorem settlement_computeAll (table : Table) (context : Context) (position : Nat)
    (picks : List (Output × Pick)) :
    Settlement (picks.map fun entry => entry.1.name)
      ((table.computeAll context position picks).1.map fun entry => entry.1.name)
      (failedOutputs (table.computeAll context position picks).2) := by
  induction picks generalizing position with
  | nil => exact .nil
  | cons head rest ih =>
      simp only [computeAll]
      split
      · exact (ih _).keep head.1.name
      · exact (ih _).drop head.1.name

theorem settlement_writeAll (row : Location) (values : List (Output × Json)) (document : Json) :
    Settlement (values.map fun entry => entry.1.name) (writeAll row values document).outputs
      (failedOutputs (writeAll row values document).notices) := by
  induction values generalizing document with
  | nil => exact .nil
  | cons head rest ih =>
      rw [writeAll_cons]
      cases (head.1.path.write row head.2 document).2 with
      | none => exact (ih _).keep head.1.name
      | some error => exact (ih _).drop head.1.name

theorem settlement_applyPicks (table : Table) (context : Context)
    (picks : List (Output × Pick)) :
    Settlement (picks.map fun entry => entry.1.name) (table.applyPicks context picks).outputs
      (failedOutputs (table.applyPicks context picks).notices) := by
  have hcomputed := settlement_computeAll table context 0 picks
  have hwritten := settlement_writeAll context.row (table.computeAll context 0 picks).1
    context.document
  simpa [applyPicks] using hcomputed.trans hwritten

theorem failedOutput?_of_applyPicks {context : Context} {picks : List (Output × Pick)}
    {notice : Notice} (hnotice : notice ∈ (table.applyPicks context picks).notices) :
    notice.failedOutput? ≠ none := by
  rcases List.mem_append.mp hnotice with huncomputed | hunwritten
  · obtain ⟨entry, -, error, -, rfl, -⟩ := mem_computeAll_notices huncomputed
    simp [Notice.failedOutput?]
  · obtain ⟨entry, -, error, -, rfl, -⟩ := mem_writeAll_notices hunwritten
    simp [Notice.failedOutput?]

/-! ## Rows -/

theorem failedOutputs_of_extraction (inputs : List Input) (extract : Input → Extracted) :
    failedOutputs (extractionNotices inputs extract) = [] := by
  refine List.filterMap_eq_nil_iff.mpr fun notice hnotice => ?_
  obtain ⟨input, -, rfl⟩ := List.mem_map.mp hnotice
  rfl

theorem failedOutputs_of_select (table : Table) (extract : Input → Extracted) :
    failedOutputs (table.select extract).notices = [] := by
  refine List.filterMap_eq_nil_iff.mpr fun notice hnotice => ?_
  obtain ⟨rule, -, name, error, -, rfl⟩ := mem_select_notices hnotice
  rfl

theorem isConsistent_of_aborted {definition : Definition} {notices : List Notice} {index : Nat}
    {pointer : String} {evaluated : Nat} :
    RowReport.IsConsistent ⟨index, pointer, .aborted, evaluated, [], false⟩ definition notices where
  failure_iff := by simp
  settled haborted := absurd rfl haborted
  counted haborted := absurd rfl haborted
  ordered := List.nil_sublist _
  nodup := .nil

/-- A row that writes what was picked for it fails just where an output was dropped. -/
theorem isConsistent_of_completed {definition : Definition} {before : List Notice}
    {applied : Written} {outcome : Outcome} {evaluated : Nat} (hcompleted : outcome ≠ .aborted)
    (hbefore : failedOutputs before = [])
    (hfailed : ∀ notice ∈ applied.notices, notice.failedOutput? ≠ none)
    (hsettled : Settlement (definition.definedOutputs outcome) applied.outputs
      (failedOutputs applied.notices))
    (hnames : (definition.outputs.map OutputField.name).Nodup) (index : Nat) (row : Location) :
    (RowRun.completed index row outcome evaluated before applied).report.IsConsistent definition
      (RowRun.completed index row outcome evaluated before applied).notices := by
  have hfaults : failedOutputs (before ++ applied.notices) = failedOutputs applied.notices := by
    rw [failedOutputs_append, hbefore, List.nil_append]
  have hdropped : applied.notices.isEmpty = true ↔ failedOutputs applied.notices = [] := by
    rw [List.isEmpty_iff, failedOutputs, List.filterMap_eq_nil_iff]
    constructor
    · intro hnone
      simp [hnone]
    · intro hnone
      refine List.eq_nil_iff_forall_not_mem.mpr fun notice hnotice => ?_
      exact hfailed notice hnotice (hnone notice hnotice)
  have hdeclared : applied.outputs.Sublist (definition.outputs.map OutputField.name) :=
    hsettled.sublist.trans (List.filter_sublist.map OutputField.name)
  unfold RowRun.completed
  constructor
  case failure_iff => simp [hfaults, hcompleted, ← hdropped]
  case settled => exact fun _ => hfaults ▸ hsettled
  case counted => exact fun _ => hfaults ▸ hsettled.length_add
  case ordered => exact hdeclared
  case nodup => exact hnames.sublist hdeclared

theorem IsResolved.isConsistent_of_runRow (hresolved : table.IsResolved) (occasion : Occasion)
    (index : Nat) (row : Location) (document : Json) :
    (table.runRow occasion index row document).report.IsConsistent table.definition
      (table.runRow occasion index row document).notices := by
  by_cases haborted :
      (table.select fun input => input.extract document row).aborted = true
  · rw [runRow_of_aborted rfl haborted]
    exact isConsistent_of_aborted
  · rw [runRow_of_completed rfl (Bool.eq_false_iff.mpr haborted)]
    apply isConsistent_of_completed
    · exact contributions_ne_aborted table _
    · rw [failedOutputs_append, failedOutputs_of_extraction, failedOutputs_of_select,
        List.append_nil]
    · exact fun _ => failedOutput?_of_applyPicks
    · rw [← hresolved.names_picksFor fun _ => mem_of_mem_select]
      exact settlement_applyPicks table _ _
    · rw [← Definition.outputNames_of_realizes hresolved.outputs]
      exact hresolved.outputNames

/-- Warnings come from the extraction of inputs alone, whatever else is noticed. -/
theorem warnings_of_runRow (table : Table) (occasion : Occasion) (index : Nat) (row : Location)
    (document : Json) :
    (table.runRow occasion index row document).notices.filter
        (fun notice => notice.level = .warning) =
      extractionNotices table.inputs fun input => input.extract document row := by
  let extract := fun input : Input => input.extract document row
  have hextraction : (extractionNotices table.inputs extract).filter
      (fun notice => notice.level = .warning) = extractionNotices table.inputs extract := by
    refine List.filter_eq_self.mpr fun notice hnotice => ?_
    obtain ⟨input, -, rfl⟩ := List.mem_map.mp hnotice
    rfl
  have hselection : (table.select extract).notices.filter
      (fun notice => notice.level = .warning) = [] := by
    refine List.filter_eq_nil_iff.mpr fun notice hnotice => ?_
    obtain ⟨rule, -, name, error, -, rfl⟩ := mem_select_notices hnotice
    simp [Notice.level]
  have happlied : ∀ context picks, (table.applyPicks context picks).notices.filter
      (fun notice => notice.level = .warning) = [] := by
    intro context picks
    refine List.filter_eq_nil_iff.mpr fun notice hnotice => ?_
    have hfailed := failedOutput?_of_applyPicks hnotice
    cases notice <;> simp_all [Notice.level, Notice.failedOutput?]
  by_cases haborted : (table.select extract).aborted = true
  · rw [runRow_of_aborted rfl haborted, List.filter_append, hextraction, hselection,
      List.append_nil]
  · rw [runRow_of_completed rfl (Bool.eq_false_iff.mpr haborted), RowRun.completed,
      List.filter_append, List.filter_append, hextraction, hselection, happlied, List.append_nil,
      List.append_nil]

/-! ## Runs -/

section Runs

variable {rows : List Location} {occasion : Occasion} {index : Nat}

theorem index_runRow (table : Table) (occasion : Occasion) (index : Nat) (row : Location)
    (document : Json) :
    (table.runRow occasion index row document).report.index = index ∧
      (table.runRow occasion index row document).report.pointer = row.pointer := by
  unfold runRow
  simp only
  split <;> exact ⟨rfl, rfl⟩

theorem places_runRows :
    (table.runRows occasion index rows document).report.rows.map
        (fun row => (row.index, row.pointer)) =
      (rows.zipIdx index).map fun (location, index) => (index, location.pointer) := by
  induction rows generalizing index document with
  | nil => rfl
  | cons row rest ih =>
      obtain ⟨hindex, hpointer⟩ := index_runRow table occasion index row document
      simp [runRows, hindex, hpointer, ih]

theorem le_row_of_runRows {diagnostic : Diagnostic}
    (hdiagnostic : diagnostic ∈
      (table.runRows occasion index rows document).report.diagnostics) :
    index ≤ diagnostic.row := by
  induction rows generalizing index document with
  | nil => simp [runRows] at hdiagnostic
  | cons row rest ih =>
      rcases List.mem_append.mp hdiagnostic with hrow | hlater
      · obtain ⟨notice, -, rfl⟩ := List.mem_map.mp hrow
        exact Nat.le_refl _
      · exact Nat.le_of_succ_le (ih hlater)

theorem ordered_runRows :
    ((table.runRows occasion index rows document).report.diagnostics.map
      Diagnostic.row).Pairwise (· ≤ ·) := by
  induction rows generalizing index document with
  | nil => exact .nil
  | cons row rest ih =>
      simp only [runRows, List.map_append, List.map_map]
      refine List.pairwise_append.mpr ⟨?_, ih, ?_⟩
      · exact List.pairwise_map.mpr (List.pairwise_of_forall fun _ _ => Nat.le_refl _)
      · intro first hfirst second hsecond
        obtain ⟨notice, -, rfl⟩ := List.mem_map.mp hfirst
        obtain ⟨diagnostic, hdiagnostic, rfl⟩ := List.mem_map.mp hsecond
        exact Nat.le_of_succ_le (le_row_of_runRows hdiagnostic)

theorem noticesOf_cons (rows : List RowReport) (notices : List Notice) (later : Report)
    (index other : Nat) :
    Report.noticesOf
        ⟨rows, notices.map (fun notice => ⟨index, notice⟩) ++ later.diagnostics⟩ other =
      (if index = other then notices else []) ++ later.noticesOf other := by
  unfold Report.noticesOf
  by_cases h : index = other <;> simp [h, List.filter_map, Function.comp_def]

theorem noticesOf_of_lt {other : Nat} (hother : other < index) :
    (table.runRows occasion index rows document).report.noticesOf other = [] := by
  refine List.map_eq_nil_iff.mpr (List.filter_eq_nil_iff.mpr fun diagnostic hdiagnostic => ?_)
  have hlater : index ≤ diagnostic.row := le_row_of_runRows hdiagnostic
  simp only [decide_eq_true_eq]
  omega

/--
The entry of a row and its notices are those of processing it on the document that the rows before
it have left.
-/
theorem runRows_at (table : Table) {place : Nat} {row : Location}
    (hrow : rows[place]? = some row) (occasion : Occasion) (index : Nat) (document : Json) :
    let before := (table.runRows occasion index (rows.take place) document).document
    let run := table.runRow occasion (index + place) row before
    (table.runRows occasion index rows document).report.rows[place]? = some run.report ∧
      (table.runRows occasion index rows document).report.noticesOf (index + place) =
        run.notices := by
  induction rows generalizing index document place with
  | nil => simp at hrow
  | cons head rest ih =>
      simp only [runRows, noticesOf_cons]
      cases place with
      | zero =>
          obtain rfl : head = row := by simpa using hrow
          simp [runRows, noticesOf_of_lt]
      | succ place =>
          have hplace : index + (place + 1) = index + 1 + place := by omega
          have hhead : index ≠ index + 1 + place := by omega
          rw [hplace, if_neg hhead]
          exact ih (by simpa using hrow) (index + 1) _

end Runs

/-- The document on which the row of an index is processed. -/
def documentAt (table : Table) (occasion : Occasion) (document : Json) (index : Nat) : Json :=
  (table.runRows occasion 0 ((table.target.select document .root).take index) document).document

theorem execute_at (table : Table) {index : Nat} {row : Location} {document : Json}
    (hrow : (table.target.select document .root)[index]? = some row) (occasion : Occasion) :
    let run := table.runRow occasion index row (table.documentAt occasion document index)
    (table.execute document occasion).report.rows[index]? = some run.report ∧
      (table.execute document occasion).report.noticesOf index = run.notices := by
  have hrun := runRows_at table hrow occasion 0 document
  rw [Nat.zero_add] at hrun
  exact hrun

/-- The report on a run of an accepted table is consistent, whichever document it is run on. -/
theorem execute_report_isConsistent {definition : Definition} {functions : Registry}
    {options : TableOptions} (haccepted : definition.compile functions options = .ok table)
    (document : Json) (occasion : Occasion) :
    (table.execute document occasion).report.IsConsistent definition
      (table.target.select document .root) (table.documentAt occasion document) := by
  obtain ⟨rfl, -, -, hresolved⟩ := Definition.compile_spec haccepted
  have hplaces : (table.execute document occasion).report.rows.map
      (fun row => (row.index, row.pointer)) =
        (table.target.select document .root).zipIdx.map
          fun (location, index) => (index, location.pointer) := places_runRows
  constructor
  case places => exact hplaces
  case success_iff => simp [Report.success]
  case rows =>
    intro row hrow
    obtain ⟨index, hindex⟩ := List.mem_iff_getElem?.mp hrow
    have hplace := congrArg (·[index]?) hplaces
    simp only [List.getElem?_map, hindex, Option.map_some, List.getElem?_zipIdx] at hplace
    obtain ⟨_, hnumbered, -⟩ := Option.map_eq_some_iff.mp hplace.symm
    obtain ⟨location, hlocation, -⟩ := Option.map_eq_some_iff.mp hnumbered
    obtain ⟨hreport, hnotices⟩ := table.execute_at hlocation occasion
    obtain rfl := Option.some.inj (hindex.symm.trans hreport)
    rw [(index_runRow ..).1, hnotices]
    exact hresolved.isConsistent_of_runRow ..
  case warnings =>
    intro index location hlocation
    obtain ⟨-, hnotices⟩ := table.execute_at hlocation occasion
    rw [hnotices, warnings_of_runRow, extractionNotices, hresolved.inputs_eq, List.filter_map,
      List.map_map]
    rfl
  case ordered => exact ordered_runRows

/-- The label of a crate is blocked by text, and its carriers are too many. -/
def crates : Definition :=
  { path := "$.crates[*]"
    inputs := [⟨"weight", "@.weight", none⟩, ⟨"stamp", "@.stamps[*]", none⟩]
    outputs := [⟨"note", "@.note"⟩, ⟨"label", "@.site.label"⟩, ⟨"carrier", "@.carrier"⟩]
    rules :=
      [⟨2, .ofPairs [("weight", .string "heavy"), ("stamp", .string "paid")],
        .ofPairs [("label", .string "hand over"), ("note", .string "paid")]⟩,
        ⟨1, .ofPairs [("weight", .string "heavy")],
          .ofPairs [("carrier", .string "#valueof('@.names[*]')"), ("note", .string "ship")]⟩]
    defaults := some (.ofPairs [("note", .string "hold")])
    strategy := ⟨.allMatches, .lastWins, true⟩ }

def cratesDocument : Json :=
  let names := Json.array [.string "north", .string "south"]
  .object [("crates", .array [.object [("names", names), ("site", .string "dock"),
      ("stamps", .array [.string "paid"]), ("weight", .string "heavy")],
    .object [("stamps", names), ("weight", .string "heavy")], .object []])]

/-- The first crate has one output written and two refused, the second is given up. -/
theorem execute_report_isConsistent_crates :
    ∃ table, crates.compile .steady {} = .ok table ∧
      (table.execute cratesDocument []).report.IsConsistent crates
        (table.target.select cratesDocument .root) (table.documentAt [] cratesDocument) ∧
      (table.execute cratesDocument []).report.rows.map
          (fun row => (row.outcome, row.written, row.success)) =
        [(.matched [1, 0], ["note"], false), (.aborted, [], false),
          (.defaulted, ["note"], true)] := by
  have haccepted : (crates.compile .steady {}).isOk = true := by cbv
  obtain ⟨table, haccepted⟩ := Definition.exists_of_compile_isOk haccepted
  have hrows : (crates.compile .steady {}).toOption.map (fun table =>
      (table.execute cratesDocument []).report.rows.map
        fun row => (row.outcome, row.written, row.success)) =
      some [(.matched [1, 0], ["note"], false), (.aborted, [], false),
        (.defaulted, ["note"], true)] := by cbv
  simp only [haccepted, Except.toOption, Option.map_some, Option.some.injEq] at hrows
  exact ⟨table, haccepted, execute_report_isConsistent haccepted cratesDocument [], hrows⟩

end Table

end DecisionTables
