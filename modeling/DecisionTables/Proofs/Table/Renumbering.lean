import DecisionTables.Proofs.Table.Computation

/-!
# Tables with other rule numbers

The position of a rule in its definition is told in outcomes and in notices, and nothing that a run
decides depends on it once the rules are in order.  So where the rules of a table get other
positions, every step of a run commutes with the renumbering: the verdict on a rule, the scan of the
rules, the choice among them, and with these the run of a row and of all rows.
-/

namespace DecisionTables

/-- The notice with another position for the rule in it.  Rules are numbered from one. -/
def Notice.renumber (rename : Nat → Nat) : Notice → Notice
  | unreadableInput ruleNumber input error =>
    unreadableInput (rename (ruleNumber - 1) + 1) input error
  | notice => notice

def Outcome.renumber (rename : Nat → Nat) : Outcome → Outcome
  | matched declarations => matched (declarations.map rename)
  | outcome => outcome

def RowReport.renumber (rename : Nat → Nat) (report : RowReport) : RowReport :=
  { report with outcome := report.outcome.renumber rename }

def Diagnostic.renumber (rename : Nat → Nat) (diagnostic : Diagnostic) : Diagnostic :=
  { diagnostic with notice := diagnostic.notice.renumber rename }

def Report.renumber (rename : Nat → Nat) (report : Report) : Report :=
  ⟨report.rows.map (RowReport.renumber rename), report.diagnostics.map (Diagnostic.renumber rename)⟩

namespace Table

def Rule.renumber (rename : Nat → Nat) (rule : Rule) : Rule :=
  { rule with declaration := rename rule.declaration }

def Selection.renumber (rename : Nat → Nat) (selection : Selection) : Selection :=
  { selection with
    rules := selection.rules.map (Rule.renumber rename)
    notices := selection.notices.map (Notice.renumber rename) }

def RowRun.renumber (rename : Nat → Nat) (run : RowRun) : RowRun :=
  { run with
    report := run.report.renumber rename
    notices := run.notices.map (Notice.renumber rename) }

def Execution.renumber (rename : Nat → Nat) (execution : Execution) : Execution :=
  { execution with report := execution.report.renumber rename }

/-- The tables differ in nothing that a run looks at but the positions of their rules. -/
structure Renumbers (rename : Nat → Nat) (table other : Table) : Prop where
  target : table.target = other.target
  inputs : table.inputs = other.inputs
  outputs : table.outputs = other.outputs
  rules : table.rules = other.rules.map (Rule.renumber rename)
  defaults : table.defaults = other.defaults
  strategy : table.strategy = other.strategy
  options : table.options = other.options
  functions : table.functions = other.functions

variable {rename : Nat → Nat} {table other : Table}

/-! ## Selection -/

theorem Rule.verdict_renumber (rename : Nat → Nat) (rule : Rule) (extract : Input → Extracted)
    (options : CriteriaOptions) :
    (rule.renumber rename).verdict extract options = rule.verdict extract options :=
  rfl

theorem scan_renumber (rename : Nat → Nat) (extract : Input → Extracted)
    (options : CriteriaOptions) (strategy : Strategy) (rules : List Rule) :
    scan (fun rule => rule.verdict extract options) strategy (rules.map (Rule.renumber rename)) =
      (scan (fun rule => rule.verdict extract options) strategy rules).renumber rename := by
  induction rules with
  | nil => rfl
  | cons rule rest ih =>
      simp only [List.map_cons, scan, Rule.verdict_renumber, ih]
      cases rule.verdict extract options with
      | unmatching => rfl
      | matching =>
          simp only
          split <;> rfl
      | failed input error =>
          simp only
          split <;> rfl

theorem strongest?_renumber (rename : Nat → Nat) (rules : List Rule) :
    strongest? (rules.map (Rule.renumber rename)) =
      (strongest? rules).map (Rule.renumber rename) := by
  induction rules with
  | nil => rfl
  | cons rule rest ih =>
      simp only [List.map_cons, strongest?, ih]
      cases strongest? rest with
      | none => rfl
      | some best =>
          by_cases hless : rule.conditions.length < best.conditions.length <;>
            simp [Rule.renumber, hless]

theorem Renumbers.select_eq (hrenumbers : Renumbers rename table other)
    (extract : Input → Extracted) :
    table.select extract = (other.select extract).renumber rename := by
  simp only [select, hrenumbers.strategy, hrenumbers.options, hrenumbers.rules, scan_renumber]
  cases other.strategy.mode with
  | bestMatch =>
      simp only [Selection.renumber, strongest?_renumber, Option.toList_map]
  | _ => rfl

/-! ## Application -/

theorem Renumbers.contributions_eq (hrenumbers : Renumbers rename table other)
    (rules : List Rule) :
    table.contributions (rules.map (Rule.renumber rename)) =
      ((other.contributions rules).1.renumber rename, (other.contributions rules).2) := by
  cases rules with
  | nil =>
      simp only [contributions, List.map_nil, hrenumbers.defaults]
      cases other.defaults <;> rfl
  | cons rule rest => simp [contributions, Outcome.renumber, Rule.renumber]

theorem map_renumber_eq_self {notices : List Notice}
    (hnone : ∀ notice ∈ notices, notice.renumber rename = notice) :
    notices.map (Notice.renumber rename) = notices :=
  (List.map_congr_left hnone).trans notices.map_id

theorem extractionNotices_renumber (rename : Nat → Nat) (inputs : List Input)
    (extract : Input → Extracted) :
    (extractionNotices inputs extract).map (Notice.renumber rename) =
      extractionNotices inputs extract := by
  apply map_renumber_eq_self
  intro notice hnotice
  obtain ⟨input, -, rfl⟩ := List.mem_map.mp hnotice
  rfl

/-- The notices on outputs name no rule. -/
theorem applyPicks_notices_renumber (rename : Nat → Nat) (table : Table) (context : Context)
    (picks : List (Output × Pick)) :
    (table.applyPicks context picks).notices.map (Notice.renumber rename) =
      (table.applyPicks context picks).notices := by
  apply map_renumber_eq_self
  intro notice hnotice
  rcases List.mem_append.mp hnotice with huncomputed | hunwritten
  · obtain ⟨entry, -, error, -, rfl, -⟩ := mem_computeAll_notices huncomputed
    rfl
  · obtain ⟨entry, -, error, -, rfl, -⟩ := mem_writeAll_notices hunwritten
    rfl

theorem Renumbers.picksFor_eq (hrenumbers : Renumbers rename table other) (rules : List Rule) :
    table.picksFor (rules.map (Rule.renumber rename)) = other.picksFor rules := by
  simp only [picksFor, hrenumbers.contributions_eq, hrenumbers.outputs, hrenumbers.strategy]

theorem Renumbers.applyPicks_eq (hrenumbers : Renumbers rename table other)
    (hfunctions : other.functions.IgnoresOccasions) (document : Json) (row : Location)
    (occasion otherOccasion : Occasion) (rules : List Rule) :
    table.applyPicks ⟨document, row, occasion⟩
        (table.picksFor (rules.map (Rule.renumber rename))) =
      other.applyPicks ⟨document, row, otherOccasion⟩ (other.picksFor rules) := by
  rw [hrenumbers.picksFor_eq]
  exact applyPicks_of_settings hrenumbers.functions hrenumbers.options hfunctions document row
    occasion otherOccasion _

/-! ## Runs -/

theorem Renumbers.runRow_eq (hrenumbers : Renumbers rename table other)
    (hfunctions : other.functions.IgnoresOccasions) (occasion otherOccasion : Occasion)
    (index : Nat) (row : Location) (document : Json) :
    table.runRow occasion index row document =
      (other.runRow otherOccasion index row document).renumber rename := by
  have hselect := hrenumbers.select_eq fun input => input.extract document row
  have hwarnings := extractionNotices_renumber rename other.inputs fun input =>
    input.extract document row
  cases haborted : (other.select fun input => input.extract document row).aborted with
  | true =>
      rw [runRow_of_aborted hselect haborted, runRow_of_aborted rfl haborted, hrenumbers.inputs]
      simp only [RowRun.renumber, List.map_append, hwarnings]
      rfl
  | false =>
      have happlied := hrenumbers.applyPicks_eq hfunctions document row (index :: occasion)
        (index :: otherOccasion)
      have hfaults := applyPicks_notices_renumber rename other
      rw [runRow_of_completed hselect haborted, runRow_of_completed rfl haborted]
      simp only [hrenumbers.inputs, Selection.renumber, happlied, hrenumbers.contributions_eq,
        RowRun.completed, RowRun.renumber, List.map_append, hwarnings, hfaults]
      rfl

theorem Renumbers.runRows_eq (hrenumbers : Renumbers rename table other)
    (hfunctions : other.functions.IgnoresOccasions) (occasion otherOccasion : Occasion)
    (index : Nat) (rows : List Location) (document : Json) :
    table.runRows occasion index rows document =
      (other.runRows otherOccasion index rows document).renumber rename := by
  induction rows generalizing index document with
  | nil => rfl
  | cons row rest ih =>
      have hrow := hrenumbers.runRow_eq hfunctions occasion otherOccasion index row document
      simp only [runRows, hrow, ih, RowRun.renumber, Execution.renumber, Report.renumber,
        List.map_cons, List.map_append, List.map_map]
      rfl

/-- A run of the one table is a run of the other, told with other rule numbers. -/
theorem Renumbers.execute_eq (hrenumbers : Renumbers rename table other)
    (hfunctions : other.functions.IgnoresOccasions) (occasion otherOccasion : Occasion)
    (document : Json) :
    table.execute document occasion =
      (other.execute document otherOccasion).renumber rename := by
  unfold execute
  rw [hrenumbers.target]
  exact hrenumbers.runRows_eq hfunctions occasion otherOccasion 0 _ document

end Table

end DecisionTables
