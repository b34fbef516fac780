import DecisionTables.Path.Writing
import DecisionTables.Table.Conflict
import DecisionTables.Table.Selection

/-!
# Running tables

A run takes the rows that the target selects in the document it starts with, and processes one after
the other.  The values for all outputs of a row are computed before the first of them is written;
they are written in the order of the outputs, and an output that cannot be computed or written is
passed over.  What a row writes is there for the rows after it.
-/

namespace DecisionTables.Table

def evaluateResults (functions : Registry) (context : Context) (position : Nat) :
    List ResultValue → Except CallError (List Json)
  | [] => .ok []
  | result :: rest =>
    match result.evaluate functions (context.within position) with
    | .error error => .error error
    | .ok value =>
      match evaluateResults functions context (position + 1) rest with
      | .error error => .error error
      | .ok values => .ok (value :: values)

def Pick.evaluate (pick : Pick) (functions : Registry) (dedup : Bool) (context : Context) :
    Except CallError Json :=
  match pick with
  | one result => result.evaluate functions context
  | merged results => (evaluateResults functions context 0 results).map (mergeValues dedup)

/-- The values for outputs, with a notice for each that cannot be computed. -/
def computeAll (table : Table) (context : Context) (position : Nat) :
    List (Output × Pick) → List (Output × Json) × List Notice
  | [] => ([], [])
  | (output, pick) :: rest =>
    let (values, notices) := computeAll table context (position + 1) rest
    match pick.evaluate table.functions table.options.mergeDedup (context.within position) with
    | .ok value => ((output, value) :: values, notices)
    | .error error => (values, .uncomputedOutput output.name error :: notices)

structure Written where
  document : Json
  outputs : List String
  notices : List Notice

def writeAll (row : Location) : List (Output × Json) → Json → Written
  | [], document => ⟨document, [], []⟩
  | (output, value) :: rest, document =>
    match output.path.write row value document with
    | (document, none) =>
      let later := writeAll row rest document
      { later with outputs := output.name :: later.outputs }
    | (document, some error) =>
      let later := writeAll row rest document
      { later with notices := .unwrittenOutput output.name error :: later.notices }

/-- The outcome for a row with the given matching rules, and the sets of results to be applied. -/
def contributions (table : Table) (rules : List Rule) : Outcome × List ResultSet :=
  match rules, table.defaults with
  | [], some defaults => (.defaulted, [defaults])
  | [], none => (.noMatch, [])
  | rules, _ => (.matched (rules.map Rule.declaration), rules.map Rule.results)

structure RowRun where
  document : Json
  report : RowReport
  notices : List Notice

def runRow (table : Table) (occasion : Occasion) (index : Nat) (row : Location)
    (document : Json) : RowRun :=
  let extract := fun input => Input.extract input document row
  let warnings := extractionNotices table.inputs extract
  let selection := table.select extract
  if selection.aborted then
    { document
      report := ⟨index, row.pointer, .aborted, selection.evaluated, [], false⟩
      notices := warnings ++ selection.notices }
  else
    let (outcome, sets) := table.contributions selection.rules
    let picks := picks table.outputs table.strategy.conflict sets
    let (values, uncomputed) := table.computeAll ⟨document, row, index :: occasion⟩ 0 picks
    let written := writeAll row values document
    let faults := uncomputed ++ written.notices
    { document := written.document
      report :=
        ⟨index, row.pointer, outcome, selection.evaluated, written.outputs, faults.isEmpty⟩
      notices := warnings ++ selection.notices ++ faults }

structure Execution where
  document : Json
  report : Report

def runRows (table : Table) (occasion : Occasion) (index : Nat) :
    List Location → Json → Execution
  | [], document => ⟨document, ⟨[], []⟩⟩
  | row :: rest, document =>
    let run := table.runRow occasion index row document
    let later := runRows table occasion (index + 1) rest run.document
    { document := later.document
      report :=
        { rows := run.report :: later.report.rows
          diagnostics :=
            run.notices.map (fun notice => ⟨index, notice⟩) ++ later.report.diagnostics } }

/-- Runs the table on a document.  Runs of different occasions draw different fresh values. -/
def execute (table : Table) (document : Json) (occasion : Occasion := []) : Execution :=
  table.runRows occasion 0 (table.target.select document .root) document

end DecisionTables.Table
