import DecisionTables.Function.Basic
import DecisionTables.Text.Basic

/-!
# Reports

What a run of a table tells: for every row what happened to it, and what was noticed on the way.  A
row succeeds when nothing kept it from writing its outputs, and a run succeeds when all of its rows
do.
-/

namespace DecisionTables

inductive Notice where
  | nullInput (input : String)
  | unreadableInput (ruleNumber : Nat) (input : String) (error : PathError)
  | uncomputedOutput (output : String) (error : CallError)
  | unwrittenOutput (output : String) (error : PathError)
deriving DecidableEq

inductive Level where
  | warning
  | error
deriving DecidableEq

def Level.label : Level → String
  | warning => "warning"
  | error => "error"

namespace Notice

def level : Notice → Level
  | nullInput _ => .warning
  | unreadableInput _ _ _ => .error
  | uncomputedOutput _ _ => .error
  | unwrittenOutput _ _ => .error

def message : Notice → String
  | nullInput input => s!"Input '{input}' evaluated to: null"
  | unreadableInput ruleNumber input error =>
    s!"rule #{ruleNumber}: cannot extract input '{input}': {error.message}"
  | uncomputedOutput output error => s!"output '{output}': {error.message}"
  | unwrittenOutput output error => s!"output '{output}': {error.message}"

end Notice

structure Diagnostic where
  row : Nat
  notice : Notice
deriving DecidableEq

namespace Diagnostic

def level (diagnostic : Diagnostic) : Level :=
  diagnostic.notice.level

def display (diagnostic : Diagnostic) : String :=
  s!"{diagnostic.level.label} (row {diagnostic.row}): {diagnostic.notice.message}"

end Diagnostic

inductive Outcome where
  /-- Rules contributed, given by their positions in the definition in the order of application. -/
  | matched (declarations : List Nat)
  /-- No rule matched, and the default results were applied. -/
  | defaulted
  /-- No rule matched, and there are no default results. -/
  | noMatch
  /-- An input could not be read, and the row was given up. -/
  | aborted
deriving DecidableEq

def Outcome.display : Outcome → String
  | matched declarations =>
    let numbers := declarations.map fun declaration => s!"#{declaration + 1}"
    "matched [" ++ Text.join ", " numbers ++ "]"
  | defaulted => "defaulted"
  | noMatch => "no match"
  | aborted => "aborted"

structure RowReport where
  index : Nat
  /-- The JSON pointer of the row. -/
  pointer : String
  outcome : Outcome
  evaluated : Nat
  /-- The names of the outputs written, in the order of the outputs. -/
  written : List String
  success : Bool
deriving DecidableEq

def RowReport.display (report : RowReport) : String :=
  let written :=
    if report.written.isEmpty then "" else ", wrote [" ++ Text.join ", " report.written ++ "]"
  s!"row {report.index} ({report.pointer}): {report.outcome.display}" ++ written

structure Report where
  rows : List RowReport
  diagnostics : List Diagnostic
deriving DecidableEq

namespace Report

def success (report : Report) : Bool :=
  report.rows.all RowReport.success

def warnings (report : Report) : List Diagnostic :=
  report.diagnostics.filter fun diagnostic => diagnostic.level = .warning

def errors (report : Report) : List Diagnostic :=
  report.diagnostics.filter fun diagnostic => diagnostic.level = .error

/-- A summary with the time that the run took, and a line for every row. -/
def display (report : Report) (duration : String) : String :=
  let verdict := if report.success then "success" else "failure"
  let summary :=
    s!"{verdict}: {report.rows.length} row(s), {report.warnings.length} warning(s), " ++
      s!"{report.errors.length} error(s), duration: {duration}"
  summary ++ String.join (report.rows.map fun row => "\n  " ++ row.display)

end Report

end DecisionTables
