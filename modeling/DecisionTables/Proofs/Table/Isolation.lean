import DecisionTables.Proofs.Call.RowLocal
import DecisionTables.Proofs.Json.Writing
import DecisionTables.Proofs.Table.Computation
import Mathlib

/-!
# Rows in isolation

Where a table reads, computes and writes nothing but what lies within the row, processing a row of a
document is processing the node at that row alone: the same rules are selected, the same values are
computed and the same outputs are written, and the outcome takes the place of the node.  Selected
rows of a canonical document, as every document that is read is, lie apart from one another, so a
run over all of them is one such step for each, and no row sees or disturbs another.
-/

namespace DecisionTables

/-- Two reports on the same happening in rows that may stand at different places. -/
def RowReport.Agrees (report other : RowReport) : Prop :=
  report.outcome = other.outcome ∧ report.evaluated = other.evaluated ∧
    report.written = other.written ∧ report.success = other.success

namespace Table

variable {table : Table} {document node : Json} {row : Location}

/-- Nothing that the table reads, computes or writes lies outside the row. -/
structure IsRowLocal (table : Table) : Prop where
  inputs : ∀ input ∈ table.inputs, ∀ path, input.path = .ok path → path.root = .row
  outputs : ∀ output ∈ table.outputs, output.path.root = .row
  results : ∀ rule ∈ table.rules, ∀ result ∈ rule.results, result.2.IsRowLocal
  defaults : ∀ results, table.defaults = some results → ∀ result ∈ results, result.2.IsRowLocal

/-- The table whose only row is the whole document. -/
def atRoot (table : Table) : Table :=
  { table with definition.path := "$", target := ⟨"$", .document, []⟩ }

/-- What a run on a document whose only row is the whole of it does with the row. -/
def runAlone (table : Table) (occasion : Occasion) (document : Json) : RowRun :=
  table.runRow occasion 0 .root document

theorem runRow_atRoot (table : Table) (occasion : Occasion) (index : Nat) (row : Location) :
    table.atRoot.runRow occasion index row = table.runRow occasion index row := by
  funext document
  have hcomputed : table.atRoot.computeAll = table.computeAll := by
    funext context position picks
    apply computeAll_of_settings <;> rfl
  simp only [runRow, hcomputed]
  rfl

theorem atRoot_execute (table : Table) (document : Json) (occasion : Occasion) :
    (table.atRoot.execute document occasion).document =
        (table.runAlone occasion document).document ∧
      (table.atRoot.execute document occasion).report.rows =
        [(table.runAlone occasion document).report] := by
  have hrows : table.atRoot.target.select document .root = [.root] := rfl
  simp [execute, hrows, runRows, runRow_atRoot, runAlone]

theorem compile_atRoot {definition : Definition} {functions : Registry} {options : TableOptions}
    (haccepted : definition.compile functions options = .ok table) :
    { definition with path := "$" }.compile functions options = .ok table.atRoot := by
  have hread : Path.read "$" = .ok ⟨"$", .document, []⟩ := by cbv
  exact Definition.compile_withPath hread haccepted

/-! ## What is computed for a row -/

/-- Rows are read, computed and written wherever they stand as they would be anywhere else. -/
structure KeepsToRows (table : Table) : Prop where
  inputs : ∀ input ∈ table.inputs, ∀ path, input.path = .ok path → path.root = .row
  outputs : ∀ output ∈ table.outputs, output.path.root = .row
  results : ∀ rule ∈ table.rules, ∀ result ∈ rule.results, result.2.DependsOnRow table.functions
  defaults : ∀ results, table.defaults = some results →
    ∀ result ∈ results, result.2.DependsOnRow table.functions

theorem IsRowLocal.keepsToRows (hlocal : table.IsRowLocal)
    (hconcat : table.functions.HasPlainConcat) : table.KeepsToRows where
  inputs := hlocal.inputs
  outputs := hlocal.outputs
  results rule hrule result hresult :=
    (hlocal.results rule hrule result hresult).dependsOnRow hconcat
  defaults results hdefaults result hresult :=
    (hlocal.defaults results hdefaults result hresult).dependsOnRow hconcat

theorem Input.extract_of_row {input : Input}
    (hlocal : ∀ path, input.path = .ok path → path.root = .row)
    (hnode : row.resolve? document = some node) :
    input.extract document row = input.extract node .root := by
  unfold extract
  cases hpath : input.path with
  | error error => rfl
  | ok path => simp only [Path.selectOne_of_row (hlocal path hpath) hnode]

/-- What is computed for the row does not depend on where the row stands. -/
theorem KeepsToRows.computeAll_eq (hkeeps : table.KeepsToRows) {context other : Context}
    (hsame : context.SeesSameRow other) {rules : List Rule}
    (hrules : ∀ rule ∈ rules, rule ∈ table.rules) :
    table.computeAll context 0 (table.picksFor rules) =
      table.computeAll other 0 (table.picksFor rules) := by
  apply computeAll_picksFor_congr _ _ hrules
  · intro rule hrule result hresult occasion otherOccasion
    exact hkeeps.results rule hrule result hresult _ _ hsame
  · intro results hdefaults result hresult occasion otherOccasion
    exact hkeeps.defaults results hdefaults result hresult _ _ hsame

/-! ## What a row writes -/

theorem write_of_row {path : Path} (hroot : path.root = .row)
    (hnode : row.resolve? document = some node) (value : Json) :
    path.write row value document =
      ((Json.write (path.write .root value node).1 row.steps document).1,
        (path.write .root value node).2) := by
  cases hsteps : Path.stepsOf? path.segments with
  | none =>
      have hself : (Json.write node row.steps document).1 = document := Json.write_self hnode
      simp [Path.write, Path.target?, hsteps, hself]
  | some steps =>
      have hhere : path.target? row = some ⟨row.steps ++ steps⟩ := by
        simp [Path.target?, Path.base, hroot, hsteps]
      have halone : path.target? .root = some ⟨steps⟩ := by
        simp [Path.target?, Path.base, hroot, hsteps, Location.root]
      simp only [Path.write, hhere, halone, Json.write_append steps value hnode]

/-- Writing in a row is writing in its node alone and putting the outcome in its place. -/
theorem writeAll_of_row {values : List (Output × Json)}
    (hlocal : ∀ entry ∈ values, entry.1.path.root = .row)
    (hnode : row.resolve? document = some node) :
    writeAll row values document =
      { writeAll .root values node with
        document := (Json.write (writeAll .root values node).document row.steps document).1 } := by
  induction values generalizing document node with
  | nil =>
      have hself : (Json.write node row.steps document).1 = document := Json.write_self hnode
      simp only [writeAll, hself]
  | cons entry rest ih =>
      obtain ⟨hhead, hrest⟩ := List.forall_mem_cons.mp hlocal
      have hwritten := write_of_row hhead hnode entry.2
      -- The node is there to be written in its place, and is found there afterwards.
      have hexists : (document.follow? row.steps).isSome := Option.isSome_of_eq_some hnode
      have hinside := Json.follow?_write_self (entry.1.path.write .root entry.2 node).1 hexists
      rw [writeAll_cons, writeAll_cons, hwritten, ih hrest hinside, Json.write_write]
      cases (entry.1.path.write .root entry.2 node).2 <;> rfl

theorem KeepsToRows.applyPicks_eq (hkeeps : table.KeepsToRows)
    (hnode : row.resolve? document = some node) (occasion other : Occasion) {rules : List Rule}
    (hrules : ∀ rule ∈ rules, rule ∈ table.rules) :
    table.applyPicks ⟨document, row, occasion⟩ (table.picksFor rules) =
      let alone := table.applyPicks ⟨node, .root, other⟩ (table.picksFor rules)
      { alone with document := (Json.write alone.document row.steps document).1 } := by
  have hsame : Context.SeesSameRow ⟨document, row, occasion⟩ ⟨node, .root, other⟩ :=
    ⟨node, hnode, rfl⟩
  have hlocal : ∀ entry ∈ (table.computeAll ⟨node, .root, other⟩ 0 (table.picksFor rules)).1,
      entry.1.path.root = .row :=
    fun entry hentry => hkeeps.outputs _ (mem_outputs_of_computeAll hentry)
  simp only [applyPicks, hkeeps.computeAll_eq hsame hrules, writeAll_of_row hlocal hnode]

/-- The run of a row in which this node is a part of a document. -/
def RowRun.placedAt (run : RowRun) (index : Nat) (row : Location) (document : Json) : RowRun :=
  { document := (Json.write run.document row.steps document).1
    report := { run.report with index, pointer := row.pointer }
    notices := run.notices }

/-- Processing a row is processing its node alone and putting the outcome in its place. -/
theorem runRow_of_row (hresolved : table.IsResolved) (hkeeps : table.KeepsToRows)
    (hnode : row.resolve? document = some node) (occasion other : Occasion) (index : Nat) :
    table.runRow occasion index row document =
      (table.runAlone other node).placedAt index row document := by
  have hextract : ∀ input ∈ table.inputs,
      input.extract document row = input.extract node .root :=
    fun input hinput => Input.extract_of_row (hkeeps.inputs input hinput) hnode
  have hselect : (table.select fun input => input.extract document row) =
      table.select fun input => input.extract node .root :=
    hresolved.select_congr hextract
  have hwarnings := extractionNotices_congr hextract
  cases haborted : (table.select fun input => input.extract node .root).aborted with
  | true =>
      have hself : (Json.write node row.steps document).1 = document := Json.write_self hnode
      rw [runAlone, runRow_of_aborted hselect haborted, runRow_of_aborted rfl haborted, hwarnings]
      simp only [RowRun.placedAt, hself]
  | false =>
      have hselected : ∀ rule ∈ (table.select fun input => input.extract node .root).rules,
          rule ∈ table.rules := fun _ => mem_of_mem_select
      rw [runAlone, runRow_of_completed hselect haborted, runRow_of_completed rfl haborted,
        hwarnings, hkeeps.applyPicks_eq hnode (index :: occasion) (0 :: other) hselected]
      rfl

/-! ## Runs over all rows -/

/-- What a run over the given rows comes to, where `alone` tells what comes of a node by itself. -/
structure RunsApart (alone : Json → RowRun) (rows : List Location) (before : Json)
    (run : Execution) : Prop where
  inside : ∀ row ∈ rows, ∀ node, row.resolve? before = some node →
    row.resolve? run.document = some (alone node).document
  reports : List.Forall₂
    (fun row report => ∀ node, row.resolve? before = some node →
      report.pointer = row.pointer ∧ report.Agrees (alone node).report)
    rows run.report.rows
  outside : ∀ location : Location, (∀ row ∈ rows, Step.Apart row.steps location.steps) →
    location.resolve? run.document = location.resolve? before

theorem runRows_apart (hresolved : table.IsResolved) (hkeeps : table.KeepsToRows)
    (occasion other : Occasion) {rows : List Location}
    (hapart : rows.Pairwise fun first second => Step.Apart first.steps second.steps)
    (hexist : ∀ row ∈ rows, (row.resolve? document).isSome) (index : Nat) :
    RunsApart (table.runAlone other) rows document
      (table.runRows occasion index rows document) := by
  induction rows generalizing document index with
  | nil =>
      constructor
      case inside => simp
      case reports => exact .nil
      case outside => exact fun _ _ => rfl
  | cons row rest ih =>
      obtain ⟨hrow, hrest⟩ := List.pairwise_cons.mp hapart
      obtain ⟨node, hnode⟩ := Option.isSome_iff_exists.mp (hexist row List.mem_cons_self)
      have hplaced := runRow_of_row hresolved hkeeps hnode occasion other index
      have hreplaces : Json.Replaces row.steps (table.runAlone other node).document document
          (table.runRow occasion index row document).document := by
        rw [hplaced]
        exact Json.replaces_write _ (Option.isSome_of_eq_some hnode)
      -- The rows still to come are as they were, since this one is apart from them.
      have hunchanged : ∀ later ∈ rest,
          later.resolve? (table.runRow occasion index row document).document =
            later.resolve? document :=
        fun later hlater => hreplaces.outside later.steps (hrow later hlater)
      have hlater := ih hrest (fun later hlater => by
        rw [hunchanged later hlater]
        exact hexist later (List.mem_cons_of_mem _ hlater)) (index + 1)
      constructor
      case inside =>
        intro found hfound start hstart
        rcases List.mem_cons.mp hfound with rfl | hfound
        · obtain rfl : node = start := Option.some.inj (hnode.symm.trans hstart)
          have hkept := hlater.outside found fun later hlater => (hrow later hlater).symm
          exact hkept.trans hreplaces.inside
        · exact hlater.inside found hfound start ((hunchanged found hfound).trans hstart)
      case reports =>
        refine .cons ?_ ?_
        · intro start hstart
          obtain rfl : node = start := Option.some.inj (hnode.symm.trans hstart)
          rw [hplaced]
          exact ⟨rfl, rfl, rfl, rfl, rfl⟩
        · have hboth := (List.forall₂_and_left _ _).mpr ⟨hunchanged, hlater.reports⟩
          exact hboth.imp fun later report hreport start hstart =>
            hreport.2 start (hreport.1.trans hstart)
      case outside =>
        intro location happart
        obtain ⟨hhere, hthere⟩ := List.forall_mem_cons.mp happart
        exact (hlater.outside location hthere).trans (hreplaces.outside _ hhere)

/--
Every row ends up as its node would by itself, with a report that agrees, and whatever is apart from
all rows stays as it was.
-/
theorem execute_isolates_rows {definition : Definition} {functions : Registry}
    {options : TableOptions} (haccepted : definition.compile functions options = .ok table)
    (hlocal : table.IsRowLocal) (hconcat : functions.HasPlainConcat)
    (hcanonical : document.Canonical) (occasion other : Occasion) :
    ∃ alone, { definition with path := "$" }.compile functions options = .ok alone ∧
      (∀ row ∈ table.target.select document .root, ∃ node,
        row.resolve? document = some node ∧
          row.resolve? (table.execute document occasion).document =
            some (alone.execute node other).document) ∧
      List.Forall₂
        (fun row report => ∃ node single, row.resolve? document = some node ∧
          (alone.execute node other).report.rows = [single] ∧
          report.pointer = row.pointer ∧ report.Agrees single)
        (table.target.select document .root) (table.execute document occasion).report.rows ∧
      ∀ location : Location,
        (∀ row ∈ table.target.select document .root, Step.Apart row.steps location.steps) →
          location.resolve? (table.execute document occasion).document =
            location.resolve? document := by
  obtain ⟨rfl, rfl, rfl, hresolved⟩ := Definition.compile_spec haccepted
  have hexist : ∀ row ∈ table.target.select document .root,
      (row.resolve? document).isSome := by
    intro row hrow
    obtain ⟨_, -, -, hexists⟩ := Path.mem_select_spec hcanonical hrow
    exact hexists
  have hapart := Path.pairwise_apart_select hcanonical table.target .root
  have hkeeps := hlocal.keepsToRows hconcat
  have hrun := runRows_apart hresolved hkeeps occasion other hapart hexist 0
  refine ⟨table.atRoot, compile_atRoot haccepted, ?_, ?_, hrun.outside⟩
  · intro row hrow
    obtain ⟨node, hnode⟩ := Option.isSome_iff_exists.mp (hexist row hrow)
    refine ⟨node, hnode, ?_⟩
    rw [(atRoot_execute table node other).1]
    exact hrun.inside row hrow node hnode
  · have hboth := (List.forall₂_and_left _ _).mpr ⟨hexist, hrun.reports⟩
    refine hboth.imp fun row report hrow => ?_
    obtain ⟨node, hnode⟩ := Option.isSome_iff_exists.mp hrow.1
    obtain ⟨hpointer, hagrees⟩ := hrow.2 node hnode
    exact ⟨node, _, hnode, (atRoot_execute table node other).2, hpointer, hagrees⟩

/-- Rows at two levels of arrays, of which a null becomes an object when it is written to. -/
def badges : Definition :=
  { path := "$.teams[*].people[*]"
    inputs := [⟨"role", "@.role", none⟩]
    outputs := [⟨"badge", "@.badge.text"⟩]
    rules :=
      [⟨0, .ofPairs [("role", .string "lead")],
        .ofPairs [("badge", .string "#concat('team ', #concat('lead'))")]⟩]
    defaults := some (.ofPairs [("badge", .string "none")])
    strategy := .standard }

def badgesTable : Table :=
  let role : Input := ⟨"role", .ok ⟨"@.role", .row, [.key "role"]⟩, none⟩
  let badge : Output := ⟨"badge", ⟨"@.badge.text", .row, [.key "badge", .key "text"]⟩⟩
  let lead := Criteria.expression [[.test .equal (.text "lead")]]
  let text := ResultValue.computed "#concat('team ', #concat('lead'))"
    ⟨"concat", [.literal (.string "team "), .call "concat" [.literal (.string "lead")]]⟩
  { definition := badges
    target := ⟨badges.path, .document, [.key "teams", .wildcard, .key "people", .wildcard]⟩
    inputs := [role]
    outputs := [badge]
    rules := [⟨0, 0, [⟨role, lead⟩], [(badge, text)]⟩]
    defaults := some [(badge, .fixed (.string "none"))]
    options := {}
    functions := Registry.empty.register Builtin.concat }

def badgesDocument : Json :=
  .object [("teams", .array [.object [("people", .array [.object [("role", .string "lead")],
    .null])], .object [("people", .array [.object []])]])]

theorem execute_isolates_badges :
    (badgesTable.target.select badgesDocument .root).length = 3 ∧
      ∃ alone, { badges with path := "$" }.compile (Registry.empty.register Builtin.concat) {} =
          .ok alone ∧
        (∀ row ∈ badgesTable.target.select badgesDocument .root, ∃ node,
          row.resolve? badgesDocument = some node ∧
            row.resolve? (badgesTable.execute badgesDocument).document =
              some (alone.execute node).document) ∧
        ∀ location : Location,
          (∀ row ∈ badgesTable.target.select badgesDocument .root,
            Step.Apart row.steps location.steps) →
          location.resolve? (badgesTable.execute badgesDocument).document =
            location.resolve? badgesDocument := by
  have haccepted : badges.compile (Registry.empty.register Builtin.concat) {} =
      .ok badgesTable := by cbv
  have hlocal : badgesTable.IsRowLocal := by
    constructor <;>
      simp [badgesTable, ResultValue.IsRowLocal, Call.toArgument, Argument.IsRowLocal,
        Argument.AllRowLocal]
  have hcanonical : badgesDocument.Canonical := by
    simp [badgesDocument, Json.Canonical, Json.CanonicalItems, Json.CanonicalMembers,
      Entries.Sorted]
  obtain ⟨alone, halone, hrows, -, houtside⟩ := execute_isolates_rows haccepted hlocal
    (Registry.hasPlainConcat_register _) hcanonical [] []
  exact ⟨by cbv, alone, halone, hrows, houtside⟩

end Table

end DecisionTables
