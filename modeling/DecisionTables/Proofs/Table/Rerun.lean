import DecisionTables.Proofs.Table.Isolation
import DecisionTables.Proofs.Table.Resolution

/-!
# Running a table again

Where all results are fixed, every output has a key of the row to itself and no input looks at one
of these keys, a second run finds everything as the first one did.  The rows are where they were,
since what is written lies below them; the inputs of a row are what they were, so the same values
are written to it; and writing them once more changes nothing, whichever of the writes are stopped
on their way.  Processing a row leaves its node as processing it again would, so by induction over
the rows a second run leaves the document as it is and reports what the first one did.
-/

namespace DecisionTables.Table

variable {table : Table} {outputs : List Output} {row : Location}

/-- Results are fixed, outputs have keys of their own, and inputs are looked up at other keys. -/
structure IsRepeatable (table : Table) : Prop where
  results : table.HasFixedResults
  defaults : ∀ results, table.defaults = some results →
    ∀ result ∈ results, ∃ value, result.2 = .fixed value
  outputs : HaveOwnKeys table.outputs
  inputs : ∀ input ∈ table.inputs, ∀ path, input.path = .ok path → path.root = .row ∧
    ∃ name, path.firstKey? = some name ∧
      ∀ output ∈ table.outputs, output.path.firstKey? ≠ some name

theorem IsRepeatable.keepsToRows (hrepeatable : table.IsRepeatable) : table.KeepsToRows where
  inputs input hinput path hpath := (hrepeatable.inputs input hinput path hpath).1
  outputs := hrepeatable.outputs.relative
  results rule hrule result hresult := by
    obtain ⟨value, hvalue⟩ := hrepeatable.results rule hrule result hresult
    rw [hvalue]
    exact ResultValue.dependsOnRow_fixed value _
  defaults results hdefaults result hresult := by
    obtain ⟨value, hvalue⟩ := hrepeatable.defaults results hdefaults result hresult
    rw [hvalue]
    exact ResultValue.dependsOnRow_fixed value _

/-! ## Writing again -/

/-- A write moves back over writes for other outputs, with the fault it has before them. -/
theorem HaveOwnKeys.write_writeAll (hkeys : HaveOwnKeys outputs) {output : Output}
    (houtput : output ∈ outputs) {rest : List (Output × Json)}
    (hrest : rest.map Prod.fst ⊆ outputs) (hnew : output ∉ rest.map Prod.fst) (row : Location)
    (value document : Json) :
    output.path.write row value (writeAll row rest document).document =
      ((writeAll row rest (output.path.write row value document).1).document,
        (output.path.write row value document).2) := by
  induction rest generalizing document with
  | nil => rfl
  | cons entry rest ih =>
      obtain ⟨hentry, hrest⟩ := List.cons_subset.mp hrest
      obtain ⟨hne, hnew⟩ := not_or.mp (List.mem_cons.not.mp hnew)
      rw [writeAll_cons, writeAll_cons, Written.document_after, Written.document_after,
        ih hrest hnew, hkeys.write_comm houtput hentry hne]

/-- Writes for different outputs, once they are made, are made again without any change. -/
theorem HaveOwnKeys.writeAll_writeAll (hkeys : HaveOwnKeys outputs) {values : List (Output × Json)}
    (hwithin : values.map Prod.fst ⊆ outputs) (hnodup : (values.map Prod.fst).Nodup)
    (row : Location) (document : Json) :
    writeAll row values (writeAll row values document).document = writeAll row values document := by
  induction values generalizing document with
  | nil => rfl
  | cons entry rest ih =>
      obtain ⟨hentry, hrest⟩ := List.cons_subset.mp hwithin
      obtain ⟨hnew, hlater⟩ := List.nodup_cons.mp hnodup
      have hagain := hkeys.write_writeAll hentry hrest hnew row entry.2
        (entry.1.path.write row entry.2 document).1
      rw [Path.write_write] at hagain
      rw [writeAll_cons row entry rest document, Written.document_after, writeAll_cons, hagain,
        ih hrest hlater]

/-! ## Processing a row again -/

theorem get?_writeAll {name : String} {values : List (Output × Json)}
    (hrelative : ∀ entry ∈ values, entry.1.path.root = .row)
    (hkeyed : ∀ entry ∈ values, ∃ other, entry.1.path.firstKey? = some other ∧ name ≠ other)
    (node : Json) : (writeAll .root values node).document.get? name = node.get? name := by
  induction values generalizing node with
  | nil => rfl
  | cons entry rest ih =>
      obtain ⟨hroot, hrelative⟩ := List.forall_mem_cons.mp hrelative
      obtain ⟨⟨other, hother, hne⟩, hkeyed⟩ := List.forall_mem_cons.mp hkeyed
      rw [writeAll_cons, Written.document_after, ih hrelative hkeyed]
      exact Path.get?_write_of_ne hroot hother hne entry.2 node

/-- What is written for a row is not seen by the inputs. -/
theorem IsRepeatable.extract_writeAll (hrepeatable : table.IsRepeatable)
    {values : List (Output × Json)} (hvalues : values.map Prod.fst ⊆ table.outputs) (node : Json)
    {input : Input} (hinput : input ∈ table.inputs) :
    input.extract (writeAll .root values node).document .root = input.extract node .root := by
  unfold Input.extract
  cases hpath : input.path with
  | error error => rfl
  | ok path =>
      obtain ⟨-, name, hname, hapart⟩ := hrepeatable.inputs input hinput path hpath
      obtain ⟨rest, hsegments⟩ := Path.exists_of_firstKey? hname
      have houtputs : ∀ entry ∈ values, entry.1 ∈ table.outputs :=
        fun entry hentry => hvalues (List.mem_map_of_mem hentry)
      have hkept : (writeAll .root values node).document.get? name = node.get? name := by
        apply get?_writeAll
        · exact fun entry hentry => hrepeatable.outputs.relative _ (houtputs entry hentry)
        · intro entry hentry
          obtain ⟨other, hother⟩ := Option.isSome_iff_exists.mp
            (hrepeatable.outputs.keyed _ (houtputs entry hentry))
          refine ⟨other, hother, ?_⟩
          rintro rfl
          exact hapart _ (houtputs entry hentry) hother
      simp only [Path.selectOne_of_get? hsegments hkept]

theorem IsRepeatable.computeAll_eq (hrepeatable : table.IsRepeatable) (context other : Context)
    {rules : List Rule} (hrules : ∀ rule ∈ rules, rule ∈ table.rules) :
    table.computeAll context 0 (table.picksFor rules) =
      table.computeAll other 0 (table.picksFor rules) := by
  apply computeAll_picksFor_congr _ _ hrules
  · intro rule hrule result hresult occasion otherOccasion
    obtain ⟨value, hvalue⟩ := hrepeatable.results rule hrule result hresult
    rw [hvalue]
    rfl
  · intro results hdefaults result hresult occasion otherOccasion
    obtain ⟨value, hvalue⟩ := hrepeatable.defaults results hdefaults result hresult
    rw [hvalue]
    rfl

theorem IsRepeatable.applyPicks_applyPicks (hrepeatable : table.IsRepeatable) (node : Json)
    (occasion other : Occasion) {rules : List Rule} (hrules : ∀ rule ∈ rules, rule ∈ table.rules) :
    table.applyPicks
        ⟨(table.applyPicks ⟨node, .root, occasion⟩ (table.picksFor rules)).document, .root, other⟩
        (table.picksFor rules) =
      table.applyPicks ⟨node, .root, occasion⟩ (table.picksFor rules) := by
  have hcomputed := hrepeatable.computeAll_eq
    ⟨(table.applyPicks ⟨node, .root, occasion⟩ (table.picksFor rules)).document, .root, other⟩
    ⟨node, .root, occasion⟩ hrules
  have hsublist := map_fst_computeAll_picksFor_sublist table ⟨node, .root, occasion⟩ 0 rules
  have hagain := hrepeatable.outputs.writeAll_writeAll hsublist.subset
    (hsublist.nodup hrepeatable.outputs.distinct.of_map) .root node
  rw [applyPicks, hcomputed]
  simp only [applyPicks, hagain]

theorem IsRepeatable.runAlone_runAlone (hrepeatable : table.IsRepeatable)
    (hresolved : table.IsResolved) (occasion other : Occasion) (node : Json) :
    table.runAlone other (table.runAlone occasion node).document =
      table.runAlone occasion node := by
  generalize hselect : (table.select fun input => input.extract node .root) = selection
  cases haborted : selection.aborted with
  | true =>
      have halone : ∀ occasion, table.runAlone occasion node = _ := fun occasion =>
        runRow_of_aborted hselect haborted occasion 0
      rw [halone occasion]
      exact halone other
  | false =>
      have halone : table.runAlone occasion node = _ :=
        runRow_of_completed hselect haborted occasion 0
      have hdocument : (table.runAlone occasion node).document =
          (table.applyPicks ⟨node, .root, 0 :: occasion⟩
            (table.picksFor selection.rules)).document := congrArg RowRun.document halone
      have hextract : ∀ input ∈ table.inputs,
          input.extract (table.runAlone occasion node).document .root =
            input.extract node .root := by
        intro input hinput
        have hsublist := map_fst_computeAll_picksFor_sublist table ⟨node, .root, 0 :: occasion⟩ 0
          selection.rules
        rw [hdocument]
        exact hrepeatable.extract_writeAll hsublist.subset node hinput
      have hagain : table.runAlone other (table.runAlone occasion node).document = _ :=
        runRow_of_completed ((hresolved.select_congr hextract).trans hselect) haborted other 0
      have hselected : ∀ rule ∈ selection.rules, rule ∈ table.rules := by
        rw [← hselect]
        exact fun _ => mem_of_mem_select
      rw [hagain, extractionNotices_congr hextract, hdocument,
        hrepeatable.applyPicks_applyPicks node (0 :: occasion) (0 :: other) hselected, halone]

/-! ## Running again -/

/-- Over rows whose nodes are already what processing makes of them a run changes nothing. -/
theorem IsRepeatable.runRows_of_processed (hrepeatable : table.IsRepeatable)
    (hresolved : table.IsResolved) (occasion other : Occasion) {before after : Json}
    {rows : List Location}
    (hapart : rows.Pairwise fun first second => Step.Apart first.steps second.steps)
    (hprocessed : ∀ row ∈ rows, ∃ node, row.resolve? before = some node ∧
      row.resolve? after = some (table.runAlone occasion node).document) (index : Nat) :
    table.runRows other index rows after =
      ⟨after, (table.runRows occasion index rows before).report⟩ := by
  have hkeeps := hrepeatable.keepsToRows
  induction rows generalizing before index with
  | nil => rfl
  | cons row rest ih =>
      obtain ⟨hrow, hrest⟩ := List.pairwise_cons.mp hapart
      obtain ⟨⟨node, hnode, hdone⟩, hlater⟩ := List.forall_mem_cons.mp hprocessed
      have hbefore := runRow_of_row hresolved hkeeps hnode occasion occasion index
      have hself : (Json.write (table.runAlone occasion node).document row.steps after).1 =
          after := Json.write_self hdone
      have hafter : table.runRow other index row after =
          { table.runRow occasion index row before with document := after } := by
        rw [runRow_of_row hresolved hkeeps hdone other other index,
          hrepeatable.runAlone_runAlone hresolved, hbefore]
        simp only [RowRun.placedAt, hself]
      -- The rows still to come are untouched by the first run of this one.
      have hlater : ∀ later ∈ rest, ∃ node,
          later.resolve? (table.runRow occasion index row before).document = some node ∧
            later.resolve? after = some (table.runAlone occasion node).document := by
        intro later hmem
        obtain ⟨start, hstart, hend⟩ := hlater later hmem
        refine ⟨start, ?_, hend⟩
        have hkept : later.resolve? (table.runRow occasion index row before).document =
            later.resolve? before := by
          rw [hbefore]
          exact Json.follow?_write_of_apart _ (Option.isSome_of_eq_some hnode) (hrow later hmem)
        exact hkept.trans hstart
      simp only [runRows, hafter, ih hrest hlater]

/-- A run over rows at the depth of a path leaves the locations that the path selects. -/
theorem KeepsToRows.select_runRows (hkeeps : table.KeepsToRows) (hresolved : table.IsResolved)
    {path : Path} {document : Json} {rows : List Location}
    (hapart : rows.Pairwise fun first second => Step.Apart first.steps second.steps)
    (hlength : ∀ row ∈ rows, row.steps.length = path.segments.length)
    (hexist : ∀ row ∈ rows, (row.resolve? document).isSome) (occasion : Occasion) (index : Nat) :
    path.select (table.runRows occasion index rows document).document .root =
      path.select document .root := by
  induction rows generalizing document index with
  | nil => rfl
  | cons row rest ih =>
      obtain ⟨hrow, hrest⟩ := List.pairwise_cons.mp hapart
      obtain ⟨hrowLength, hlength⟩ := List.forall_mem_cons.mp hlength
      obtain ⟨hrowExists, hexist⟩ := List.forall_mem_cons.mp hexist
      obtain ⟨node, hnode⟩ := Option.isSome_iff_exists.mp hrowExists
      have hplaced := runRow_of_row hresolved hkeeps hnode occasion occasion index
      have hlater : ∀ later ∈ rest,
          (later.resolve? (table.runRow occasion index row document).document).isSome := by
        intro later hmem
        have hkept : later.resolve? (table.runRow occasion index row document).document =
            later.resolve? document := by
          rw [hplaced]
          exact Json.follow?_write_of_apart _ hrowExists (hrow later hmem)
        rw [hkept]
        exact hexist later hmem
      have hselected := ih hrest hlength hlater (index + 1)
      simp only [runRows]
      rw [hselected, hplaced]
      exact Path.select_write _ hrowLength hrowExists

/-- A second run leaves the document of the first one as it is, and tells the same about it. -/
theorem execute_execute {definition : Definition} {functions : Registry} {options : TableOptions}
    {document : Json} (haccepted : definition.compile functions options = .ok table)
    (hrepeatable : table.IsRepeatable) (hcanonical : document.Canonical)
    (occasion other : Occasion) :
    table.execute (table.execute document occasion).document other =
      table.execute document occasion := by
  obtain ⟨rfl, rfl, rfl, hresolved⟩ := Definition.compile_spec haccepted
  have hkeeps := hrepeatable.keepsToRows
  have hapart := Path.pairwise_apart_select hcanonical table.target .root
  have hlength : ∀ row ∈ table.target.select document .root,
      row.steps.length = table.target.segments.length := by
    intro row hrow
    obtain ⟨steps, hsteps, hcount, -⟩ := Path.mem_select_spec hcanonical hrow
    rw [hsteps, Path.base_root]
    exact hcount
  have hexist : ∀ row ∈ table.target.select document .root,
      (row.resolve? document).isSome := by
    intro row hrow
    obtain ⟨_, -, -, hexists⟩ := Path.mem_select_spec hcanonical hrow
    exact hexists
  have hrun := runRows_apart hresolved hkeeps occasion occasion hapart hexist 0
  have hselected := hkeeps.select_runRows hresolved hapart hlength hexist occasion 0
  have hprocessed : ∀ row ∈ table.target.select document .root, ∃ node,
      row.resolve? document = some node ∧
        row.resolve? (table.execute document occasion).document =
          some (table.runAlone occasion node).document := by
    intro row hrow
    obtain ⟨node, hnode⟩ := Option.isSome_iff_exists.mp (hexist row hrow)
    exact ⟨node, hnode, hrun.inside row hrow node hnode⟩
  have hagain := hrepeatable.runRows_of_processed hresolved occasion other hapart hprocessed 0
  unfold execute at hagain ⊢
  rw [hselected]
  exact hagain

/--
Of four rows one is matched, and the others take the defaults.  One write pads an array and one
makes an object of a null; the others are stopped by a text, a truth value and an array.
-/
def desks : Definition :=
  { path := "$.desks[*]"
    inputs := [⟨"owner", "@.owner.name", none⟩, ⟨"floor", "floor", none⟩]
    outputs := [⟨"tag", "@.tags[1].text"⟩, ⟨"state", "@.state.now"⟩]
    rules :=
      [⟨0, .ofPairs [("owner", .string "ann")],
        .ofPairs [("state", .string "taken"), ("tag", .string "hers")]⟩,
        ⟨1, .ofPairs [("floor", .string "top")], .ofPairs [("state", .string "quiet")]⟩]
    defaults := some (.ofPairs [("state", .string "free")])
    strategy := ⟨.allMatches, .lastWins, false⟩ }

def desksTable : Table :=
  let owner : Input := ⟨"owner", .ok ⟨"@.owner.name", .row, [.key "owner", .key "name"]⟩, none⟩
  let floor : Input := ⟨"floor", Path.parse "floor", none⟩
  let tag : Output := ⟨"tag", ⟨"@.tags[1].text", .row, [.key "tags", .index 1, .key "text"]⟩⟩
  let state : Output := ⟨"state", ⟨"@.state.now", .row, [.key "state", .key "now"]⟩⟩
  let is := fun (input : Input) (text : String) =>
    (⟨input, .expression [[.test .equal (.text text)]]⟩ : Condition)
  { definition := desks
    target := ⟨desks.path, .document, [.key "desks", .wildcard]⟩
    inputs := [owner, floor]
    outputs := [tag, state]
    rules := [⟨0, 0, [is owner "ann"],
        [(tag, .fixed (.string "hers")), (state, .fixed (.string "taken"))]⟩,
      ⟨1, 1, [is floor "top"], [(state, .fixed (.string "quiet"))]⟩]
    defaults := some [(state, .fixed (.string "free"))]
    options := {}
    functions := .empty }

def desksDocument : Json :=
  .object [("desks", .array [.object [("owner", .object [("name", .string "ann")]),
    ("state", .string "dusty")], .null, .bool true, .object [("state", .array [])]])]

theorem execute_execute_desks :
    desks.compile .empty {} = .ok desksTable ∧ desksTable.IsRepeatable ∧
      desksTable.execute (desksTable.execute desksDocument).document [1] =
        desksTable.execute desksDocument := by
  have haccepted : desks.compile .empty {} = .ok desksTable := by cbv
  have hunreadable : ∀ path, Path.parse "floor" ≠ .ok path := by
    intro path hread
    have hfails : (Path.parse "floor").isOk = false := by cbv
    simp [hread, Except.isOk, Except.toBool] at hfails
  have hrepeatable : desksTable.IsRepeatable := by
    constructor
    case results =>
      simp only [HasFixedResults, desksTable, List.forall_mem_cons, List.not_mem_nil]
      simp
    case defaults => simp [desksTable]
    case outputs => constructor <;> simp [desksTable, Path.firstKey?]
    case inputs => simp [desksTable, Path.firstKey?, hunreadable]
  have hcanonical : desksDocument.Canonical := by
    have hordered : "owner" < "state" := by decide
    simpa [desksDocument, Json.Canonical, Json.CanonicalItems, Json.CanonicalMembers,
      Entries.Sorted] using hordered
  exact ⟨haccepted, hrepeatable, execute_execute haccepted hrepeatable hcanonical [] [1]⟩

end DecisionTables.Table
