import DecisionTables.Proofs.Json.Writing
import DecisionTables.Proofs.Table.Computation
import Mathlib

/-!
# What a run leaves alone

A row is written to at the targets of the outputs and nowhere else, and the steps on the way to a
target and the nodes below it are all that a write can change.  So a node that is there before a run
and apart from the targets of all outputs for all rows is there after the run, whichever writes
failed on the way and whatever became of the rows themselves.  A row for which nothing is applied
changes nothing at all.
-/

namespace DecisionTables

/-- A node at the location is kept by a step from one document to the next. -/
def Location.KeptBy (location : Location) (before after : Json) : Prop :=
  ∀ node, location.resolve? before = some node → location.resolve? after = some node

theorem Location.KeptBy.trans {location : Location} {first second third : Json}
    (hfirst : location.KeptBy first second) (hsecond : location.KeptBy second third) :
    location.KeptBy first third :=
  fun node hnode => hsecond node (hfirst node hnode)

namespace Table

variable {table : Table} {row location : Location}

/-- The location is apart from the targets of the outputs for a row. -/
def IsApartFrom (location row : Location) (outputs : List Output) : Prop :=
  ∀ output ∈ outputs, ∀ target, output.path.target? row = some target →
    Step.Apart target.steps location.steps

theorem keptBy_write {path : Path}
    (hapart : ∀ target, path.target? row = some target →
      Step.Apart target.steps location.steps) (value document : Json) :
    location.KeptBy document (path.write row value document).1 := by
  intro node hnode
  cases htarget : path.target? row with
  | none => simpa [Path.write, htarget] using hnode
  | some target =>
      simp only [Path.write, htarget]
      exact Json.follow?_write_of_follow? value hnode (hapart target htarget)

theorem keptBy_writeAll {values : List (Output × Json)}
    (hapart : IsApartFrom location row (values.map Prod.fst)) (document : Json) :
    location.KeptBy document (writeAll row values document).document := by
  induction values generalizing document with
  | nil => exact fun _ hnode => hnode
  | cons entry rest ih =>
      obtain ⟨hhead, hrest⟩ := List.forall_mem_cons.mp hapart
      rw [writeAll_cons, Written.document_after]
      exact (keptBy_write hhead entry.2 document).trans (ih hrest _)

/-- Processing a row keeps what is apart from the targets of its outputs. -/
theorem keptBy_runRow (hapart : IsApartFrom location row table.outputs) (occasion : Occasion)
    (index : Nat) (document : Json) :
    location.KeptBy document (table.runRow occasion index row document).document := by
  unfold runRow
  simp only
  split
  · exact fun _ hnode => hnode
  · apply keptBy_writeAll
    intro output houtput
    obtain ⟨entry, hentry, rfl⟩ := List.mem_map.mp houtput
    exact hapart _ (mem_outputs_of_computeAll hentry)

theorem keptBy_runRows {rows : List Location}
    (hapart : ∀ row ∈ rows, IsApartFrom location row table.outputs) (occasion : Occasion)
    (index : Nat) (document : Json) :
    location.KeptBy document (table.runRows occasion index rows document).document := by
  induction rows generalizing index document with
  | nil => exact fun _ hnode => hnode
  | cons row rest ih =>
      obtain ⟨hrow, hrest⟩ := List.forall_mem_cons.mp hapart
      exact (keptBy_runRow hrow occasion index document).trans (ih hrest _ _)

/-! ## Rows for which nothing is applied -/

theorem contributions_ne_aborted (table : Table) (rules : List Rule) :
    (table.contributions rules).1 ≠ .aborted := by
  unfold contributions
  split <;> simp

theorem outcome_eq_aborted_iff {occasion : Occasion} {index : Nat} {document : Json} :
    (table.runRow occasion index row document).report.outcome = .aborted ↔
      (table.select fun input => input.extract document row).aborted = true := by
  have happlied := contributions_ne_aborted table
    (table.select fun input => input.extract document row).rules
  unfold runRow
  by_cases haborted : (table.select fun input => input.extract document row).aborted
  · simp [haborted]
  · simpa [haborted] using happlied

theorem contributions_of_noMatch {rules : List Rule}
    (hnoMatch : (table.contributions rules).1 = .noMatch) :
    (table.contributions rules).2 = [] := by
  unfold contributions at hnoMatch ⊢
  split at hnoMatch <;> simp_all

theorem picks_nil (outputs : List Output) (policy : ConflictPolicy) :
    picks outputs policy [] = [] := by
  simp [picks, ConflictPolicy.pick?]

/-- A row that is given up, or that no rule matches and that has no defaults, is not written to. -/
theorem document_runRow {occasion : Occasion} {index : Nat} {document : Json}
    (houtcome : (table.runRow occasion index row document).report.outcome = .aborted ∨
      (table.runRow occasion index row document).report.outcome = .noMatch) :
    (table.runRow occasion index row document).document = document := by
  unfold runRow at houtcome ⊢
  simp only at houtcome ⊢
  split
  · rfl
  · rename_i hcompleted
    simp only [hcompleted] at houtcome
    have hnoMatch := houtcome.resolve_left (contributions_ne_aborted table _)
    simp [contributions_of_noMatch hnoMatch, picks_nil, computeAll, writeAll]

/-! ## Whole runs -/

/-- Where the outputs are written to for the rows that are selected in a document. -/
def targets (table : Table) (document : Json) : List Location :=
  (table.target.select document .root).flatMap fun row =>
    table.outputs.filterMap fun output => output.path.target? row

/--
A run changes only what is on the way to a target, at it or below it, and a row for which nothing is
applied does not even change that.
-/
theorem execute_changes_only_targets (table : Table) (document : Json) (occasion : Occasion) :
    (∀ location : Location, (location.resolve? document).isSome →
      (∀ target ∈ table.targets document, Step.Apart target.steps location.steps) →
      location.resolve? (table.execute document occasion).document =
        location.resolve? document) ∧
    ∀ (before : Json) (row : Location) (index : Nat),
      ((table.runRow occasion index row before).report.outcome = .aborted ∨
        (table.runRow occasion index row before).report.outcome = .noMatch) →
      (table.runRow occasion index row before).document = before := by
  refine ⟨fun location hthere hapart => ?_, fun _ _ _ => document_runRow⟩
  obtain ⟨node, hnode⟩ := Option.isSome_iff_exists.mp hthere
  have hrows : ∀ row ∈ table.target.select document .root,
      IsApartFrom location row table.outputs := by
    intro row hrow output houtput target htarget
    refine hapart target (List.mem_flatMap.mpr ⟨row, hrow, ?_⟩)
    exact List.mem_filterMap.mpr ⟨output, houtput, htarget⟩
  exact (keptBy_runRows hrows occasion 0 document node hnode).trans hnode.symm

/-- Of three rows one matches: its first output is put into a new array, its second is blocked. -/
def shelves : Definition :=
  { path := "$.shelves[*]"
    inputs := [⟨"stock", "@.stock", none⟩]
    outputs := [⟨"order", "@.orders[1].count"⟩, ⟨"total", "$.total.orders"⟩]
    rules := [⟨0, .ofPairs [("stock", .string "low")],
      .ofPairs [("order", .string "ten"), ("total", .string "one")]⟩]
    defaults := none
    strategy := .standard }

def shelvesTable : Table :=
  let stock : Input := ⟨"stock", .ok ⟨"@.stock", .row, [.key "stock"]⟩, none⟩
  let order : Output :=
    ⟨"order", ⟨"@.orders[1].count", .row, [.key "orders", .index 1, .key "count"]⟩⟩
  let total : Output := ⟨"total", ⟨"$.total.orders", .document, [.key "total", .key "orders"]⟩⟩
  { definition := shelves
    target := ⟨shelves.path, .document, [.key "shelves", .wildcard]⟩
    inputs := [stock]
    outputs := [order, total]
    rules := [⟨0, 0, [⟨stock, .expression [[.test .equal (.text "low")]]⟩],
      [(order, .fixed (.string "ten")), (total, .fixed (.string "one"))]⟩]
    defaults := none
    options := {}
    functions := KeyMap.empty }

def shelvesDocument : Json :=
  .object [("shelves", .array [.object [("label", .string "a"), ("stock", .string "low")],
    .object [("stock", .string "full")], .null]), ("total", .bool false)]

theorem execute_keeps_shelf_label :
    shelves.compile .empty = .ok shelvesTable ∧
      (⟨[.key "shelves", .index 0, .key "label"]⟩ : Location).resolve?
        (shelvesTable.execute shelvesDocument).document = some (.string "a") ∧
      (shelvesTable.runRow [] 1 ⟨[.key "shelves", .index 1]⟩ shelvesDocument).document =
        shelvesDocument := by
  have haccepted : shelves.compile .empty = .ok shelvesTable := by cbv
  have htargets : shelvesTable.targets shelvesDocument =
      [⟨[.key "shelves", .index 0, .key "orders", .index 1, .key "count"]⟩,
        ⟨[.key "total", .key "orders"]⟩,
        ⟨[.key "shelves", .index 1, .key "orders", .index 1, .key "count"]⟩,
        ⟨[.key "total", .key "orders"]⟩,
        ⟨[.key "shelves", .index 2, .key "orders", .index 1, .key "count"]⟩,
        ⟨[.key "total", .key "orders"]⟩] := by cbv
  have hrun := execute_changes_only_targets shelvesTable shelvesDocument []
  refine ⟨haccepted, ?_, hrun.2 _ _ _ (.inr (by cbv))⟩
  rw [hrun.1 _ (by cbv)]
  · cbv
  · simp [htargets, Step.Apart]

end Table

end DecisionTables
