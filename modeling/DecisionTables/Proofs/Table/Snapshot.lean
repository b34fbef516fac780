import DecisionTables.Proofs.Path.Selection
import DecisionTables.Proofs.Path.Writing
import DecisionTables.Proofs.Table.Acceptance
import DecisionTables.Proofs.Table.Frame
import Mathlib

/-!
# What a row has written

The values for a row are all computed in the document that the row finds, and only then written one
after the other.  A write that arrives puts its value at its target, and where the targets of the
outputs are apart from one another, the writes after it keep the node there, also those that fail on
their way.  So every output that a row tells as written has in the end the value that was chosen for
it, computed as if there were no other output.
-/

namespace DecisionTables.Table

variable {table : Table} {row : Location}

/-- Where the outputs are written to for one row. -/
def targetsIn (row : Location) (outputs : List Output) : List Location :=
  outputs.filterMap fun output => output.path.target? row

/-- Every output is written to at a target of its own, apart from those of the others. -/
def HasTargetsApart (row : Location) (outputs : List Output) : Prop :=
  (targetsIn row outputs).Pairwise fun first second => Step.Apart first.steps second.steps

theorem hasTargetsApart_cons {output : Output} {rest : List Output} :
    HasTargetsApart row (output :: rest) ↔
      (∀ target, output.path.target? row = some target → IsApartFrom target row rest) ∧
        HasTargetsApart row rest := by
  simp only [HasTargetsApart, targetsIn, List.pairwise_filterMap, List.pairwise_cons, IsApartFrom]
  refine and_congr_left' ⟨fun hapart target htarget other hother location hlocation => ?_,
    fun hapart other hother target htarget location hlocation => ?_⟩
  · exact (hapart other hother target htarget location hlocation).symm
  · exact (hapart target htarget other hother location hlocation).symm

theorem HasTargetsApart.sublist {outputs kept : List Output}
    (hapart : HasTargetsApart row outputs) (hkept : kept.Sublist outputs) :
    HasTargetsApart row kept :=
  List.Pairwise.sublist (hkept.filterMap _) hapart

/-- What the conflict policy picks for an output in a row that finds the document. -/
def chosen? (table : Table) (row : Location) (document : Json) (output : Output) : Option Pick :=
  let selection := table.select fun input => input.extract document row
  table.strategy.conflict.pick?
    ((table.contributions selection.rules).2.filterMap fun set => set.resultFor? output)

theorem chosen?_of_mem_picksFor {document : Json} {output : Output} {pick : Pick}
    (hpick : (output, pick) ∈ table.picksFor
      (table.select fun input => input.extract document row).rules) :
    table.chosen? row document output = some pick := by
  obtain ⟨other, -, hpicked⟩ := List.mem_filterMap.mp hpick
  obtain ⟨found, hfound, heq⟩ := Option.map_eq_some_iff.mp hpicked
  cases heq
  exact hfound

/-! ## Values -/

/-- The values for a row are computed from the document that the row finds. -/
theorem exists_of_mem_valuesFor (hfunctions : table.functions.IgnoresOccasions)
    {occasion : Occasion} {index : Nat} {document : Json} {entry : Output × Json}
    (hentry : entry ∈ table.valuesFor occasion index row document) :
    ∃ pick, table.chosen? row document entry.1 = some pick ∧
      ∀ other, pick.evaluate table.functions table.options.mergeDedup ⟨document, row, other⟩ =
        .ok entry.2 := by
  simp only [valuesFor] at hentry
  split at hentry
  · simp at hentry
  · obtain ⟨pick, place, hpick, hvalue⟩ := exists_of_mem_computeAll hentry
    refine ⟨pick, chosen?_of_mem_picksFor hpick, fun other => ?_⟩
    have hsame : Context.SeesSameDocument ⟨document, row, other⟩
        (Context.within ⟨document, row, index :: occasion⟩ place) := ⟨rfl, rfl⟩
    rw [Pick.evaluate_of_sameDocument hfunctions hsame, hvalue]

/-! ## Writes -/

/-- What is told as written is at its target when all writes are done. -/
theorem exists_of_mem_outputs_writeAll {values : List (Output × Json)}
    (hapart : HasTargetsApart row (values.map Prod.fst)) {document : Json}
    {name : String} (hname : name ∈ (writeAll row values document).outputs) :
    ∃ entry ∈ values, entry.1.name = name ∧ ∃ target, entry.1.path.target? row = some target ∧
      target.resolve? (writeAll row values document).document = some entry.2 := by
  induction values generalizing document with
  | nil => simp [writeAll] at hname
  | cons entry rest ih =>
      obtain ⟨hhead, hrest⟩ := hasTargetsApart_cons.mp hapart
      rw [writeAll_cons] at hname ⊢
      rw [Written.document_after]
      cases hfault : (entry.1.path.write row entry.2 document).2 with
      | none =>
          rw [hfault] at hname
          rcases List.mem_cons.mp hname with rfl | hlater
          · obtain ⟨target, htarget, harrived⟩ := Path.exists_target_of_arrived hfault
            have hkept := keptBy_writeAll (hhead target htarget)
              (entry.1.path.write row entry.2 document).1
            exact ⟨entry, List.mem_cons_self, rfl, target, htarget, hkept entry.2 harrived⟩
          · obtain ⟨found, hfound, htold⟩ := ih hrest hlater
            exact ⟨found, List.mem_cons_of_mem _ hfound, htold⟩
      | some error =>
          rw [hfault] at hname
          obtain ⟨found, hfound, htold⟩ := ih hrest hname
          exact ⟨found, List.mem_cons_of_mem _ hfound, htold⟩

/-! ## Rows -/

/--
After a row every output that is told as written selects one node, which is the value that was
chosen for it, computed in the document from before the row.
-/
theorem written_outputs_hold_chosen {definition : Definition} {functions : Registry}
    {options : TableOptions} (haccepted : definition.compile functions options = .ok table)
    (hfunctions : functions.IgnoresOccasions) (row : Location)
    (hapart : HasTargetsApart row table.outputs) (document : Json)
    (occasion : Occasion) (index : Nat) (output : Output) (houtput : output ∈ table.outputs)
    (hwritten : output.name ∈ (table.runRow occasion index row document).report.written) :
    ∃ pick value location, table.chosen? row document output = some pick ∧
      (∀ other, pick.evaluate functions options.mergeDedup ⟨document, row, other⟩ = .ok value) ∧
      output.path.target? row = some location ∧
      output.path.selectNodes (table.runRow occasion index row document).document row =
        [(location, value)] := by
  obtain ⟨-, rfl, rfl, hresolved⟩ := Definition.compile_spec haccepted
  obtain ⟨hdocument, htold⟩ := runRow_eq_writeAll table occasion index row document
  have hvalues := map_fst_valuesFor_sublist table occasion index row document
  rw [htold] at hwritten
  rw [hdocument]
  obtain ⟨entry, hentry, hname, target, htarget, hfound⟩ :=
    exists_of_mem_outputs_writeAll (hapart.sublist hvalues) hwritten
  -- Different outputs have different names, so the value is for this output.
  obtain rfl : entry.1 = output :=
    List.inj_on_of_nodup_map hresolved.outputNames
      (hvalues.subset (List.mem_map_of_mem hentry)) houtput hname
  obtain ⟨pick, hpick, hevaluates⟩ := exists_of_mem_valuesFor hfunctions hentry
  refine ⟨pick, entry.2, target, hpick, hevaluates, htarget, ?_⟩
  rw [Path.selectNodes_of_target? htarget, hfound]
  rfl

/-- The pay of before goes into a note, two outputs share an array, and one cannot be written. -/
def wages : Definition :=
  { path := "$.staff[*]"
    inputs := [⟨"grade", "@.grade", none⟩]
    outputs := [⟨"pay", "@.pay"⟩, ⟨"note", "@.slots[1]"⟩, ⟨"tags", "@.slots[0].tags"⟩,
      ⟨"level", "@.grade.level"⟩]
    rules :=
      [⟨0, .empty, .ofPairs [("pay", .string "12"), ("level", .string "top"),
          ("note", .string "#concat('was ', #valueof('@.pay'))"),
          ("tags", .array [.string "paid"])]⟩,
        ⟨1, .ofPairs [("grade", .string "senior")],
          .ofPairs [("tags", .array [.string "old"])]⟩]
    defaults := none
    strategy := ⟨.allMatches, .merge, false⟩ }

def wagesFunctions : Registry :=
  .steady

def wagesTable : Table :=
  wages.tableAt ⟨wages.path, .document, [.key "staff", .wildcard]⟩ wagesFunctions {}

def wagesDocument : Json :=
  .object [("staff", .array [.object [("grade", .string "senior"), ("pay", .string "10")]])]

def firstOfStaff : Location :=
  ⟨[.key "staff", .index 0]⟩

def noteOutput : Output :=
  ⟨"note", ⟨"@.slots[1]", .row, [.key "slots", .index 1]⟩⟩

/-- The note holds the pay from before the row, although the pay is written first. -/
theorem written_outputs_hold_wages :
    wages.compile wagesFunctions {} = .ok wagesTable ∧
      (wagesTable.runRow [] 0 firstOfStaff wagesDocument).report.written =
        ["pay", "note", "tags"] ∧
      ∃ pick, wagesTable.chosen? firstOfStaff wagesDocument noteOutput = some pick ∧
        (∀ other, pick.evaluate wagesFunctions false ⟨wagesDocument, firstOfStaff, other⟩ =
          .ok (.string "was 10")) ∧
        noteOutput.path.selectNodes
            (wagesTable.runRow [] 0 firstOfStaff wagesDocument).document firstOfStaff =
          [(⟨[.key "staff", .index 0, .key "slots", .index 1]⟩, .string "was 10")] := by
  have haccepted : wages.compile wagesFunctions {} = .ok wagesTable := by cbv
  have hfunctions : wagesFunctions.IgnoresOccasions := Registry.ignoresOccasions_steady
  have htargets : targetsIn firstOfStaff wagesTable.outputs =
      [⟨[.key "staff", .index 0, .key "pay"]⟩,
        ⟨[.key "staff", .index 0, .key "slots", .index 1]⟩,
        ⟨[.key "staff", .index 0, .key "slots", .index 0, .key "tags"]⟩,
        ⟨[.key "staff", .index 0, .key "grade", .key "level"]⟩] := by cbv
  have hapart : HasTargetsApart firstOfStaff wagesTable.outputs := by
    simp [HasTargetsApart, htargets, Step.Apart]
  have houtput : noteOutput ∈ wagesTable.outputs := by
    have houtputs : wagesTable.outputs[1]? = some noteOutput := by cbv
    exact List.mem_of_getElem? houtputs
  have hwritten : (wagesTable.runRow [] 0 firstOfStaff wagesDocument).report.written =
      ["pay", "note", "tags"] := by cbv
  have hafter : noteOutput.path.selectNodes
      (wagesTable.runRow [] 0 firstOfStaff wagesDocument).document firstOfStaff =
        [(⟨[.key "staff", .index 0, .key "slots", .index 1]⟩, .string "was 10")] := by cbv
  obtain ⟨pick, value, location, hpick, hvalue, -, hnodes⟩ :=
    written_outputs_hold_chosen haccepted hfunctions firstOfStaff hapart wagesDocument [] 0
      noteOutput houtput (by simp [hwritten, noteOutput])
  rw [hafter] at hnodes
  cases hnodes
  exact ⟨haccepted, hwritten, pick, hpick, hvalue, hafter⟩

end DecisionTables.Table
