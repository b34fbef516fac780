import DecisionTables.Proofs.Path.Writing
import DecisionTables.Proofs.Table.Acceptance
import DecisionTables.Proofs.Table.Computation
import Mathlib

/-!
# Outputs that are skipped

An output whose write fails is passed over.  The write leaves nothing behind just where a node that
was there before refused it, and then the row ends with the document that it would have ended with
had there been no value for the output.  Otherwise the write had begun to make what is missing on
the way to its target, and that stays: this happens with an index too far out below a node that was
missing or null, and with no other fault.
-/

namespace DecisionTables.Table

variable {table : Table} {row : Location}

/-- A write that is refused where the values before it have led to could as well be left out. -/
theorem document_writeAll_of_isRefused {before after : List (Output × Json)} {output : Output}
    {document : Json}
    (hrefused : output.path.IsRefused row (writeAll row before document).document) (value : Json) :
    (writeAll row (before ++ (output, value) :: after) document).document =
      (writeAll row (before ++ after) document).document := by
  rw [document_writeAll_append, document_writeAll_append, writeAll_cons, Written.document_after,
    hrefused.document_write]

/--
A failed write leaves the document as it was just where it was refused by what was there, which any
fault but an index too far out tells, and in a run the skipped output then makes no difference.
-/
theorem failed_write_keeps_document_iff (path : Path) (row : Location) (value document : Json)
    {error : PathError} (hfails : (path.write row value document).2 = some error) :
    ((path.write row value document).1 = document ↔ path.IsRefused row document) ∧
      ((∀ index, error ≠ .unwritable path.source (.beyondEnd index)) →
        path.IsRefused row document) ∧
      ∀ (table : Table) (occasion : Occasion) (index : Nat) (start : Json) (output : Output)
        (before after : List (Output × Json)), output.path = path →
        table.valuesFor occasion index row start = before ++ (output, value) :: after →
        (writeAll row before start).document = document → path.IsRefused row document →
        (table.runRow occasion index row start).document =
          (writeAll row (before ++ after) start).document := by
  refine ⟨Path.document_write_eq_self_iff hfails, Path.isRefused_of_error hfails, ?_⟩
  rintro table occasion index start output before after rfl hvalues rfl hrefused
  obtain ⟨hdocument, -⟩ := runRow_eq_writeAll table occasion index row start
  rw [hdocument, hvalues]
  exact document_writeAll_of_isRefused hrefused value

/-- A slot far out in every bin, and a mark. -/
def bins : Definition :=
  { path := "$.bins[*]"
    inputs := []
    outputs := [⟨"slot", "@.slots[1025]"⟩, ⟨"seen", "@.seen"⟩]
    rules := [⟨0, .empty, .ofPairs [("seen", .bool true), ("slot", .string "full")]⟩]
    defaults := none
    strategy := .standard }

def slotOutput : Output :=
  ⟨"slot", ⟨"@.slots[1025]", .row, [.key "slots", .index 1025]⟩⟩

def seenOutput : Output :=
  ⟨"seen", ⟨"@.seen", .row, [.key "seen"]⟩⟩

def binsTable : Table :=
  { definition := bins
    target := ⟨bins.path, .document, [.key "bins", .wildcard]⟩
    inputs := []
    outputs := [slotOutput, seenOutput]
    rules := [⟨0, 0, [],
      [(slotOutput, .fixed (.string "full")), (seenOutput, .fixed (.bool true))]⟩]
    defaults := none
    options := {}
    functions := .empty }

/-- A bin with the given members. -/
def binDocument (members : List (String × Json)) : Json :=
  .object [("bins", .array [.object members])]

def firstBin : Location :=
  ⟨[.key "bins", .index 0]⟩

/-- An array that is there refuses the slot, so the bin only gets its mark. -/
theorem failed_write_keeps_empty_slots :
    bins.compile .empty {} = .ok binsTable ∧
      (slotOutput.path.write firstBin (.string "full")
        (binDocument [("slots", .array [])])).2.isSome ∧
      (slotOutput.path.write firstBin (.string "full") (binDocument [("slots", .array [])])).1 =
        binDocument [("slots", .array [])] ∧
      (binsTable.runRow [] 0 firstBin (binDocument [("slots", .array [])])).document =
        binDocument [("seen", .bool true), ("slots", .array [])] := by
  have hfails : (slotOutput.path.write firstBin (.string "full")
      (binDocument [("slots", .array [])])).2 =
        some (.unwritable "@.slots[1025]" (.beyondEnd 1025)) := by cbv
  have hrefused : slotOutput.path.IsRefused firstBin (binDocument [("slots", .array [])]) := by
    intro target htarget
    obtain rfl : ⟨[.key "bins", .index 0, .key "slots", .index 1025]⟩ = target :=
      Option.some.inj htarget
    exact ⟨.beyondEnd 1025, [.key "bins", .index 0, .key "slots"], .index 1025, [], .array [],
      rfl, by cbv, by cbv⟩
  obtain ⟨hkept, -, hskipped⟩ := failed_write_keeps_document_iff slotOutput.path firstBin
    (.string "full") (binDocument [("slots", .array [])]) hfails
  refine ⟨by cbv, Option.isSome_of_eq_some hfails, hkept.mpr hrefused, ?_⟩
  rw [hskipped binsTable [] 0 (binDocument [("slots", .array [])]) slotOutput []
    [(seenOutput, .bool true)] rfl (by cbv) rfl hrefused]
  cbv

/-- Where the array is missing, the failed write leaves a null in its place. -/
theorem failed_write_leaves_null :
    bins.compile .empty {} = .ok binsTable ∧
      slotOutput.path.write firstBin (.string "full") (binDocument []) =
        (binDocument [("slots", .null)], some (.unwritable "@.slots[1025]" (.beyondEnd 1025))) ∧
      (binsTable.execute (binDocument [])).document =
        binDocument [("seen", .bool true), ("slots", .null)] ∧
      (binsTable.execute (binDocument [])).report.rows.map RowReport.written = [["seen"]] ∧
      ¬ ∀ (path : Path) (row : Location) (value document : Json),
        (path.write row value document).2.isSome →
          (path.write row value document).1 = document := by
  have hwrite : slotOutput.path.write firstBin (.string "full") (binDocument []) =
      (binDocument [("slots", .null)],
        some (.unwritable "@.slots[1025]" (.beyondEnd 1025))) := by cbv
  refine ⟨by cbv, hwrite, by cbv, by cbv, fun hkept => ?_⟩
  have hsame := hkept slotOutput.path firstBin (.string "full") (binDocument [])
    (by simp [hwrite])
  rw [hwrite] at hsame
  simp [binDocument] at hsame

end DecisionTables.Table
