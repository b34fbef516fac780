import DecisionTables.Proofs.Path.Writing
import DecisionTables.Proofs.Table.Computation
import DecisionTables.Proofs.Table.Positions
import DecisionTables.Proofs.Table.Refusal
import Mathlib

/-!
# Conflict resolution as application in turn

A row writes each output once, with the value that the policy picks for it.  Where every output has
a key of the row to itself, this is compared with writing all results of the contributing rules one
rule after another, in the order of evaluation if the last value wins and in the opposite order
under priority, where a result is skipped if its write fails.

Writing results in turn only keeps track of the result last written for each output.  A further
result moves back over the writes for other outputs and takes the place of the one written for its
own, so by induction any sequence of results comes to one write for each output.  This holds of
writes that are skipped where they fail as well, since results for other outputs neither make a
write fail nor keep it from failing.

What is left is to compare the one write for each output with the same write skipped.  The two agree
unless the write breaks off: then the row keeps what has been made on the way.
-/

namespace DecisionTables

/-- The value of a fixed result.  Null stands in for a value that is computed. -/
def ResultValue.literal : ResultValue → Json
  | fixed value => value
  | computed _ _ => .null

namespace Table

variable {table : Table} {outputs : List Output} {row : Location}

/-- Every output is written below a key of the row that no other output is written below. -/
structure HaveOwnKeys (outputs : List Output) : Prop where
  relative : ∀ output ∈ outputs, output.path.root = .row
  keyed : ∀ output ∈ outputs, output.path.firstKey?.isSome
  distinct : (outputs.map fun output => output.path.firstKey?).Nodup

/-- The document after a result is written, as far as it can be. -/
def writeResult (row : Location) (document : Json) (result : Output × ResultValue) : Json :=
  (result.1.path.write row result.2.literal document).1

/-- The document after a result is written, or as it was before if the write fails. -/
def writeOrSkip (row : Location) (document : Json) (result : Output × ResultValue) : Json :=
  let (written, error) := result.1.path.write row result.2.literal document
  if error.isNone then written else document

/-- Writes the results of all sets in turn, and skips those whose write fails. -/
def applyInTurn (row : Location) (sets : List ResultSet) (document : Json) : Json :=
  sets.foldl (fun document results => results.foldl (writeOrSkip row) document) document

section Writing

variable {output : Output} {result : ResultValue} {document : Json}

theorem writeOrSkip_of_arrived
    (harrived : (output.path.write row result.literal document).2 = none) :
    writeOrSkip row document (output, result) = writeResult row document (output, result) := by
  simp [writeOrSkip, writeResult, harrived]

theorem writeOrSkip_of_failed {error : PathError}
    (hfails : (output.path.write row result.literal document).2 = some error) :
    writeOrSkip row document (output, result) = document := by
  simp [writeOrSkip, hfails]

theorem writeResult_eq_writeOrSkip_iff :
    writeResult row document (output, result) = writeOrSkip row document (output, result) ↔
      ¬ output.path.BreaksOff row document := by
  rw [Path.breaksOff_iff result.literal]
  cases herror : (output.path.write row result.literal document).2 with
  | none => simp [writeOrSkip_of_arrived herror]
  | some error => simp [writeOrSkip_of_failed herror, writeResult]

end Writing

/--
A way to write results in which a further result takes the place of the one written before for its
output, and results for different outputs can change places.
-/
structure IsReplacing (outputs : List Output) (write : Json → Output × ResultValue → Json) :
    Prop where
  replace : ∀ document output first second,
    write (write document (output, first)) (output, second) = write document (output, second)
  swap : ∀ output ∈ outputs, ∀ other ∈ outputs, output ≠ other → ∀ result otherResult document,
    write (write document (other, otherResult)) (output, result) =
      write (write document (output, result)) (other, otherResult)

namespace HaveOwnKeys

variable {output other : Output} {document : Json}

theorem exists_keys (hkeys : HaveOwnKeys outputs) (houtput : output ∈ outputs)
    (hother : other ∈ outputs) (hne : output ≠ other) :
    ∃ name otherName, output.path.firstKey? = some name ∧
      other.path.firstKey? = some otherName ∧ name ≠ otherName := by
  obtain ⟨name, hname⟩ := Option.isSome_iff_exists.mp (hkeys.keyed output houtput)
  obtain ⟨otherName, hotherName⟩ := Option.isSome_iff_exists.mp (hkeys.keyed other hother)
  refine ⟨name, otherName, hname, hotherName, ?_⟩
  rintro rfl
  exact hne (List.inj_on_of_nodup_map hkeys.distinct houtput hother
    (hname.trans hotherName.symm))

theorem write_comm (hkeys : HaveOwnKeys outputs) (houtput : output ∈ outputs)
    (hother : other ∈ outputs) (hne : output ≠ other) (row : Location)
    (value otherValue document : Json) :
    output.path.write row value (other.path.write row otherValue document).1 =
      ((other.path.write row otherValue (output.path.write row value document).1).1,
        (output.path.write row value document).2) := by
  obtain ⟨name, otherName, hname, hotherName, hkey⟩ := hkeys.exists_keys houtput hother hne
  exact Path.write_comm (hkeys.relative output houtput) (hkeys.relative other hother) hname
    hotherName hkey row value otherValue document

theorem isReplacing_writeResult (hkeys : HaveOwnKeys outputs) :
    IsReplacing outputs (writeResult row) where
  replace document output first second :=
    congrArg Prod.fst (Path.write_write output.path row first.literal second.literal document)
  swap _ houtput _ hother hne result otherResult document :=
    (Prod.ext_iff.mp (hkeys.write_comm houtput hother hne row result.literal otherResult.literal
      document)).1

/-- A result for another output does not make a write fail, nor does it keep one from failing. -/
theorem error_writeOrSkip (hkeys : HaveOwnKeys outputs) (houtput : output ∈ outputs)
    (hother : other ∈ outputs) (hne : output ≠ other) (otherResult : ResultValue) (value : Json) :
    (output.path.write row value (writeOrSkip row document (other, otherResult))).2 =
      (output.path.write row value document).2 := by
  cases herror : (other.path.write row otherResult.literal document).2 with
  | some error => rw [writeOrSkip_of_failed herror]
  | none =>
      rw [writeOrSkip_of_arrived herror, writeResult, hkeys.write_comm houtput hother hne]

theorem breaksOff_writeOrSkip_iff (hkeys : HaveOwnKeys outputs) (houtput : output ∈ outputs)
    (hother : other ∈ outputs) (hne : output ≠ other) (otherResult : ResultValue) :
    output.path.BreaksOff row (writeOrSkip row document (other, otherResult)) ↔
      output.path.BreaksOff row document := by
  rw [Path.BreaksOff, hkeys.error_writeOrSkip houtput hother hne]
  refine and_congr_right fun _ => not_congr ?_
  cases herror : (other.path.write row otherResult.literal document).2 with
  | some error => rw [writeOrSkip_of_failed herror]
  | none =>
      obtain ⟨name, otherName, hname, hotherName, hkey⟩ := hkeys.exists_keys houtput hother hne
      rw [writeOrSkip_of_arrived herror]
      exact Path.isRefused_write_iff (hkeys.relative output houtput)
        (hkeys.relative other hother) hname hotherName hkey herror

theorem isReplacing_writeOrSkip (hkeys : HaveOwnKeys outputs) :
    IsReplacing outputs (writeOrSkip row) where
  replace document output first second := by
    have hsame := Path.write_error_eq output.path row first.literal second.literal document
    have hagain := congrArg Prod.snd
      (Path.write_write output.path row first.literal second.literal document)
    cases herror : (output.path.write row first.literal document).2 with
    | some error => rw [writeOrSkip_of_failed herror]
    | none =>
        have hwrite : IsReplacing outputs (writeResult row) := hkeys.isReplacing_writeResult
        have hreplaced := hwrite.replace document output first second
        rw [writeOrSkip_of_arrived herror, writeOrSkip_of_arrived (hsame.symm.trans herror),
          ← hreplaced]
        exact writeOrSkip_of_arrived (hagain.trans (hsame.symm.trans herror))
  swap output houtput other hother hne result otherResult document := by
    have hkept : (output.path.write row result.literal
        (writeOrSkip row document (other, otherResult))).2 =
          (output.path.write row result.literal document).2 :=
      hkeys.error_writeOrSkip houtput hother hne otherResult result.literal
    have hotherKept : (other.path.write row otherResult.literal
        (writeOrSkip row document (output, result))).2 =
          (other.path.write row otherResult.literal document).2 :=
      hkeys.error_writeOrSkip hother houtput hne.symm result otherResult.literal
    cases herror : (output.path.write row result.literal document).2 with
    | some error => rw [writeOrSkip_of_failed (hkept.trans herror), writeOrSkip_of_failed herror]
    | none =>
        cases hotherError : (other.path.write row otherResult.literal document).2 with
        | some error =>
            rw [writeOrSkip_of_failed hotherError,
              writeOrSkip_of_failed (hotherKept.trans hotherError)]
        | none =>
            rw [writeOrSkip_of_arrived (hkept.trans herror),
              writeOrSkip_of_arrived (hotherKept.trans hotherError),
              writeOrSkip_of_arrived herror, writeOrSkip_of_arrived hotherError]
            exact hkeys.isReplacing_writeResult.swap output houtput other hother hne result
              otherResult document

end HaveOwnKeys

/-! ## One write for each output -/

section

variable {write : Json → Output × ResultValue → Json}

/-- Writes the result that is chosen for an output, if there is one. -/
def writeChoice (write : Json → Output × ResultValue → Json)
    (chosen : Output → Option ResultValue) (document : Json) (output : Output) : Json :=
  (chosen output).elim document fun result => write document (output, result)

/-- What is chosen for the outputs after a further result. -/
def choose (chosen : Output → Option ResultValue) (result : Output × ResultValue) :
    Output → Option ResultValue :=
  Function.update chosen result.1 (some result.2)

theorem IsReplacing.write_foldl_of_notMem (hwrite : IsReplacing outputs write) {output : Output}
    (houtput : output ∈ outputs) (result : ResultValue) {rest : List Output}
    (hrest : rest ⊆ outputs) (hnew : output ∉ rest) (chosen : Output → Option ResultValue)
    (document : Json) :
    write (rest.foldl (writeChoice write chosen) document) (output, result) =
      rest.foldl (writeChoice write chosen) (write document (output, result)) := by
  induction rest generalizing document with
  | nil => rfl
  | cons head rest ih =>
      obtain ⟨hhead, hrest⟩ := List.cons_subset.mp hrest
      obtain ⟨hne, hnew⟩ := not_or.mp (List.mem_cons.not.mp hnew)
      simp only [List.foldl_cons, ih hrest hnew]
      cases hchosen : chosen head with
      | none => simp [writeChoice, hchosen]
      | some other =>
          simp only [writeChoice, hchosen, Option.elim_some,
            hwrite.swap output houtput head hhead hne]

theorem foldl_writeChoice_congr {rest : List Output} {chosen other : Output → Option ResultValue}
    (hsame : ∀ output ∈ rest, chosen output = other output) (document : Json) :
    rest.foldl (writeChoice write chosen) document =
      rest.foldl (writeChoice write other) document := by
  refine List.foldl_ext _ _ _ fun document output houtput => ?_
  simp only [writeChoice, hsame output houtput]

/-- A further result takes the place of what was chosen for its output. -/
theorem IsReplacing.write_foldl (hwrite : IsReplacing outputs write)
    (result : Output × ResultValue) {rest : List Output} (hsubset : rest ⊆ outputs)
    (hnodup : rest.Nodup) (hmem : result.1 ∈ rest) (chosen : Output → Option ResultValue)
    (document : Json) :
    write (rest.foldl (writeChoice write chosen) document) result =
      rest.foldl (writeChoice write (choose chosen result)) document := by
  induction rest generalizing document with
  | nil => simp at hmem
  | cons head rest ih =>
      obtain ⟨hhead, hrest⟩ := List.cons_subset.mp hsubset
      obtain ⟨hnew, hlater⟩ := List.nodup_cons.mp hnodup
      simp only [List.foldl_cons]
      by_cases h : result.1 = head
      -- The write moves back over those for the rest, up to the one for its own output.
      · subst h
        have hkept : ∀ output ∈ rest, chosen output = choose chosen result output := by
          intro output houtput
          have hne : output ≠ result.1 := fun heq => hnew (heq ▸ houtput)
          simp [choose, hne]
        have hwritten : write (writeChoice write chosen document result.1) result =
            writeChoice write (choose chosen result) document result.1 := by
          cases hchosen : chosen result.1 with
          | none => simp [writeChoice, choose, hchosen]
          | some other =>
              simpa [writeChoice, choose, hchosen] using
                hwrite.replace document result.1 other result.2
        rw [hwrite.write_foldl_of_notMem hhead result.2 hrest hnew, hwritten,
          foldl_writeChoice_congr hkept]
      · have hthere : result.1 ∈ rest := (List.mem_cons.mp hmem).resolve_left h
        have hkept : writeChoice write (choose chosen result) document head =
            writeChoice write chosen document head := by
          simp [writeChoice, choose, Ne.symm h]
        rw [ih hrest hlater hthere, hkept]

/-- Results written in turn come to one write for each output, of the result last chosen for it. -/
theorem IsReplacing.foldl_write (hwrite : IsReplacing outputs write) (hnodup : outputs.Nodup)
    {results : ResultSet} (hresults : ∀ result ∈ results, result.1 ∈ outputs)
    (chosen : Output → Option ResultValue) (document : Json) :
    results.foldl write (outputs.foldl (writeChoice write chosen) document) =
      outputs.foldl (writeChoice write (results.foldl choose chosen)) document := by
  induction results generalizing chosen with
  | nil => rfl
  | cons result rest ih =>
      obtain ⟨hresult, hrest⟩ := List.forall_mem_cons.mp hresults
      rw [List.foldl_cons, hwrite.write_foldl result (List.Subset.refl _) hnodup hresult,
        ih hrest, List.foldl_cons]

end

/-! ## Skipped writes -/

section

variable {rest : List Output} {chosen : Output → Option ResultValue}

theorem HaveOwnKeys.breaksOff_foldl_iff (hkeys : HaveOwnKeys outputs) {output : Output}
    (houtput : output ∈ outputs) (hrest : rest ⊆ outputs) (hnew : output ∉ rest)
    (document : Json) :
    output.path.BreaksOff row (rest.foldl (writeChoice (writeOrSkip row) chosen) document) ↔
      output.path.BreaksOff row document := by
  induction rest generalizing document with
  | nil => rfl
  | cons head rest ih =>
      obtain ⟨hhead, hrest⟩ := List.cons_subset.mp hrest
      obtain ⟨hne, hnew⟩ := not_or.mp (List.mem_cons.not.mp hnew)
      rw [List.foldl_cons, ih hrest hnew]
      cases hchosen : chosen head with
      | none => simp [writeChoice, hchosen]
      | some result =>
          simpa [writeChoice, hchosen] using
            hkeys.breaksOff_writeOrSkip_iff houtput hhead hne result

/--
One write for each output comes to the same document whether failing writes are skipped or stopped
where they fail, unless one of them breaks off.
-/
theorem HaveOwnKeys.foldl_writeResult_eq_iff (hkeys : HaveOwnKeys outputs)
    (hrest : rest ⊆ outputs) (hnodup : rest.Nodup) (document : Json) :
    rest.foldl (writeChoice (writeResult row) chosen) document =
        rest.foldl (writeChoice (writeOrSkip row) chosen) document ↔
      ∀ output ∈ rest, (chosen output).isSome → ¬ output.path.BreaksOff row document := by
  induction rest generalizing document with
  | nil => simp
  | cons head rest ih =>
      obtain ⟨hhead, hrest⟩ := List.cons_subset.mp hrest
      obtain ⟨hnew, hlater⟩ := List.nodup_cons.mp hnodup
      rw [List.forall_mem_cons, List.foldl_cons, List.foldl_cons]
      cases hchosen : chosen head with
      | none => simpa [writeChoice, hchosen] using ih hrest hlater document
      | some result =>
          simp only [writeChoice, hchosen, Option.elim_some, Option.isSome_some, true_implies]
          by_cases hbreaks : head.path.BreaksOff row document
          -- Written once more, the output would leave the skipping document as it is.
          · simp only [hbreaks, not_true_eq_false, false_and, iff_false]
            intro hsame
            have hskipped : writeOrSkip row document (head, result) = document := by
              obtain ⟨hfails, -⟩ := (Path.breaksOff_iff result.literal).mp hbreaks
              obtain ⟨error, herror⟩ := Option.isSome_iff_exists.mp hfails
              exact writeOrSkip_of_failed herror
            have hwrite : IsReplacing outputs (writeResult row) := hkeys.isReplacing_writeResult
            rw [hskipped, ← hwrite.write_foldl_of_notMem hhead result hrest hnew] at hsame
            have hagain := hwrite.replace
              (rest.foldl (writeChoice (writeResult row) chosen) document) head result result
            rw [hsame] at hagain
            have hstill : head.path.BreaksOff row
                (rest.foldl (writeChoice (writeOrSkip row) chosen) document) :=
              (hkeys.breaksOff_foldl_iff hhead hrest hnew document).mpr hbreaks
            exact ((Path.breaksOff_iff result.literal).mp hstill).2 hagain
          · rw [writeResult_eq_writeOrSkip_iff.mpr hbreaks, ih hrest hlater]
            simp only [hbreaks, not_false_eq_true, true_and]
            refine forall₂_congr fun output houtput => imp_congr_right fun _ => not_congr ?_
            have hne : output ≠ head := fun heq => hnew (heq ▸ houtput)
            exact hkeys.breaksOff_writeOrSkip_iff (hrest houtput) hhead hne result

end

/-! ## The result last chosen -/

theorem resultFor?_of_perm {results other : ResultSet} (hperm : results.Perm other)
    (hnodup : (other.map Prod.fst).Nodup) (output : Output) :
    results.resultFor? output = other.resultFor? output := by
  have hown : (results.map Prod.fst).Nodup := (hperm.map Prod.fst).nodup_iff.mpr hnodup
  ext result
  rw [resultFor?_eq_some_iff hown, resultFor?_eq_some_iff hnodup, hperm.mem_iff]

theorem foldl_choose_apply {results : ResultSet} (hnodup : (results.map Prod.fst).Nodup)
    (chosen : Output → Option ResultValue) (output : Output) :
    results.foldl choose chosen output = (results.resultFor? output).or (chosen output) := by
  induction results generalizing chosen with
  | nil => rfl
  | cons head rest ih =>
      obtain ⟨hnew, hnodup⟩ := List.nodup_cons.mp hnodup
      rw [List.foldl_cons, ih hnodup, resultFor?_cons]
      by_cases h : head.1 = output
      · have hlater : ResultSet.resultFor? rest output = none := by
          refine Option.eq_none_iff_forall_ne_some.mpr fun result hresult => hnew ?_
          exact h ▸ List.mem_map_of_mem (f := Prod.fst) (mem_of_resultFor? hresult)
        simp [h, hlater, choose]
      · simp [h, choose, Ne.symm h]

theorem foldl_foldl_choose_apply {sets : List ResultSet}
    (hnodup : ∀ results ∈ sets, (results.map Prod.fst).Nodup)
    (chosen : Output → Option ResultValue) (output : Output) :
    sets.foldl (fun chosen results => results.foldl choose chosen) chosen output =
      (sets.filterMap fun results => results.resultFor? output).getLast?.or (chosen output) := by
  induction sets generalizing chosen with
  | nil => rfl
  | cons results rest ih =>
      obtain ⟨hhead, hrest⟩ := List.forall_mem_cons.mp hnodup
      rw [List.foldl_cons, ih hrest, foldl_choose_apply hhead]
      cases hresult : results.resultFor? output with
      | none => simp [hresult]
      | some result =>
          cases hlast : (rest.filterMap fun results => results.resultFor? output).getLast? <;>
            simp [hresult, List.getLast?_cons, hlast]

/-- Sets of results applied in turn come to one write for each output, of its last result. -/
theorem HaveOwnKeys.applyInTurn_eq (hkeys : HaveOwnKeys outputs) {sets : List ResultSet}
    (hwithin : ∀ results ∈ sets, ∀ result ∈ results, result.1 ∈ outputs)
    (hnodup : ∀ results ∈ sets, (results.map Prod.fst).Nodup) (document : Json) :
    applyInTurn row sets document =
      outputs.foldl (writeChoice (writeOrSkip row) fun output =>
        (sets.filterMap fun results => results.resultFor? output).getLast?) document := by
  have hchosen : ∀ chosen,
      applyInTurn row sets (outputs.foldl (writeChoice (writeOrSkip row) chosen) document) =
        outputs.foldl (writeChoice (writeOrSkip row) (sets.foldl (fun chosen results =>
          results.foldl choose chosen) chosen)) document := by
    induction sets with
    | nil => exact fun _ => rfl
    | cons results rest ih =>
        intro chosen
        obtain ⟨hhead, hrest⟩ := List.forall_mem_cons.mp hwithin
        rw [applyInTurn, List.foldl_cons,
          hkeys.isReplacing_writeOrSkip.foldl_write hkeys.distinct.of_map hhead]
        exact ih hrest (List.forall_mem_cons.mp hnodup).2 _
  have hnone : ∀ rest : List Output,
      rest.foldl (writeChoice (writeOrSkip row) fun _ => none) document = document := by
    intro rest
    induction rest with
    | nil => rfl
    | cons _ rest ih => exact ih
  have hstart := hchosen fun _ => none
  rw [hnone] at hstart
  rw [hstart]
  refine foldl_writeChoice_congr (fun output _ => ?_) document
  rw [foldl_foldl_choose_apply hnodup, Option.or_none]

/-! ## What a row writes -/

theorem document_writeAll {chosen : Output → Option ResultValue} {rest : List Output}
    (hfixed : ∀ output ∈ rest, ∀ result, chosen output = some result →
      ∃ value, result = .fixed value)
    (context : Context) (position : Nat) (document : Json) :
    (writeAll row (table.computeAll context position (rest.filterMap fun output =>
      (chosen output).map fun result => (output, Pick.one result))).1 document).document =
      rest.foldl (writeChoice (writeResult row) chosen) document := by
  induction rest generalizing position document with
  | nil => rfl
  | cons output rest ih =>
      obtain ⟨hhead, hrest⟩ := List.forall_mem_cons.mp hfixed
      cases hchosen : chosen output with
      | none => simpa [hchosen, writeChoice] using ih hrest position document
      | some result =>
          obtain ⟨value, rfl⟩ := hhead result hchosen
          have hvalue : ∀ place, (Pick.one (.fixed value)).evaluate table.functions
              table.options.mergeDedup (context.within place) = .ok value := fun _ => rfl
          rw [List.filterMap_cons_some (b := (output, Pick.one (.fixed value))) (by simp [hchosen])]
          simp only [computeAll, hvalue, writeAll_cons, Written.document_after, List.foldl_cons,
            writeChoice, hchosen, Option.elim_some, writeResult, ResultValue.literal]
          exact ih hrest (position + 1) _

/-- Where the policy picks what is chosen, a row comes to a write of each chosen result. -/
theorem document_picks {chosen : Output → Option ResultValue} {policy : ConflictPolicy}
    {sets : List ResultSet}
    (hpolicy : ∀ output, policy.pick? (sets.filterMap fun results => results.resultFor? output) =
      (chosen output).map .one)
    (hfixed : ∀ output ∈ outputs, ∀ result, chosen output = some result →
      ∃ value, result = .fixed value)
    (context : Context) (document : Json) :
    (writeAll row (table.computeAll context 0 (picks outputs policy sets)).1 document).document =
      outputs.foldl (writeChoice (writeResult row) chosen) document := by
  have hpicks : picks outputs policy sets = outputs.filterMap fun output =>
      (chosen output).map fun result => (output, Pick.one result) := by
    unfold picks
    refine List.filterMap_congr fun output _ => ?_
    rw [hpolicy, Option.map_map]
    rfl
  rw [hpicks]
  exact document_writeAll hfixed context 0 document

def HasFixedResults (table : Table) : Prop :=
  ∀ rule ∈ table.rules, ∀ result ∈ rule.results, ∃ value, result.2 = .fixed value

/-- The results of each rule, in some order. -/
def AreResultsOf (rules : List Rule) (sets : List ResultSet) : Prop :=
  List.Forall₂ (fun rule results => results.Perm rule.results) rules sets

theorem AreResultsOf.filterMap_resultFor? {rules : List Rule} {sets : List ResultSet}
    (hresults : AreResultsOf rules sets)
    (hnodup : ∀ rule ∈ rules, (rule.results.map Prod.fst).Nodup) (output : Output) :
    (sets.filterMap fun results => results.resultFor? output) =
      (rules.map Rule.results).filterMap fun results => results.resultFor? output := by
  induction hresults with
  | nil => rfl
  | @cons rule results rules sets hhead _ ih =>
      obtain ⟨hrule, hrest⟩ := List.forall_mem_cons.mp hnodup
      have hsame := resultFor?_of_perm hhead hrule output
      simp only [List.map_cons, List.filterMap_cons, hsame, ih hrest]

/-- The results of rules applied in turn are a write for each output, of the last rule's result. -/
theorem HaveOwnKeys.applyInTurn_of_rules (hkeys : HaveOwnKeys outputs) {rules : List Rule}
    {sets : List ResultSet} (hresults : AreResultsOf rules sets)
    (hordered : ∀ rule ∈ rules, (rule.results.map Prod.fst).Sublist outputs) (document : Json) :
    applyInTurn row sets document =
      outputs.foldl (writeChoice (writeOrSkip row) fun output =>
        ((rules.map Rule.results).filterMap fun results => results.resultFor? output).getLast?)
        document := by
  have hperm : ∀ results ∈ sets, ∃ rule ∈ rules, results.Perm rule.results :=
    fun _ hmem => exists_left_of_forall₂ hresults hmem
  have hwithin : ∀ results ∈ sets, ∀ result ∈ results, result.1 ∈ outputs := by
    intro results hmem result hresult
    obtain ⟨rule, hrule, hsame⟩ := hperm results hmem
    exact (hordered rule hrule).subset (List.mem_map_of_mem (hsame.mem_iff.mp hresult))
  have hrules : ∀ rule ∈ rules, (rule.results.map Prod.fst).Nodup := fun rule hrule =>
    (hordered rule hrule).nodup hkeys.distinct.of_map
  have hnodup : ∀ results ∈ sets, (results.map Prod.fst).Nodup := by
    intro results hmem
    obtain ⟨rule, hrule, hsame⟩ := hperm results hmem
    exact (hsame.map Prod.fst).nodup_iff.mpr (hrules rule hrule)
  rw [hkeys.applyInTurn_eq hwithin hnodup]
  simp only [hresults.filterMap_resultFor? hrules]

theorem resultFor?_isSome_iff {results : ResultSet} {output : Output} :
    (results.resultFor? output).isSome ↔ ∃ result ∈ results, result.1 = output := by
  simp [ResultSet.resultFor?]

/-- Writing the last result of each output is applying the rules in turn, if no write breaks off. -/
theorem HaveOwnKeys.foldl_last_eq_applyInTurn_iff (hkeys : HaveOwnKeys outputs)
    {rules : List Rule} {sets : List ResultSet} (hresults : AreResultsOf rules sets)
    (hordered : ∀ rule ∈ rules, (rule.results.map Prod.fst).Sublist outputs) (document : Json) :
    outputs.foldl (writeChoice (writeResult row) fun output =>
          ((rules.map Rule.results).filterMap fun results => results.resultFor? output).getLast?)
        document = applyInTurn row sets document ↔
      ∀ rule ∈ rules, ∀ result ∈ rule.results, ¬ result.1.path.BreaksOff row document := by
  rw [hkeys.applyInTurn_of_rules hresults hordered,
    hkeys.foldl_writeResult_eq_iff (List.Subset.refl _) hkeys.distinct.of_map]
  have hchosen : ∀ output,
      ((rules.map Rule.results).filterMap fun results =>
          results.resultFor? output).getLast?.isSome ↔
        ∃ rule ∈ rules, ∃ result ∈ rule.results, result.1 = output := by
    intro output
    rw [List.getLast?_isSome, Ne, List.filterMap_eq_nil_iff]
    simp [← Option.isSome_iff_ne_none, resultFor?_isSome_iff]
  constructor
  · intro hnone rule hrule result hresult
    have houtput := (hordered rule hrule).subset (List.mem_map_of_mem hresult)
    exact hnone result.1 houtput ((hchosen _).mpr ⟨rule, hrule, result, hresult, rfl⟩)
  · rintro hnone output - hsome
    obtain ⟨rule, hrule, result, hresult, rfl⟩ := (hchosen output).mp hsome
    exact hnone rule hrule result hresult

theorem select_rules_of_allMatches (hmode : table.strategy.mode = .allMatches)
    (hlenient : table.strategy.stopOnError = false) (extract : Input → Extracted) :
    (table.select extract).rules.Sublist table.rules ∧
      (∀ rule, rule ∈ (table.select extract).rules ↔
        rule ∈ table.rules ∧ rule.Matches extract table.options.criteria) ∧
      (table.select extract).aborted = false := by
  classical
  rw [select_of_ne_bestMatch (by simp [hmode])]
  have hmatching : ∀ rule : Rule, decide (rule.Matches extract table.options.criteria) = true ↔
      rule.verdict extract table.options.criteria = .matching := by
    simp [Rule.verdict_eq_matching_iff]
  rw [(scan_of_ne_firstMatch hlenient (by simp [hmode]) hmatching table.rules).1]
  exact ⟨List.filter_sublist, by simp, scan_aborted hlenient table.rules⟩

section Contributing

variable {occasion : Occasion} {index : Nat} {document : Json} {selection : Selection}

/-- A row that rules contribute to writes what the policy picks from their results. -/
theorem runRow_of_contributing
    (hselect : (table.select fun input => input.extract document row) = selection)
    (hcompleted : selection.aborted = false) (hcontributes : selection.rules ≠ []) :
    (table.runRow occasion index row document).report.outcome =
        .matched (selection.rules.map Rule.declaration) ∧
      (table.runRow occasion index row document).document =
        (writeAll row (table.computeAll ⟨document, row, index :: occasion⟩ 0
          (picks table.outputs table.definition.strategy.conflict
            (selection.rules.map Rule.results))).1 document).document := by
  have hcontributions : table.contributions selection.rules =
      (.matched (selection.rules.map Rule.declaration), selection.rules.map Rule.results) := by
    cases hrules : selection.rules with
    | nil => exact absurd hrules hcontributes
    | cons => rfl
  constructor <;> simp [runRow, hselect, hcompleted, hcontributions, strategy]

/-- If results are fixed, such a row comes to a write of each result that the policy picks. -/
theorem document_runRow_of_pick (hfixed : table.HasFixedResults)
    (hselect : (table.select fun input => input.extract document row) = selection)
    (hcompleted : selection.aborted = false) (hcontributes : selection.rules ≠ [])
    (hrules : selection.rules ⊆ table.rules) {policy : ConflictPolicy}
    (hconflict : table.definition.strategy.conflict = policy)
    {chosen : Output → Option ResultValue}
    (hpolicy : ∀ output, policy.pick? ((selection.rules.map Rule.results).filterMap
      fun results => results.resultFor? output) = (chosen output).map .one)
    (hchosen : ∀ output result, chosen output = some result →
      result ∈ (selection.rules.map Rule.results).filterMap
        fun results => results.resultFor? output) :
    (table.runRow occasion index row document).document =
      table.outputs.foldl (writeChoice (writeResult row) chosen) document := by
  rw [(runRow_of_contributing hselect hcompleted hcontributes).2, hconflict]
  refine document_picks hpolicy (fun output _ result hresult => ?_) _ _
  obtain ⟨results, hresults, hfor⟩ := List.mem_filterMap.mp (hchosen output result hresult)
  obtain ⟨rule, hrule, rfl⟩ := List.mem_map.mp hresults
  exact hfixed rule (hrules hrule) _ (mem_of_resultFor? hfor)

end Contributing

/--
Under either policy that picks single values, a row comes to the document that the contributing
rules give when their results are written in turn, in any order within a rule, and those are skipped
whose write fails, just where none of these writes breaks off.
-/
theorem runRow_applies_in_turn_iff {definition : Definition} {functions : Registry}
    {options : TableOptions} (haccepted : definition.compile functions options = .ok table)
    (hmode : definition.strategy.mode = .allMatches)
    (hlenient : definition.strategy.stopOnError = false) (hfixed : table.HasFixedResults)
    (hkeys : HaveOwnKeys table.outputs) (occasion : Occasion) (index : Nat) (row : Location)
    (document : Json)
    (hcontributes : ∃ rule ∈ table.rules,
      rule.Matches (fun input => input.extract document row) options.criteria) :
    ∃ contributing : List Rule,
      (∀ rule, rule ∈ contributing ↔ rule ∈ table.rules ∧
        rule.Matches (fun input => input.extract document row) options.criteria) ∧
      (contributing.map Rule.place).Pairwise EvaluatedBefore ∧
      (table.runRow occasion index row document).report.outcome =
        .matched (contributing.map Rule.declaration) ∧
      (definition.strategy.conflict = .lastWins → ∀ sets, AreResultsOf contributing sets →
        ((table.runRow occasion index row document).document = applyInTurn row sets document ↔
          ∀ rule ∈ contributing, ∀ result ∈ rule.results,
            ¬ result.1.path.BreaksOff row document)) ∧
      (definition.strategy.conflict = .priority → ∀ sets, AreResultsOf contributing.reverse sets →
        ((table.runRow occasion index row document).document = applyInTurn row sets document ↔
          ∀ rule ∈ contributing, ∀ result ∈ rule.results,
            ¬ result.1.path.BreaksOff row document)) := by
  obtain ⟨hordered, -⟩ := Definition.results_sublist_of_compile haccepted
  have hplaced := (Definition.isPlaced_of_compile haccepted).rules
  rw [map_place_indexed] at hplaced
  obtain ⟨rfl, -, rfl, -⟩ := Definition.compile_spec haccepted
  obtain ⟨hsublist, hmem, hcompleted⟩ :=
    select_rules_of_allMatches hmode hlenient fun input => input.extract document row
  generalize hselect : (table.select fun input => input.extract document row) = selection
    at hsublist hmem hcompleted
  have hsome : selection.rules ≠ [] := by
    obtain ⟨rule, hrule, hmatches⟩ := hcontributes
    exact List.ne_nil_of_mem ((hmem rule).mpr ⟨hrule, hmatches⟩)
  have hresults : ∀ rule ∈ selection.rules, (rule.results.map Prod.fst).Sublist table.outputs :=
    fun rule hrule => hordered rule (hsublist.subset hrule)
  refine ⟨selection.rules, hmem, hplaced.sublist (hsublist.map Rule.place),
    (runRow_of_contributing hselect hcompleted hsome).1, fun hpolicy sets hsets => ?_,
    fun hpolicy sets hsets => ?_⟩
  · rw [document_runRow_of_pick hfixed hselect hcompleted hsome hsublist.subset hpolicy
      (fun _ => pick?_lastWins _) fun _ _ hlast => List.mem_of_getLast? hlast]
    exact hkeys.foldl_last_eq_applyInTurn_iff hsets hresults document
  · have hreversed : ∀ rule ∈ selection.rules.reverse,
        (rule.results.map Prod.fst).Sublist table.outputs := fun rule hrule =>
      hresults rule (List.mem_reverse.mp hrule)
    rw [document_runRow_of_pick hfixed hselect hcompleted hsome hsublist.subset hpolicy
      (fun _ => pick?_priority _) fun _ _ hfirst => List.mem_of_head? hfirst]
    simpa only [List.map_reverse, List.filterMap_reverse, List.getLast?_reverse,
      List.mem_reverse] using hkeys.foldl_last_eq_applyInTurn_iff hsets hreversed document

/-- Two rules apply to a bug: both set the level, and the note of one of them is blocked. -/
def tickets : Definition :=
  { path := "$.tickets[*]"
    inputs := [⟨"kind", "@.kind", none⟩]
    outputs := [⟨"team", "@.team.name"⟩, ⟨"level", "@.level"⟩, ⟨"note", "@.note.text"⟩]
    rules :=
      [⟨2, .ofPairs [("kind", .string "bug")],
        .ofPairs [("level", .string "high"), ("team", .string "core")]⟩,
        ⟨1, .empty, .ofPairs [("level", .string "low"), ("note", .string "seen")]⟩,
        ⟨0, .ofPairs [("kind", .string "wish")], .ofPairs [("level", .string "none")]⟩]
    defaults := none
    strategy := ⟨.allMatches, .lastWins, false⟩ }

def ticketOutputs : List Output :=
  [⟨"team", ⟨"@.team.name", .row, [.key "team", .key "name"]⟩⟩,
    ⟨"level", ⟨"@.level", .row, [.key "level"]⟩⟩,
    ⟨"note", ⟨"@.note.text", .row, [.key "note", .key "text"]⟩⟩]

def ticketsTable : Table :=
  let kind : Input := ⟨"kind", .ok ⟨"@.kind", .row, [.key "kind"]⟩, none⟩
  let is := fun text : String => (⟨kind, .expression [[.test .equal (.text text)]]⟩ : Condition)
  let team := ticketOutputs[0]
  let level := ticketOutputs[1]
  let note := ticketOutputs[2]
  { definition := tickets
    target := ⟨tickets.path, .document, [.key "tickets", .wildcard]⟩
    inputs := [kind]
    outputs := ticketOutputs
    rules := [⟨2, 0, [is "wish"], [(level, .fixed (.string "none"))]⟩,
      ⟨1, 1, [], [(level, .fixed (.string "low")), (note, .fixed (.string "seen"))]⟩,
      ⟨0, 2, [is "bug"], [(team, .fixed (.string "core")), (level, .fixed (.string "high"))]⟩]
    defaults := none
    options := {}
    functions := .empty }

/-- A ticket with the given members. -/
def ticketDocument (members : List (String × Json)) : Json :=
  .object [("tickets", .array [.object members])]

def ticketsDocument : Json :=
  ticketDocument [("kind", .string "bug"), ("note", .string "busy")]

def firstTicket : Location :=
  ⟨[.key "tickets", .index 0]⟩

/-- The note is refused by the text that is there, and all else is written as in turn. -/
theorem runRow_applies_in_turn_to_bug :
    tickets.compile .empty {} = .ok ticketsTable ∧
      (ticketOutputs[2].path.write firstTicket (.string "seen") ticketsDocument).2 =
        some (.unwritable "@.note.text" (.notAnObject "text" "string")) ∧
      applyInTurn firstTicket
          [ticketsTable.rules[1].results, ticketsTable.rules[2].results.reverse] ticketsDocument =
        ticketDocument [("kind", .string "bug"), ("level", .string "high"),
          ("note", .string "busy"), ("team", .object [("name", .string "core")])] ∧
      (ticketsTable.runRow [] 0 firstTicket ticketsDocument).document =
        applyInTurn firstTicket
          [ticketsTable.rules[1].results, ticketsTable.rules[2].results.reverse]
          ticketsDocument := by
  have haccepted : tickets.compile .empty {} = .ok ticketsTable := by cbv
  have hfixed : ticketsTable.HasFixedResults := by
    simp only [HasFixedResults, ticketsTable, List.forall_mem_cons, List.not_mem_nil]
    simp
  have hkeys : HaveOwnKeys ticketsTable.outputs := by
    constructor <;> simp [ticketsTable, ticketOutputs, Path.firstKey?]
  have hcontributes : ∃ rule ∈ ticketsTable.rules, rule.Matches
      (fun input => input.extract ticketsDocument firstTicket) {} :=
    ⟨ticketsTable.rules[1], by simp [ticketsTable], by simp [Rule.Matches, ticketsTable]⟩
  obtain ⟨contributing, hmem, -, houtcome, hlast, -⟩ := runRow_applies_in_turn_iff haccepted rfl
    rfl hfixed hkeys [] 0 firstTicket ticketsDocument hcontributes
  have hdeclarations : contributing.map Rule.declaration = [1, 0] := by
    have hrules : Outcome.matched [1, 0] = .matched (contributing.map Rule.declaration) := by
      rw [← houtcome]
      cbv
    exact (Outcome.matched.inj hrules).symm
  have hfirst : ∀ rule ∈ ticketsTable.rules, rule.declaration = 1 →
      rule = ticketsTable.rules[1] := by
    simp [ticketsTable]
  have hsecond : ∀ rule ∈ ticketsTable.rules, rule.declaration = 0 →
      rule = ticketsTable.rules[2] := by
    simp [ticketsTable]
  obtain ⟨first, rest, rfl, hone, hrest⟩ := List.map_eq_cons_iff.mp hdeclarations
  obtain ⟨second, rest, rfl, hzero, hnil⟩ := List.map_eq_cons_iff.mp hrest
  obtain rfl := List.map_eq_nil_iff.mp hnil
  obtain rfl := hfirst first ((hmem first).mp (by simp)).1 hone
  obtain rfl := hsecond second ((hmem second).mp (by simp)).1 hzero
  have hteam : ¬ ticketOutputs[0].path.BreaksOff firstTicket ticketsDocument :=
    fun hbreaks => absurd hbreaks.1 (by decide)
  have hlevel : ¬ ticketOutputs[1].path.BreaksOff firstTicket ticketsDocument :=
    fun hbreaks => absurd hbreaks.1 (by decide)
  have hnote : ¬ ticketOutputs[2].path.BreaksOff firstTicket ticketsDocument :=
    fun hbreaks => ((Path.breaksOff_iff .null).mp hbreaks).2 (by cbv)
  have houtputs : ∀ output ∈ [ticketOutputs[0], ticketOutputs[1], ticketOutputs[2]],
      ¬ output.path.BreaksOff firstTicket ticketsDocument := by
    simp [hteam, hlevel, hnote]
  refine ⟨haccepted, by cbv, by cbv, ?_⟩
  refine (hlast rfl _ (.cons (.refl _) (.cons (List.reverse_perm _) .nil))).mpr ?_
  intro rule hrule result hresult
  have hordered := (Definition.results_sublist_of_compile haccepted).1 rule ((hmem rule).mp hrule).1
  exact houtputs result.1 (hordered.subset (List.mem_map_of_mem hresult))

/-- The bins once more, where every matching rule contributes and the last value wins. -/
def lastBins : Definition :=
  { bins with strategy := ⟨.allMatches, .lastWins, false⟩ }

def lastBinsTable : Table :=
  { binsTable with definition := lastBins }

/-- Where the slots are missing, the failed write leaves a null that skipping it does not leave. -/
theorem runRow_leaves_null_for_skipped :
    lastBins.compile .empty {} = .ok lastBinsTable ∧ lastBinsTable.HasFixedResults ∧
      HaveOwnKeys lastBinsTable.outputs ∧
      (∀ rule ∈ lastBinsTable.rules,
        rule.Matches (fun input => input.extract (binDocument []) firstBin) {}) ∧
      AreResultsOf lastBinsTable.rules (lastBinsTable.rules.map Rule.results) ∧
      (lastBinsTable.runRow [] 0 firstBin (binDocument [])).document =
        binDocument [("seen", .bool true), ("slots", .null)] ∧
      applyInTurn firstBin (lastBinsTable.rules.map Rule.results) (binDocument []) =
        binDocument [("seen", .bool true)] ∧
      (lastBinsTable.runRow [] 0 firstBin (binDocument [])).document ≠
        applyInTurn firstBin (lastBinsTable.rules.map Rule.results) (binDocument []) := by
  have hrun : (lastBinsTable.runRow [] 0 firstBin (binDocument [])).document =
      binDocument [("seen", .bool true), ("slots", .null)] := by cbv
  have hinTurn : applyInTurn firstBin (lastBinsTable.rules.map Rule.results) (binDocument []) =
      binDocument [("seen", .bool true)] := by cbv
  refine ⟨by cbv, ?_, ?_, ?_, .cons (.refl _) .nil, hrun, hinTurn, ?_⟩
  · simp only [HasFixedResults, lastBinsTable, binsTable, List.forall_mem_cons, List.not_mem_nil]
    simp
  · constructor <;> simp [lastBinsTable, binsTable, slotOutput, seenOutput, Path.firstKey?]
  · simp [lastBinsTable, binsTable, Rule.Matches]
  · rw [hrun, hinTurn]
    simp [binDocument]

end Table

end DecisionTables
