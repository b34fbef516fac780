import DecisionTables.Blob.Storage
import DecisionTables.Proofs.Blob.Coder
import DecisionTables.Proofs.Entries
import DecisionTables.Proofs.Table.Acceptance
import Mathlib

/-!
# Storing a table and reading it back

A stored definition goes through three layers: its values become JSON text, the text and all that is
beside it become the bytes of a payload, and the payload is put behind a header that tells its
length and its digest.  Each layer gives back what it was given, so the definition that is read is
the one that was stored, and compiling it gives the stored table with the options of the reader.
-/

namespace DecisionTables

/-! ## Values as text -/

def RuleEntry.leaves (rule : RuleEntry) : List Json :=
  (rule.conditions.entries ++ rule.results.entries).map Prod.snd

/-- The criteria, results and default results of a definition. -/
def Definition.leaves (definition : Definition) : List Json :=
  definition.rules.flatMap RuleEntry.leaves ++
    (definition.defaults.toList.flatMap KeyMap.entries).map Prod.snd

namespace Blob

theorem mapM_map_eq_ok {α β ε : Type} {items : List α} {store : α → β}
    {restore : β → Except ε α} (hrestore : ∀ item ∈ items, restore (store item) = .ok item) :
    (items.map store).mapM restore = .ok items := by
  induction items with
  | nil => rfl
  | cons item items ih =>
      obtain ⟨hitem, hitems⟩ := List.forall_mem_cons.mp hrestore
      rw [List.map_cons, List.mapM_cons, hitem, ih hitems]
      rfl

theorem restoreMap_storeMap {map : KeyMap Json}
    (hleaves : ∀ entry ∈ map.entries, Json.read entry.2.text = .ok entry.2) :
    restoreMap (storeMap map) = .ok map := by
  unfold restoreMap storeMap
  rw [mapM_map_eq_ok]
  · exact congrArg Except.ok map.ofPairs_entries
  · intro entry hentry
    simp only [hleaves entry hentry]
    rfl

theorem restoreRule_storeRule {rule : RuleEntry}
    (hleaves : ∀ leaf ∈ rule.leaves, Json.read leaf.text = .ok leaf) :
    restoreRule (storeRule rule) = .ok rule := by
  have hconditions : restoreMap (storeMap rule.conditions) = .ok rule.conditions := by
    apply restoreMap_storeMap
    intro entry hentry
    exact hleaves entry.2 (List.mem_map_of_mem (List.mem_append_left _ hentry))
  have hresults : restoreMap (storeMap rule.results) = .ok rule.results := by
    apply restoreMap_storeMap
    intro entry hentry
    exact hleaves entry.2 (List.mem_map_of_mem (List.mem_append_right _ hentry))
  simp only [restoreRule, storeRule, hconditions, hresults]
  rfl

theorem Payload.definition_ofDefinition {definition : Definition}
    (hleaves : ∀ leaf ∈ definition.leaves, Json.read leaf.text = .ok leaf) :
    (Payload.ofDefinition definition).definition = .ok definition := by
  have hcounts : (Payload.ofDefinition definition).countFault? = none := by
    simp [countFault?, ofDefinition]
  have hrules : (definition.rules.map storeRule).mapM restoreRule = .ok definition.rules := by
    apply mapM_map_eq_ok
    intro rule hrule
    apply restoreRule_storeRule
    intro leaf hleaf
    exact hleaves leaf (List.mem_append_left _ (List.mem_flatMap.mpr ⟨rule, hrule, hleaf⟩))
  have hdefaults : (definition.defaults.map storeMap).mapM restoreMap =
      .ok definition.defaults := by
    cases hdefault : definition.defaults with
    | none => rfl
    | some defaults =>
        have hrestored : restoreMap (storeMap defaults) = .ok defaults := by
          apply restoreMap_storeMap
          intro entry hentry
          apply hleaves entry.2 (List.mem_append_right _ _)
          simpa [hdefault] using ⟨entry.1, hentry⟩
        rw [Option.map_some, Option.mapM_some, hrestored]
        rfl
  rw [Payload.definition, hcounts]
  simp only [ofDefinition, hrules, hdefaults]
  rfl

/-! ## Payloads as bytes -/

namespace Payload

open Coder

theorem storedMapCoder_lossless : storedMapCoder.Lossless :=
  (text_lossless.pair text_lossless).list

theorem inputCoder_lossless : inputCoder.Lossless := by
  have htype : (choice [InputType.number, .string, .boolean]).Lossless :=
    choice_lossless (fun type => by cases type <;> simp) (by decide)
  exact (text_lossless.pair (text_lossless.pair htype.option)).map fun _ => rfl

theorem outputCoder_lossless : outputCoder.Lossless :=
  (text_lossless.pair text_lossless).map fun _ => rfl

theorem ruleCoder_lossless : ruleCoder.Lossless :=
  (signed_lossless.pair (storedMapCoder_lossless.pair storedMapCoder_lossless)).map fun _ => rfl

theorem strategyCoder_lossless : strategyCoder.Lossless := by
  have hmode : (choice [MatchMode.firstMatch, .allMatches, .bestMatch]).Lossless :=
    choice_lossless (fun mode => by cases mode <;> simp) (by decide)
  have hconflict : (choice [ConflictPolicy.priority, .merge, .lastWins]).Lossless :=
    choice_lossless (fun conflict => by cases conflict <;> simp) (by decide)
  exact (hmode.pair (hconflict.pair truth_lossless)).map fun _ => rfl

theorem countsCoder_readsBack {counts : Counts} (hinputs : counts.inputs < 2 ^ 64)
    (houtputs : counts.outputs < 2 ^ 64) (hrules : counts.rules < 2 ^ 64) :
    countsCoder.ReadsBack counts := by
  have hnatural := (natural_readsBack hinputs).pair
    ((natural_readsBack houtputs).pair (natural_readsBack hrules))
  refine ReadsBack.map ?_ rfl
  exact hnatural

theorem length_le_write_list {α : Type} {coder : Coder α} (hcoder : coder.Lossless)
    (values : List α) : values.length ≤ (coder.list.write values).length := by
  have hvalues := hcoder.length_le_flatMap values
  simp only [Coder.list, List.length_append]
  omega

/-- A payload that tells its own counts is read back, since its bytes bound the counts. -/
theorem coder_readsBack {payload : Payload}
    (hcounts : payload.counts =
      ⟨payload.inputs.length, payload.outputs.length, payload.rules.length⟩)
    (hlength : (coder.write payload).length < 2 ^ 64) : coder.ReadsBack payload := by
  have hbody := text_lossless.pair (inputCoder_lossless.list.pair (outputCoder_lossless.list.pair
    (ruleCoder_lossless.list.pair (storedMapCoder_lossless.option.pair strategyCoder_lossless))))
  have hinputs := length_le_write_list inputCoder_lossless payload.inputs
  have houtputs := length_le_write_list outputCoder_lossless payload.outputs
  have hrules := length_le_write_list ruleCoder_lossless payload.rules
  simp only [coder, Coder.map, Coder.pair, List.length_append] at hlength
  have hcountsReads : countsCoder.ReadsBack payload.counts := by
    rw [hcounts]
    apply countsCoder_readsBack <;> dsimp only <;> omega
  have hbodyReads := hbody.readsBack (payload.path, payload.inputs, payload.outputs,
    payload.rules, payload.defaults, payload.strategy) (by
      simp only [Coder.pair, List.length_append]
      omega)
  refine ReadsBack.map ?_ rfl
  exact hcountsReads.pair hbodyReads

end Payload

/-! ## Headers -/

theorem length_digest (bytes : List UInt8) : (digest bytes).length = 16 := by
  simp [digest, length_littleEndian]

namespace Header

theorem length_write {header : Header} (hdigest : header.digest.length = 16) :
    header.write.length = headerLength := by
  simp [write, mark, length_littleEndian, hdigest, headerLength]

theorem read_write_append {header : Header} (hdigest : header.digest.length = 16)
    (hformat : header.formatVersion < 2 ^ 16) (hengine : header.engineVersion < 2 ^ 16)
    (hflags : header.flags < 2 ^ 32) (hpayload : header.payloadLength < 2 ^ 32)
    (rest : List UInt8) : read (header.write ++ rest) = header := by
  have hformatField : field (header.write ++ rest) 4 2 =
      ofLittleEndian (littleEndian 2 header.formatVersion) := rfl
  have hengineField : field (header.write ++ rest) 6 2 =
      ofLittleEndian (littleEndian 2 header.engineVersion) := rfl
  have hflagsField : field (header.write ++ rest) 8 4 =
      ofLittleEndian (littleEndian 4 header.flags) := rfl
  have hpayloadField : field (header.write ++ rest) 12 4 =
      ofLittleEndian (littleEndian 4 header.payloadLength) := rfl
  have hdigestField : ((header.write ++ rest).drop 16).take 16 = header.digest := by
    have hdrop : (header.write ++ rest).drop 16 = header.digest ++ rest := rfl
    rw [hdrop]
    exact List.take_left' hdigest
  rw [read, hformatField, hengineField, hflagsField, hpayloadField, hdigestField,
    ofLittleEndian_littleEndian hformat, ofLittleEndian_littleEndian hengine,
    ofLittleEndian_littleEndian hflags, ofLittleEndian_littleEndian hpayload]

end Header

/-- What the checks make of any bytes that stand behind the header of a payload. -/
theorem payload_ofPayload_append {bytes : List UInt8} (hlength : bytes.length < 2 ^ 32)
    (rest : List UInt8) :
    payload ((Header.ofPayload bytes).write ++ rest) =
      if rest.length < bytes.length then .error (.wrongLength bytes.length rest.length)
      else if digest (rest.take bytes.length) = digest bytes then .ok (rest.take bytes.length)
      else .error .wrongDigest := by
  have hheader : (Header.ofPayload bytes).write.length = headerLength :=
    Header.length_write (length_digest bytes)
  have hformat : formatVersion < 2 ^ 16 := by decide
  have hengine : engineVersion < 2 ^ 16 := by decide
  have hread : Header.read ((Header.ofPayload bytes).write ++ rest) = Header.ofPayload bytes :=
    Header.read_write_append (length_digest bytes) hformat hengine (Nat.two_pow_pos 32) hlength
      rest
  have hmark : ((Header.ofPayload bytes).write ++ rest).take 4 = mark := rfl
  have hbody : ((Header.ofPayload bytes).write ++ rest).drop headerLength = rest :=
    List.drop_left' hheader
  have hlong : ¬ ((Header.ofPayload bytes).write ++ rest).length < headerLength := by
    rw [List.length_append, hheader]
    omega
  rw [payload, if_neg hlong, if_neg (not_not_intro hmark)]
  simp only [hread, hbody]
  simp only [Header.ofPayload, ne_eq, not_true_eq_false, if_false]
  rfl

/-- The payload behind its own header passes all checks. -/
theorem payload_ofPayload {bytes : List UInt8} (hlength : bytes.length < 2 ^ 32) :
    payload ((Header.ofPayload bytes).write ++ bytes) = .ok bytes := by
  rw [payload_ofPayload_append hlength]
  simp

/-- A stored definition is read back from the payload behind its header. -/
theorem definition_stored {stored : Definition}
    (hleaves : ∀ leaf ∈ stored.leaves, Json.read leaf.text = .ok leaf)
    (hlength : (Payload.coder.write (.ofDefinition stored)).length < 2 ^ 32) :
    definition ((Header.ofPayload (Payload.coder.write (.ofDefinition stored))).write ++
      Payload.coder.write (.ofDefinition stored)) = .ok stored := by
  have hcounts : (Payload.ofDefinition stored).counts =
      ⟨(Payload.ofDefinition stored).inputs.length, (Payload.ofDefinition stored).outputs.length,
        (Payload.ofDefinition stored).rules.length⟩ := by
    simp [Payload.ofDefinition]
  have hreads := Payload.coder_readsBack hcounts (by omega) []
  rw [List.append_nil] at hreads
  rw [definition, payload_ofPayload hlength]
  simp only [hreads, Payload.definition_ofDefinition hleaves]

end Blob

/-! ## Stored tables -/

/-- Reading a stored table gives the table itself with the options of the reader. -/
theorem Table.ofBlob_toBlob {definition : Definition} {functions : Registry}
    {options : TableOptions} {table : Table}
    (haccepted : definition.compile functions options = .ok table)
    (hleaves : ∀ leaf ∈ definition.leaves, Json.read leaf.text = .ok leaf)
    (hlength : (Blob.Payload.coder.write (.ofDefinition definition)).length ≤ 4294967295)
    (other : TableOptions) :
    ∃ blob, table.toBlob? = some blob ∧
      Table.ofBlob blob functions other = .ok { table with options := other } ∧
      table.definition = definition := by
  obtain ⟨rfl, -, -, -⟩ := Definition.compile_spec haccepted
  have hshort : (Blob.Payload.coder.write (.ofDefinition table.definition)).length <
      UInt32.size := Nat.lt_succ_of_le hlength
  refine ⟨_, if_pos hshort, ?_, rfl⟩
  rw [ofBlob, Blob.definition_stored hleaves hshort]
  simp only [Definition.compile_withOptions other haccepted]

/-- A definition with a negative priority and a default result of null. -/
def lamps : Definition :=
  { path := "$.lamps[*]"
    inputs := [⟨"on", "@.on", some .boolean⟩]
    outputs := [⟨"state", "@.state"⟩]
    rules := [⟨-3, .ofPairs [("on", .bool true)], .ofPairs [("state", .string "lit")]⟩]
    defaults := some (.ofPairs [("state", .null)])
    strategy := ⟨.allMatches, .lastWins, true⟩ }

theorem Table.ofBlob_toBlob_lamps :
    ∃ table, lamps.compile .empty {} = .ok table ∧
      ∃ blob, table.toBlob? = some blob ∧
        Table.ofBlob blob .empty { mergeDedup := true } =
          .ok { table with options := { mergeDedup := true } } ∧
        table.definition = lamps := by
  have hok : (lamps.compile .empty {}).isOk = true := by cbv
  obtain ⟨table, haccepted⟩ := Definition.exists_of_compile_isOk hok
  have hleaves : ∀ leaf ∈ lamps.leaves, Json.read leaf.text = .ok leaf := by
    have htrue : Json.read (Json.bool true).text = .ok (.bool true) := by cbv
    have hlit : Json.read (Json.string "lit").text = .ok (.string "lit") := by cbv
    have hnull : Json.read Json.null.text = .ok .null := by cbv
    have hall : lamps.leaves = [.bool true, .string "lit", .null] := rfl
    simp [hall, htrue, hlit, hnull]
  have hlength : (Blob.Payload.coder.write (.ofDefinition lamps)).length ≤ 4294967295 := by cbv
  exact ⟨table, haccepted, ofBlob_toBlob haccepted hleaves hlength _⟩

end DecisionTables
