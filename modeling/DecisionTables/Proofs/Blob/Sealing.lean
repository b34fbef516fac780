import DecisionTables.Proofs.Blob.RoundTrip
import Mathlib

/-!
# Sealed blobs

Only a sealed blob is accepted: it starts with the mark and the version of the format, and its
header tells the length and the digest of the payload behind it.  Every check looks at a run of
bytes of its own.  So the bytes that none of them looks at, the version of the engine with the flags
and all that comes behind the payload, can be anything, and a blob that is cut short is refused for
its length and for nothing else.
-/

namespace DecisionTables

namespace Blob

/-- The bytes from a position on, as many as the length says. -/
def slice (bytes : List UInt8) (position length : Nat) : List UInt8 :=
  (bytes.drop position).take length

/-- The length of the payload as the header tells it. -/
def statedLength (bytes : List UInt8) : Nat :=
  ofLittleEndian (slice bytes 12 4)

structure IsSealed (bytes : List UInt8) : Prop where
  mark_eq : slice bytes 0 4 = Coder.utf8 "JRTB"
  version_eq : ofLittleEndian (slice bytes 4 2) = 1
  length_le : 32 + statedLength bytes ≤ bytes.length
  digest_eq : digest (slice bytes 32 (statedLength bytes)) = slice bytes 16 16

variable {bytes : List UInt8}

/-- The checks of a header are passed by the sealed blobs and no others. -/
theorem payload_eq_ok_iff {found : List UInt8} :
    payload bytes = .ok found ↔
      IsSealed bytes ∧ slice bytes 32 (statedLength bytes) = found := by
  have hmarked : mark = Coder.utf8 "JRTB" := by decide
  have hrefused : ¬ IsSealed bytes →
      (False ↔ IsSealed bytes ∧ slice bytes 32 (statedLength bytes) = found) := by
    intro hunsealed
    simp [hunsealed]
  unfold payload
  simp only
  split_ifs with hlong hmark hversion hbody hdigest
  · refine hrefused fun hsealed => ?_
    have hlength := hsealed.length_le
    simp only [headerLength] at hlong
    omega
  · exact hrefused fun hsealed => hmark (hsealed.mark_eq.trans hmarked.symm)
  · exact hrefused fun hsealed => hversion hsealed.version_eq
  · refine hrefused fun hsealed => ?_
    have hlength := hsealed.length_le
    have hstated : (bytes.drop 32).length < statedLength bytes := hbody
    rw [List.length_drop] at hstated
    omega
  · have hsealed : IsSealed bytes :=
      { mark_eq := (not_not.mp hmark).trans hmarked
        version_eq := not_not.mp hversion
        length_le := by
          have hstated : ¬ (bytes.drop 32).length < statedLength bytes := hbody
          simp only [headerLength] at hlong
          rw [List.length_drop] at hstated
          omega
        digest_eq := hdigest }
    exact ⟨fun hfound => ⟨hsealed, Except.ok.inj hfound⟩, fun hfound => congrArg _ hfound.2⟩
  · exact hrefused fun hsealed => hdigest hsealed.digest_eq

/-! ## Bytes that are not looked at -/

/-- Other bytes in place of the version of the engine and the flags, and further bytes behind. -/
def revise (bytes reserved further : List UInt8) : List UInt8 :=
  bytes.take 6 ++ reserved ++ bytes.drop 12 ++ further

variable {reserved : List UInt8} {position length : Nat}

theorem length_revise (hreserved : reserved.length = 6) (hlong : 12 ≤ bytes.length)
    (further : List UInt8) :
    (revise bytes reserved further).length = bytes.length + further.length := by
  simp only [revise, List.length_append, List.length_take, List.length_drop, hreserved]
  omega

theorem slice_revise_before (hlong : 6 ≤ bytes.length) (hbefore : position + length ≤ 6)
    (reserved further : List UInt8) :
    slice (revise bytes reserved further) position length = slice bytes position length := by
  have hfront : (bytes.take 6).length = 6 := List.length_take_of_le hlong
  have hdropped : length ≤ ((bytes.take 6).drop position).length := by
    rw [List.length_drop, hfront]
    omega
  unfold slice revise
  rw [List.append_assoc, List.append_assoc,
    List.drop_append_of_le_length (by omega), List.take_append_of_le_length hdropped,
    List.drop_take, List.take_take, Nat.min_eq_left (by omega)]

theorem slice_revise_behind (hreserved : reserved.length = 6) (hbehind : 12 ≤ position)
    (hwithin : position + length ≤ bytes.length) (further : List UInt8) :
    slice (revise bytes reserved further) position length = slice bytes position length := by
  have hfront : (bytes.take 6 ++ reserved).length = 12 := by
    rw [List.length_append, List.length_take_of_le (by omega), hreserved]
  obtain ⟨distance, rfl⟩ := Nat.exists_eq_add_of_le hbehind
  have hback : (revise bytes reserved further).drop 12 = bytes.drop 12 ++ further := by
    rw [revise, List.append_assoc _ (bytes.drop 12)]
    exact List.drop_left' hfront
  have hdropped : length ≤ ((bytes.drop 12).drop distance).length := by
    rw [List.drop_drop, List.length_drop]
    omega
  unfold slice
  rw [← List.drop_drop, hback, List.drop_append_of_le_length (by rw [List.length_drop]; omega),
    List.take_append_of_le_length hdropped, List.drop_drop]

/-- A sealed blob keeps its seal and its payload. -/
theorem IsSealed.payload_revise (hsealed : IsSealed bytes) (hreserved : reserved.length = 6)
    (further : List UInt8) : payload (revise bytes reserved further) = payload bytes := by
  have hlength := hsealed.length_le
  have hlong : 6 ≤ bytes.length := by omega
  have hmark : slice (revise bytes reserved further) 0 4 = slice bytes 0 4 :=
    slice_revise_before hlong (by decide) reserved further
  have hversion : slice (revise bytes reserved further) 4 2 = slice bytes 4 2 :=
    slice_revise_before hlong (by decide) reserved further
  have hstated : statedLength (revise bytes reserved further) = statedLength bytes := by
    unfold statedLength
    rw [slice_revise_behind hreserved (by decide) (by omega)]
  have hdigest : slice (revise bytes reserved further) 16 16 = slice bytes 16 16 :=
    slice_revise_behind hreserved (by decide) (by omega) further
  have hbody : slice (revise bytes reserved further) 32 (statedLength bytes) =
      slice bytes 32 (statedLength bytes) :=
    slice_revise_behind hreserved (by decide) hlength further
  have hresealed : IsSealed (revise bytes reserved further) :=
    { mark_eq := hmark.trans hsealed.mark_eq
      version_eq := hversion ▸ hsealed.version_eq
      length_le := by
        rw [hstated, length_revise hreserved (by omega)]
        omega
      digest_eq := by
        rw [hstated, hbody, hdigest]
        exact hsealed.digest_eq }
  have hfound : payload bytes = .ok (slice bytes 32 (statedLength bytes)) :=
    payload_eq_ok_iff.mpr ⟨hsealed, rfl⟩
  rw [hfound, payload_eq_ok_iff, hstated]
  exact ⟨hresealed, hbody⟩

/-! ## Bytes that are missing -/

/-- A blob that is cut short is refused for the length of its header, or else of its payload. -/
theorem payload_take {contents : List UInt8} (hlength : contents.length < 2 ^ 32) {count : Nat}
    (hcount : count < 32 + contents.length) :
    payload (((Header.ofPayload contents).write ++ contents).take count) =
      .error (if count < 32 then .wrongLength 32 count
        else .wrongLength contents.length (count - 32)) := by
  have hheader : (Header.ofPayload contents).write.length = 32 :=
    Header.length_write (length_digest contents)
  by_cases hshort : count < 32
  · have htaken : (((Header.ofPayload contents).write ++ contents).take count).length = count := by
      rw [List.length_take, List.length_append, hheader]
      omega
    rw [if_pos hshort, payload, htaken]
    exact if_pos hshort
  · have hkept : ((Header.ofPayload contents).write ++ contents).take count =
        (Header.ofPayload contents).write ++ contents.take (count - 32) := by
      rw [List.take_append, List.take_of_length_le (by omega), hheader]
    have htaken : (contents.take (count - 32)).length = count - 32 := by
      rw [List.length_take]
      omega
    rw [hkept, payload_ofPayload_append hlength, htaken, if_pos (by omega), if_neg hshort]

end Blob

namespace Table

/-- Beyond its payload nothing of a blob matters for the table that it is read as. -/
theorem ofBlob_of_payload {bytes other : List UInt8}
    (hpayload : Blob.payload bytes = Blob.payload other) (functions : Registry)
    (options : TableOptions) :
    ofBlob bytes functions options = ofBlob other functions options := by
  simp only [ofBlob, Blob.definition, hpayload]

theorem isSealed_of_ofBlob {bytes : List UInt8} {functions : Registry} {options : TableOptions}
    {table : Table} (haccepted : ofBlob bytes functions options = .ok table) :
    Blob.IsSealed bytes := by
  cases hpayload : Blob.payload bytes with
  | error error => simp [ofBlob, Blob.definition, hpayload] at haccepted
  | ok found => exact (Blob.payload_eq_ok_iff.mp hpayload).1

/--
Only sealed blobs are accepted, and what their seal leaves open is not looked at.  A stored table
that is cut short anywhere is refused with the length that is missed.
-/
theorem ofBlob_checks_seal :
    (∀ (bytes : List UInt8) (functions : Registry) (options : TableOptions) (table : Table),
      ofBlob bytes functions options = .ok table →
        Blob.IsSealed bytes ∧
          ∀ reserved further, reserved.length = 6 →
            ofBlob (Blob.revise bytes reserved further) functions options = .ok table) ∧
    ∀ table : Table,
      let length := (Blob.Payload.coder.write (.ofDefinition table.definition)).length
      length ≤ 4294967295 →
        ∃ blob, table.toBlob? = some blob ∧ blob.length = 32 + length ∧
          ∀ count < blob.length, ∀ (functions : Registry) (options : TableOptions),
            ofBlob (blob.take count) functions options =
              .error (if count < 32 then .wrongLength 32 count
                else .wrongLength length (count - 32)) := by
  constructor
  · intro bytes functions options table haccepted
    have hsealed := isSealed_of_ofBlob haccepted
    refine ⟨hsealed, fun reserved further hreserved => ?_⟩
    rw [ofBlob_of_payload (hsealed.payload_revise hreserved further)]
    exact haccepted
  · intro table length hlength
    have hshort : length < 2 ^ 32 := Nat.lt_succ_of_le hlength
    have hblob : ((Blob.Header.ofPayload (Blob.Payload.coder.write
        (.ofDefinition table.definition))).write ++
          Blob.Payload.coder.write (.ofDefinition table.definition)).length = 32 + length := by
      rw [List.length_append, Blob.Header.length_write (Blob.length_digest _)]
      rfl
    refine ⟨_, if_pos hshort, hblob, fun count hcount functions options => ?_⟩
    rw [hblob] at hcount
    rw [ofBlob, Blob.definition, Blob.payload_take hshort hcount]

/-- Every post is matched by a rule without conditions, which writes nothing. -/
def posts : Definition :=
  { path := "$.posts[*]"
    inputs := [⟨"age", "@.age", some .number⟩]
    outputs := [⟨"state", "@.state"⟩]
    rules := [⟨4, .empty, .empty⟩]
    defaults := none
    strategy := .standard }

/-- The same table comes of other flags and of more bytes, and none of fewer bytes. -/
theorem ofBlob_checks_seal_posts :
    ∃ table blob, posts.compile .empty {} = .ok table ∧ table.toBlob? = some blob ∧
      Blob.IsSealed blob ∧ ofBlob blob .empty {} = .ok table ∧
      ofBlob (Blob.revise blob [9, 0, 1, 2, 3, 4] [7, 7]) .empty {} = .ok table ∧
      ofBlob (blob.take 31) .empty {} = .error (.wrongLength 32 31) ∧
      ofBlob (blob.take 40) .empty {} = .error (.wrongLength 50 8) := by
  have hok : (posts.compile .empty {}).isOk = true := by cbv
  obtain ⟨table, haccepted⟩ := Definition.exists_of_compile_isOk hok
  obtain ⟨hdefinition, -, -, -⟩ := Definition.compile_spec haccepted
  have hlength : (Blob.Payload.coder.write (.ofDefinition table.definition)).length = 50 := by
    rw [hdefinition]
    cbv
  have hshort : (Blob.Payload.coder.write (.ofDefinition table.definition)).length <
      UInt32.size := by
    rw [hlength]
    decide
  have hleaves : ∀ leaf ∈ table.definition.leaves, Json.read leaf.text = .ok leaf := by
    rw [hdefinition]
    exact fun _ hleaf => absurd hleaf List.not_mem_nil
  obtain ⟨hopen, hstored⟩ := ofBlob_checks_seal
  obtain ⟨blob, hblob, hwhole, hcut⟩ := hstored table (by omega)
  have hrestored : ofBlob blob .empty {} = .ok table := by
    have hcompiled : table.definition.compile .empty {} = .ok table := hdefinition ▸ haccepted
    obtain rfl := Option.some.inj (hblob.symm.trans (if_pos hshort))
    simp only [ofBlob, Blob.definition_stored hleaves hshort, hcompiled]
  obtain ⟨hsealed, hrevised⟩ := hopen blob .empty {} table hrestored
  refine ⟨table, blob, haccepted, hblob, hsealed, hrestored, hrevised _ _ rfl, ?_, ?_⟩
  · simpa using hcut 31 (by omega) .empty {}
  · simpa [hlength] using hcut 40 (by omega) .empty {}

end Table

end DecisionTables
