import DrExec.Recording.Store

/-! # Manifests read back

A record is published as the canonical JSON of its dictionary, and `_load_record` reads the manifest
by the strict lifecycle adapter. Every validator that constructed the record runs again; each form
reads back what it writes, so a record without lone surrogates is read as it was, and published again
as the same bytes (`manifest_roundTrip_iff`). A lone surrogate passes every model, and no text that
holds one is read. -/

namespace DrExec.Recording.Store

open DrExec.Core.Identity DrExec.Core.Model DrExec.Core.Scalars DrExec.Declarations.Records
open DrExec.Declarations.Validation
open DrExec.Lib DrExec.Lib.Json DrExec.Recording.Models DrExec.Recording.Outcomes
open DrExec.Recording.Records DrExec.Runtime.Wire

variable {R : RecordCodec} {E : StoreCodec R}

/-! ### What is published is loaded -/

/-- The members of a record's dictionary. -/
theorem exists_members (record : RunRecord R) :
    ∃ members, manifestPayload record = .obj members ∧ (members.map Prod.fst).Nodup ∧
      members.lookup (text "header") =
        some ((runRecordHeader R.toCodec).encode (recordHeader record)) := by
  rcases record with r | r | r
  · exact ⟨_, rfl, Variants.nodup_encode _ _, rfl⟩
  · exact ⟨_, rfl, Variants.nodup_encode _ _, rfl⟩
  · exact ⟨_, rfl, Variants.nodup_encode _ _, rfl⟩

theorem exists_headerMembers (header : RunRecordHeader R.toCodec) :
    ∃ members, (runRecordHeader R.toCodec).encode header = .obj members ∧
      (members.map Prod.fst).Nodup ∧
      members.lookup (text "schema_version") = some (.int currentRunRecordSchemaVersion) :=
  ⟨_, rfl, Fields.nodup_encode _ _, rfl⟩

/-- A record names the current schema version. -/
theorem headerSchemaVersion_payload (record : RunRecord R) :
    headerSchemaVersion (manifestPayload record).normalize = some currentRunRecordSchemaVersion := by
  obtain ⟨members, hmembers, hnodup, hheader⟩ := exists_members record
  obtain ⟨headerMembers, hheaderMembers, hheaderNodup, hversion⟩ :=
    exists_headerMembers (recordHeader record)
  rw [hmembers, normalize_obj, headerSchemaVersion, lookup_normalize hnodup, hheader,
    Option.map_some, hheaderMembers, normalize_obj]
  simp only [lookup_normalize hheaderNodup, hversion, Option.map_some, Json.normalize]

/-- The strict lifecycle adapter reads the canonical JSON of a record without surrogates as the
record. -/
theorem validate_canonical (hread : ReadsCanonical R) {record : RunRecord R}
    (hscalar : (manifestPayload record).scalar = true)
    (hdepth : (manifestPayload record).normalize.depth ≤ R.canonicalJsonMaxContainerDepth) :
    (R.readJson (R.canonicalJsonBytes (manifestPayload record))).bind (runRecord R).decode =
      some record := by
  rw [hread _ hscalar hdepth, Option.bind_some]
  exact (runRecord R).decode_encode record

theorem decodeRecord_payload (hread : ReadsCanonical R) {record : RunRecord R}
    (hscalar : (manifestPayload record).scalar = true)
    (hdepth : (manifestPayload record).normalize.depth ≤ R.canonicalJsonMaxContainerDepth) :
    decodeRecord (manifestPayload record).normalize = .ok record := by
  have hnormal : (manifestPayload record).normalize.normalize = (manifestPayload record).normalize :=
    normal_normalize _
  have hmanifest : R.readJson (R.canonicalJsonBytes (manifestPayload record).normalize) =
      some (manifestPayload record).normalize := by
    rw [hread _ (scalar_normalize hscalar) (by rwa [hnormal]), hnormal]
  unfold decodeRecord
  rw [headerSchemaVersion_payload]
  simp only [Option.any_some, ne_eq, not_true_eq_false, decide_false, Bool.false_eq_true, if_false]
  rw [hmanifest, Option.bind_some, show (runRecord R).decode (manifestPayload record).normalize =
    some record from (runRecord R).decode_encode record]

/-- **A manifest that was published is loaded as its record**, if the record holds no surrogate. -/
theorem loadRecord_published (hE : E.ReadsBack) {record : RunRecord R} {bytes : Bytes}
    (hscalar : (manifestPayload record).scalar = true)
    (hpublish : E.publishManifest (manifestPayload record) = .ok bytes) (d : Directory) :
    loadRecord E none (.directory (d.withManifest bytes)) = .ok record := by
  obtain ⟨hdepth, hpublished⟩ := hE.published _ _ hscalar hpublish
  have hread : readManifest E none (.directory (d.withManifest bytes)) =
      .ok (manifestPayload record).normalize := by
    simp only [readManifest, Directory.withManifest, Function.update_self]
    exact hpublished
  rw [loadRecord, hread]
  exact decodeRecord_payload hE.canonical hscalar hdepth

/-- What the adapter reads holds no surrogate. -/
theorem scalar_of_validate (hread : ReadsScalar R) {bytes : Bytes} {record : RunRecord R}
    (h : (R.readJson bytes).bind (runRecord R).decode = some record) :
    (manifestPayload record).scalar = true := by
  obtain ⟨v, hv, hdecode⟩ := Option.bind_eq_some_iff.mp h
  exact (runRecord R).scalar_decode v record (hread bytes v hv) hdecode

theorem scalar_of_decodeRecord (hread : ReadsScalar R) {manifest : Json} {record : RunRecord R}
    (h : decodeRecord manifest = .ok record) : (manifestPayload record).scalar = true := by
  unfold decodeRecord at h
  dsimp only at h
  split_ifs at h
  split at h
  · next hvalid =>
    obtain rfl := Except.ok.inj h
    exact scalar_of_validate hread hvalid
  · cases h

/-- **A record that is loaded holds no surrogate.** -/
theorem scalar_of_loadRecord (hE : E.ReadsBack) {fault : Option DocumentDirectoryError}
    {entry : Entry} {record : RunRecord R} (h : loadRecord E fault entry = .ok record) :
    (manifestPayload record).scalar = true := by
  unfold loadRecord at h
  split at h
  · cases h
  · exact scalar_of_decodeRecord hE.scalar h

/-- A directory just made holds no record. -/
theorem loadRecord_empty (hE : E.ReadsBack) (fault : Option DocumentDirectoryError) :
    ∃ e, loadRecord E fault (.directory emptyDirectory) = .error e := by
  obtain ⟨e, he⟩ := hE.missing
  cases fault with
  | none => exact ⟨.manifestRead e, by simp only [loadRecord, readManifest, emptyDirectory, he]⟩
  | some e => exact ⟨.manifestRead e, rfl⟩

theorem unsupported_empty (hE : E.ReadsBack) (fault : Option DocumentDirectoryError) :
    unsupportedLifecycleSchemaVersion E fault (.directory emptyDirectory) = none := by
  obtain ⟨e, he⟩ := hE.missing
  cases fault with
  | none => simp only [unsupportedLifecycleSchemaVersion, readManifest, emptyDirectory, he]
  | some e => rfl

/-! ### The round trip -/

/-- `canonical_json_bytes` of a record's dictionary, which refuses one above the depth ceiling. -/
def canonicalManifest (record : RunRecord R) : Option Bytes :=
  if (manifestPayload record).normalize.depth ≤ R.canonicalJsonMaxContainerDepth then
    some (R.canonicalJsonBytes (manifestPayload record))
  else none

/-- A record is read back: its canonical JSON by the strict lifecycle adapter, which gives the record
in its state and then the same bytes, and its manifest by `_load_record`. -/
def RoundTrip (record : RunRecord R) : Prop :=
  ∃ bytes, canonicalManifest record = some bytes ∧
    (R.readJson bytes).bind (runRecord R).decode = some record ∧
    (∀ decoded, (R.readJson bytes).bind (runRecord R).decode = some decoded →
      decoded = record ∧ decoded.state = record.state ∧ canonicalManifest decoded = some bytes) ∧
    decodeRecord (manifestPayload record).normalize = .ok record

theorem canonicalManifest_eq_some {record : RunRecord R} {bytes : Bytes} :
    canonicalManifest record = some bytes ↔
      (manifestPayload record).normalize.depth ≤ R.canonicalJsonMaxContainerDepth ∧
        R.canonicalJsonBytes (manifestPayload record) = bytes := by
  unfold canonicalManifest
  split_ifs with h <;> simp [h]

theorem scalar_of_roundTrip (hread : ReadsScalar R) {record : RunRecord R} (h : RoundTrip record) :
    (manifestPayload record).scalar = true := by
  obtain ⟨bytes, -, hdecode, -⟩ := h
  exact scalar_of_validate hread hdecode

/-- **When a manifest reads back.** Every validator that constructed the record runs again and lets it
through; the reading of the text alone is stricter than the models, in that it takes no lone
surrogate. So a record reads back exactly when it holds none, and keeps to the ceiling within which
there is canonical JSON of it. -/
theorem manifest_roundTrip_iff (R : RecordCodec) (hcanonical : ReadsCanonical R)
    (hscalar : ReadsScalar R) (record : RunRecord R) :
    RoundTrip record ↔ (manifestPayload record).scalar = true ∧
      (manifestPayload record).normalize.depth ≤ R.canonicalJsonMaxContainerDepth := by
  constructor
  · intro h
    refine ⟨scalar_of_roundTrip hscalar h, ?_⟩
    obtain ⟨bytes, hbytes, -⟩ := h
    exact (canonicalManifest_eq_some.mp hbytes).1
  · rintro ⟨hpayload, hdepth⟩
    have hvalid := validate_canonical hcanonical hpayload hdepth
    have hbytes := canonicalManifest_eq_some.mpr ⟨hdepth, rfl⟩
    refine ⟨_, hbytes, hvalid, fun decoded hdecoded => ?_,
      decodeRecord_payload hcanonical hpayload hdepth⟩
    obtain rfl : record = decoded := Option.some.inj (hvalid.symm.trans hdecoded)
    exact ⟨rfl, rfl, hbytes⟩

theorem leastRecord_scalar : (manifestPayload (.prepared leastRecord)).scalar = true := by
  decide +kernel

theorem leastRecord_roundTrip : RoundTrip (.prepared leastRecord) :=
  (manifest_roundTrip_iff plainRecords plainRecords_readsCanonical plainRecords_readsScalar
    (.prepared leastRecord)).mpr ⟨leastRecord_scalar, leastRecord_within.2⟩

/-- The name of a file whose bytes are no UTF-8, as `os.fsdecode` gives it. -/
def undecodableName : Text := ⟨text "/nonexistent/" ++ [0xDCFF]⟩

theorem undecodableName_shape : persistedCallerWorkspacePathShapeError undecodableName.value = none := by
  decide +kernel

/-- The record of a job whose workspace has such a path. -/
def undecodablePrepared : PreparedRecord plainRecords :=
  ⟨leastHeader, { leastDeclaration with workspace := .caller ⟨undecodableName, undecodableName_shape⟩ }⟩

/-- The result of a run whose executable has such a name, and is not there. -/
def undecodableResult : ExecutionResultRecord plainCodec where
  executionId := ⟨nilUuid, nilUuid⟩
  outcome := .spawnAbsent undecodableName
  attribution := attributeOutcome (.spawnAbsent undecodableName)
  protocolOutputs := []
  payloadOutputs := ⟨⟨0, 0, 0, 0, rfl⟩, ⟨0, 0, 0, 0, rfl⟩⟩
  measurements := ⟨epoch, epoch, 0, 0, 0, 0, epoch_not_before⟩
  protocol_output_count_must_match_outcome := trivial

/-- Its record. -/
def undecodableRecord : FinalizedRecord plainRecords where
  header := leastHeader
  declaration := leastDeclaration
  result := undecodableResult
  outputs :=
    ⟨⟨sidecarPath "stdout.bin" stdout_isName, 0, zeroDigest⟩,
      ⟨sidecarPath "stderr.bin" stderr_isName, 0, zeroDigest⟩⟩
  execution_ids_must_match := rfl

theorem undecodableRecord_within :
    WithinCeilings plainCodec (manifestPayload (.finalized undecodableRecord)) := by
  decide +kernel

/-- **A record with a lone surrogate is not read back**, though it is valid and its canonical JSON is
published. -/
theorem undecodable_not_roundTrip :
    plainStore.publishManifest (manifestPayload (.finalized undecodableRecord)) =
        .ok (dumps (manifestPayload (.finalized undecodableRecord))) ∧
      ¬ RoundTrip (.finalized undecodableRecord) := by
  refine ⟨plainStore_publishes undecodableRecord_within, fun h => ?_⟩
  have hscalar := scalar_of_roundTrip plainRecords_readsScalar h
  exact absurd hscalar (by decide +kernel)

end DrExec.Recording.Store
