import DrExec.Recording.Records

/-! # The directory run store

`DirectoryRunStore` of `recording/store.py`. A record is a directory under the root, found by its
record id: a manifest and two sidecars. Of dr_store the model takes what its functions make of bytes
as parameters; each call of it, and of the file system, is told whether it fails. -/

namespace DrExec.Recording.Store

open DrExec.Core.Identity DrExec.Core.Model DrExec.Core.Scalars DrExec.Declarations.Records
open DrExec.Lib DrExec.Lib.Json DrExec.Recording.Models DrExec.Recording.Records DrExec.Runtime.Wire

/-! ### What is stored -/

/-- A child of a record's directory: a regular file, or anything else. -/
inductive Node
  | file (bytes : Bytes)
  | other
  deriving DecidableEq

/-- The children of a record's directory by their names. -/
abbrev Directory := Str → Option Node

/-- What is at a record's path. -/
inductive Entry
  | absent
  | directory (children : Directory)
  | other

def manifestName : Str := text "record.json"

def stdoutSidecarName : Str := text "stdout.bin"

def stderrSidecarName : Str := text "stderr.bin"

/-- A directory without children. -/
def emptyDirectory : Directory := fun _ => none

/-- A directory with this file for the manifest. -/
def Directory.withManifest (d : Directory) (bytes : Bytes) : Directory :=
  Function.update d manifestName (some (.file bytes))

/-- The store's root: an entry for each record id. -/
abbrev Root := Uuid → Entry

/-! ### What the store is given -/

/-- An exception of dr_store: the name of its class, and the `errno` that its chain of causes gives.
-/
structure DocumentDirectoryError where
  typeName : Text
  errno : Option ℤ := none
  deriving DecidableEq

/-- The functions of dr_store and `uuid5`: reading a manifest, whose error is a
`DocumentDirectoryError`; the bytes that a payload is published as, unless it is refused; and the
digest of a sidecar. -/
structure StoreCodec (R : RecordCodec) where
  uuid5 : Uuid → Str → Uuid
  readManifest : Option Node → Except DocumentDirectoryError Json
  publishManifest : Json → Except DocumentDirectoryError Bytes
  sidecarHash : Bytes → Sha256Digest R.toCodec

/-- The canonical bytes of a value without surrogates, within the depth ceiling, are read as it. -/
def ReadsCanonical (R : RecordCodec) : Prop :=
  ∀ v : Json, v.scalar = true → v.normalize.depth ≤ R.canonicalJsonMaxContainerDepth →
    R.readJson (R.canonicalJsonBytes v) = some v.normalize

/-- pydantic reads no surrogate out of bytes. -/
def ReadsScalar (R : RecordCodec) : Prop :=
  ∀ bytes v, R.readJson bytes = some v → v.scalar = true

/-- What the store relies on: a payload without surrogates that was published is within the depth
ceiling and is read back, there is no reading a manifest that is missing, the digest of a sidecar
holds no surrogate, and so for pydantic. -/
structure StoreCodec.ReadsBack {R : RecordCodec} (E : StoreCodec R) : Prop where
  published : ∀ v bytes, v.scalar = true → E.publishManifest v = .ok bytes →
    v.normalize.depth ≤ R.canonicalJsonMaxContainerDepth ∧
      E.readManifest (some (.file bytes)) = .ok v.normalize
  missing : ∃ e, E.readManifest none = .error e
  digest : ∀ bytes, (E.sidecarHash bytes).1.Scalar
  canonical : ReadsCanonical R
  scalar : ReadsScalar R

/-- `STRUCTURAL_MANIFEST_BYTE_CEILING` -/
def structuralManifestByteCeiling : ℕ := 256 * 1024 * 1024

/-- Whether a canonical manifest keeps to the ceilings. -/
def WithinCeilings (C : Codec) (manifest : Json) : Prop :=
  (C.canonicalJsonBytes manifest).length ≤ structuralManifestByteCeiling ∧
    manifest.normalize.depth ≤ C.canonicalJsonMaxContainerDepth

instance (C : Codec) : DecidablePred (WithinCeilings C) :=
  fun _ => inferInstanceAs (Decidable (_ ∧ _))

/-- Canonical JSON, as a store. -/
def plainStore : StoreCodec plainRecords where
  uuid5 namespaceId _ := namespaceId
  readManifest
    | some (.file bytes) =>
      (plainCodec.decodeStrictJsonBytes bytes structuralManifestByteCeiling
        plainCodec.canonicalJsonMaxContainerDepth).mapError
        fun _ => { typeName := Text.lit "DocumentDirectoryError" }
    | _ => .error { typeName := Text.lit "DocumentDirectoryError", errno := some 2 }
  publishManifest v :=
    if WithinCeilings plainCodec v then .ok (dumps v)
    else .error { typeName := Text.lit "DocumentDirectoryError" }
  sidecarHash _ := zeroDigest

theorem plainStore_publishes {v : Json} (h : WithinCeilings plainCodec v) :
    plainStore.publishManifest v = .ok (dumps v) := if_pos h

/-- The record of `leastDeclaration` is small. -/
theorem leastRecord_within :
    WithinCeilings plainCodec ((runRecord plainRecords).encode (.prepared leastRecord)) := by
  decide +kernel

theorem plainRecords_readsCanonical : ReadsCanonical plainRecords := by
  intro v hscalar _
  have hnormal := scalar_normalize hscalar
  have hloads := loads_dumps (normal_normalize v) hnormal
  rw [dumps_normalize] at hloads
  exact Option.filter_eq_some_iff.mpr ⟨hloads, hnormal⟩

theorem plainRecords_readsScalar : ReadsScalar plainRecords :=
  fun _ _ h => (Option.filter_eq_some_iff.mp h).2

theorem plainStore_readsBack : plainStore.ReadsBack where
  published v bytes hscalar hpublish := by
    unfold plainStore at hpublish
    dsimp only at hpublish
    split_ifs at hpublish with hfits
    obtain rfl := Except.ok.inj hpublish
    have hloads := loads_dumps (normal_normalize v) (scalar_normalize hscalar)
    rw [dumps_normalize] at hloads
    have hdecode := plainCodec_decode.mpr
      ⟨hfits.1, hloads, scalar_normalize hscalar, hfits.2⟩
    refine ⟨hfits.2, ?_⟩
    show Except.mapError _ _ = _
    rw [show dumps v = plainCodec.canonicalJsonBytes v from rfl, hdecode]
    rfl
  missing := ⟨_, rfl⟩
  digest _ := fun _ h => isScalar_of_mem_text h
  canonical := plainRecords_readsCanonical
  scalar := plainRecords_readsScalar

section

variable {R : RecordCodec} (E : StoreCodec R)

/-! ### Loading a manifest -/

def currentRunRecordSchemaVersion : ℤ := 2

/-- `_header_schema_version` -/
def headerSchemaVersion : Json → Option ℤ
  | .obj members =>
    match members.lookup (text "header") with
    | some (.obj header) =>
      match header.lookup (text "schema_version") with
      | some (.int version) => some version
      | _ => none
    | _ => none
  | _ => none

/-- `RecordLoadError`, by what it reports; `unresolved` with the `errno` of its `OSError`, if any.
-/
inductive RecordLoadError
  | manifestRead (cause : DocumentDirectoryError)
  | unsupportedSchemaVersion (version : ℤ)
  | notALifecycleRecord
  | unresolved (errno : Option ℤ)
  | alreadyFinalized
  | unexpectedArtifactPath (name : Str)
  | sidecarMismatch (name : Str)
  | sidecarUnverified (cause : DocumentDirectoryError)
  | notFinalized
  | notOwned
  | readLimit
  | artifactMismatch

/-- The `errno` that the chain of causes gives. -/
def RecordLoadError.errno : RecordLoadError → Option ℤ
  | manifestRead cause | sidecarUnverified cause => cause.errno
  | unresolved errno => errno
  | _ => none

/-- `_directory(record_dir).read_manifest()`, which fails of its own where `fault` says so. -/
def readManifest (fault : Option DocumentDirectoryError) : Entry → Except DocumentDirectoryError Json
  | .directory d =>
    match fault with
    | some e => .error e
    | none => E.readManifest (d manifestName)
  | _ => .error { typeName := Text.lit "DocumentDirectoryError" }

/-- `_load_record`, once the manifest is read. -/
def decodeRecord (manifest : Json) : Except RecordLoadError (RunRecord R) :=
  let version := headerSchemaVersion manifest
  if version.any (· ≠ currentRunRecordSchemaVersion) then
    .error (.unsupportedSchemaVersion (version.getD currentRunRecordSchemaVersion))
  else
    match (R.readJson (R.canonicalJsonBytes manifest)).bind (runRecord R).decode with
    | some record => .ok record
    | none => .error .notALifecycleRecord

/-- `_load_record` -/
def loadRecord (fault : Option DocumentDirectoryError) (entry : Entry) :
    Except RecordLoadError (RunRecord R) :=
  match readManifest E fault entry with
  | .error e => .error (.manifestRead e)
  | .ok manifest => decodeRecord manifest

/-- `_unsupported_lifecycle_schema_version` -/
def unsupportedLifecycleSchemaVersion (fault : Option DocumentDirectoryError) (entry : Entry) :
    Option ℤ :=
  match readManifest E fault entry with
  | .error _ => none
  | .ok manifest => (headerSchemaVersion manifest).filter (· ≠ currentRunRecordSchemaVersion)

def enoent : ℤ := 2

/-- `_resolve`: the record's path must be a directory. -/
def resolve (root : Root) (reference : RunRecordReference) : Except RecordLoadError Directory :=
  match root reference.recordId with
  | .directory d => .ok d
  | .absent => .error (.unresolved (some enoent))
  | .other => .error (.unresolved none)

/-! ### Publishing -/

/-- How a publication fails of its own: before the manifest was replaced, or after. -/
inductive PublishFault
  | before (e : DocumentDirectoryError)
  | after (e : DocumentDirectoryError)

/-- `directory.publish(payload)`: the manifest is replaced as a whole. -/
def publish (fault : Option PublishFault) (payload : Json) :
    Entry → Except DocumentDirectoryError Unit × Entry
  | .directory d =>
    match fault, E.publishManifest payload with
    | some (.before e), _ => (.error e, .directory d)
    | _, .error e => (.error e, .directory d)
    | some (.after e), .ok bytes => (.error e, .directory (d.withManifest bytes))
    | none, .ok bytes => (.ok (), .directory (d.withManifest bytes))
  | entry => (.error { typeName := Text.lit "DocumentDirectoryError" }, entry)

/-- `_manifest_payload` of a record. -/
def manifestPayload (record : RunRecord R) : Json := (runRecord R).encode record

/-! ### Preparing -/

/-- What escapes `prepare` and `mark_running`: an `ExecutorFailure` for an error of dr_store or a
`RecordLoadError`, or an `OSError` as it is. -/
inductive StoreError
  | executorFailure (operation : Text)
  | osError
  deriving DecidableEq

/-- The failures of `_reclaim_unprepared_allocation`: of its two reads of the manifest. -/
structure ReclaimFaults where
  load : Option DocumentDirectoryError := none
  probe : Option DocumentDirectoryError := none

/-- `_reclaim_unprepared_allocation`; `rmtree` raises an `OSError` where there is no directory. -/
def reclaimUnpreparedAllocation (faults : ReclaimFaults) (entry : Entry) : Except StoreError Entry :=
  match loadRecord E faults.load entry with
  | .ok _ => .ok entry
  | .error _ =>
    if (unsupportedLifecycleSchemaVersion E faults.probe entry).isSome then .ok entry
    else
      match entry with
      | .directory _ => .ok .absent
      | _ => .error .osError

/-- The failures of `prepare`: of either `mkdir`, other than that the path exists; of opening the
directory; of the publication; and of the reads of either reclaim. -/
structure PrepareFaults where
  mkdir : Bool := false
  reclaim : ReclaimFaults := {}
  mkdirAgain : Bool := false
  openDirectory : Bool := false
  publish : Option PublishFault := none
  cleanup : ReclaimFaults := {}

/-- `_directory(record_dir)` of a directory just made. -/
def openAllocated (faults : PrepareFaults) : Except StoreError Unit × Entry :=
  if faults.openDirectory then
    (.error (.executorFailure (Text.lit "prepare the run record")), .directory emptyDirectory)
  else (.ok (), .directory emptyDirectory)

/-- `_allocate`; its errors are those that `prepare` makes of them. -/
def allocate (faults : PrepareFaults) (entry : Entry) : Except StoreError Unit × Entry :=
  if faults.mkdir then (.error (.executorFailure (Text.lit "prepare the run record")), entry)
  else
    match entry with
    | .absent => openAllocated faults
    | entry =>
      match reclaimUnpreparedAllocation E faults.reclaim entry with
      | .error e => (.error e, entry)
      | .ok .absent =>
        if faults.mkdirAgain then
          (.error (.executorFailure (Text.lit "prepare the run record")), .absent)
        else openAllocated faults
      | .ok entry => (.error (.executorFailure (Text.lit "prepare the run record")), entry)

/-- `_job_id_name` -/
def jobIdName (jobId : Uuid) : Str := text "dr-exec/job-id/" ++ jobId.spelling

/-- `_RECORD_ID_NAMESPACE` -/
def recordIdNamespace : Uuid := ⟨0x0189d3f4, 0x1c2b, 0x7e3a, 0x9f10, 0x2b3c4d5e6f81⟩

/-- `record_reference_for_job` -/
def recordReferenceForJob (jobId : Uuid) : RunRecordReference :=
  ⟨E.uuid5 recordIdNamespace (jobIdName jobId)⟩

/-- `prepare`, at the record's own entry. -/
def prepareEntry (faults : PrepareFaults) (record : PreparedRecord R) (entry : Entry) :
    Except StoreError (RecordedRun R) × Entry :=
  match allocate E faults entry with
  | (.error e, entry) => (.error e, entry)
  | (.ok (), entry) =>
    match publish E faults.publish (manifestPayload (.prepared record)) entry with
    | (.error _, entry) =>
      match reclaimUnpreparedAllocation E faults.cleanup entry with
      | .error e => (.error e, entry)
      | .ok entry => (.error (.executorFailure (Text.lit "prepare the run record")), entry)
    | (.ok (), entry) =>
      (.ok ⟨record.declaration.executionId,
        recordReferenceForJob E record.declaration.executionId.jobId, record.header,
        record.declaration⟩, entry)

/-- `prepare` -/
def prepare (faults : PrepareFaults) (record : PreparedRecord R) (root : Root) :
    Except StoreError (RecordedRun R) × Root :=
  let recordId := (recordReferenceForJob E record.declaration.executionId.jobId).recordId
  let prepared := prepareEntry E faults record (root recordId)
  (prepared.1, Function.update root recordId prepared.2)

/-! ### Marking a run -/

/-- `mark_running` -/
def markRunning (fault : Option PublishFault) (run : RecordedRun R) (process : ProcessRecord)
    (root : Root) : Except StoreError (RecordedRun R) × Root :=
  match resolve root run.reference with
  | .error _ => (.error (.executorFailure (Text.lit "publish the running run record")), root)
  | .ok d =>
    match publish E fault (manifestPayload (.running ⟨run.header, run.declaration, process⟩))
        (.directory d) with
    | (.error _, entry) =>
      (.error (.executorFailure (Text.lit "publish the running run record")),
        Function.update root run.reference.recordId entry)
    | (.ok (), entry) => (.ok run, Function.update root run.reference.recordId entry)

/-! ### Loading a run -/

/-- The failures of `load`: of reading the manifest, and of either verification. -/
structure LoadFaults where
  manifest : Option DocumentDirectoryError := none
  stdout : Option DocumentDirectoryError := none
  stderr : Option DocumentDirectoryError := none

/-- One round of `_verify_sidecars`. -/
def verifySidecar (fault : Option DocumentDirectoryError) (d : Directory) (expectedName : Str)
    (artifact : OutputArtifactRecord R.toCodec) (stream : RetainedPayloadStreamRecord) :
    Except RecordLoadError Unit :=
  if artifact.relativePath.1 ≠ PurePosixPath.ofStr expectedName then
    .error (.unexpectedArtifactPath expectedName)
  else
    match fault, d expectedName with
    | some e, _ => .error (.sidecarUnverified e)
    | none, some (.file bytes) =>
      if bytes.length = stream.headBytes + stream.tailBytes ∧ E.sidecarHash bytes = artifact.sha256 then
        .ok ()
      else .error (.sidecarMismatch expectedName)
    | none, _ => .error (.sidecarMismatch expectedName)

/-- `_verify_sidecars` -/
def verifySidecars (faults : LoadFaults) (d : Directory) (record : FinalizedRecord R) :
    Except RecordLoadError Unit := do
  verifySidecar E faults.stdout d stdoutSidecarName record.outputs.stdout
    record.result.payloadOutputs.stdout
  verifySidecar E faults.stderr d stderrSidecarName record.outputs.stderr
    record.result.payloadOutputs.stderr

/-- `load` -/
def load (faults : LoadFaults) (root : Root) (reference : RunRecordReference) :
    Except RecordLoadError (RunRecord R) := do
  let d ← resolve root reference
  let record ← loadRecord E faults.manifest (.directory d)
  match record with
  | .finalized finalized => verifySidecars E faults d finalized
  | _ => .ok ()
  return record

/-! ### Finalizing -/

/-- How writing a sidecar fails, and what is under its name then. -/
abbrev SidecarFault := Option (DocumentDirectoryError × Option Node)

/-- `_write_sidecar`: the digest of the summary, whose lengths are those of the two parts. -/
def writeSidecar (fault : SidecarFault) (name : Str) (stream : RetainedPayloadStream) (d : Directory) :
    Except DocumentDirectoryError (Sha256Digest R.toCodec) × Directory :=
  match fault with
  | some (e, left) => (.error e, Function.update d name left)
  | none =>
    (.ok (E.sidecarHash (stream.head ++ stream.tail)),
      Function.update d name (some (.file (stream.head ++ stream.tail))))

/-- `_retained_stream_record` -/
def retainedStreamRecord (stream : RetainedPayloadStream) : RetainedPayloadStreamRecord where
  headBytes := stream.head.length
  tailBytes := stream.tail.length
  producedBytes := stream.producedBytes
  droppedBytes := stream.droppedBytes
  retained_and_dropped_bytes_must_equal_produced_bytes :=
    stream.retained_and_dropped_bytes_must_equal_produced_bytes

/-- `_execution_result_record` -/
def resultRecord (result : ExecutionResult R.toCodec) : ExecutionResultRecord R.toCodec where
  executionId := result.executionId
  outcome := result.outcome
  attribution := result.attribution
  protocolOutputs := result.protocolOutputs
  payloadOutputs :=
    ⟨retainedStreamRecord result.payloadOutputs.stdout,
      retainedStreamRecord result.payloadOutputs.stderr⟩
  measurements := result.measurements
  protocol_output_count_must_match_outcome := result.protocol_output_count_must_match_outcome

/-- `Path(name)` of a sidecar's name. -/
def sidecarPath (name : String)
    (h : text name ∉ [[], [dot], dotDot] ∧ slash ∉ text name := by decide +kernel) :
    {path : PurePosixPath // NormalizedRelative path} :=
  ⟨⟨.relative, [text name], by
      simp only [List.mem_cons, not_or] at h
      simpa [ValidPart] using ⟨h.1.1, h.1.2.1, h.2⟩⟩,
    rfl, by simp, by
      simp only [List.mem_cons, not_or] at h
      simpa using Ne.symm h.1.2.2.1⟩

/-- `_artifact_record` -/
def artifactRecord (path : {path : PurePosixPath // NormalizedRelative path})
    (stream : RetainedPayloadStream) (sidecarHash : Sha256Digest R.toCodec) :
    OutputArtifactRecord R.toCodec where
  relativePath := path
  sizeBytes := stream.head.length + stream.tail.length
  sha256 := sidecarHash

/-- The header of a record. -/
def recordHeader : RunRecord R → RunRecordHeader R.toCodec
  | .prepared record => record.header
  | .running record => record.header
  | .finalized record => record.header

/-- The declaration of a record. -/
def recordDeclaration : RunRecord R → RunDeclaration R
  | .prepared record => record.declaration
  | .running record => record.declaration
  | .finalized record => record.declaration

/-- What `_publish_finalized` raises; the last is the `ValidationError` of the record. -/
inductive FinalizeError
  | documentDirectory (e : DocumentDirectoryError)
  | recordLoad (e : RecordLoadError)
  | validationError

theorem stdout_isName : text "stdout.bin" ∉ [[], [dot], dotDot] ∧ slash ∉ text "stdout.bin" := by
  decide +kernel

theorem stderr_isName : text "stderr.bin" ∉ [[], [dot], dotDot] ∧ slash ∉ text "stderr.bin" := by
  decide +kernel

/-- The `FinalizedRecord` of a result, after the record that was loaded. -/
def finalizedRecord (record : RunRecord R) (result : ExecutionResult R.toCodec)
    (stdoutHash stderrHash : Sha256Digest R.toCodec) : Except FinalizeError (FinalizedRecord R) :=
  if h : (recordDeclaration record).executionId = result.executionId then
    .ok
      { header := recordHeader record
        declaration := recordDeclaration record
        result := resultRecord result
        outputs :=
          ⟨artifactRecord (sidecarPath "stdout.bin" stdout_isName) result.payloadOutputs.stdout stdoutHash,
            artifactRecord (sidecarPath "stderr.bin" stderr_isName) result.payloadOutputs.stderr stderrHash⟩
        execution_ids_must_match := h }
  else .error .validationError

/-- The failures of `finalize`: of loading the manifest, of opening the directory, of either
sidecar, of the publication, and of loading the manifest again for the receipt. -/
structure FinalizeFaults where
  load : Option DocumentDirectoryError := none
  openDirectory : Option DocumentDirectoryError := none
  stdout : SidecarFault := none
  stderr : SidecarFault := none
  publish : Option PublishFault := none
  durableState : Option DocumentDirectoryError := none

/-- `_publish_finalized` in the record's directory. -/
def publishFinalized (faults : FinalizeFaults) (result : ExecutionResult R.toCodec) (d : Directory) :
    Except FinalizeError Unit × Entry :=
  match loadRecord E faults.load (.directory d), faults.openDirectory with
  | .error e, _ => (.error (.recordLoad e), .directory d)
  | .ok (.finalized _), _ => (.error (.recordLoad .alreadyFinalized), .directory d)
  | .ok _, some e => (.error (.documentDirectory e), .directory d)
  | .ok record, none =>
    match writeSidecar E faults.stdout stdoutSidecarName result.payloadOutputs.stdout d with
    | (.error e, d) => (.error (.documentDirectory e), .directory d)
    | (.ok stdoutHash, d) =>
      match writeSidecar E faults.stderr stderrSidecarName result.payloadOutputs.stderr d with
      | (.error e, d) => (.error (.documentDirectory e), .directory d)
      | (.ok stderrHash, d) =>
        match finalizedRecord record result stdoutHash stderrHash with
        | .error e => (.error e, .directory d)
        | .ok finalized =>
          match publish E faults.publish (manifestPayload (.finalized finalized)) (.directory d) with
          | (.error e, entry) => (.error (.documentDirectory e), entry)
          | (.ok (), entry) => (.ok (), entry)

/-- `_durable_state` -/
def durableState (fault : Option DocumentDirectoryError) (run : FinalizableRun R) (root : Root) :
    RecordState :=
  match resolve root run.reference with
  | .error _ => run.durableState
  | .ok d =>
    match loadRecord E fault (.directory d) with
    | .error _ => run.durableState
    | .ok record => record.state

/-- `_recording_failure` -/
def recordingFailure (operation : String) (typeName : Text) (errno : Option ℤ) : RecordingFailure :=
  .detail (Text.lit operation) errno typeName

/-- `finalize`: a receipt, or a `ValidationError`. -/
def finalize (faults : FinalizeFaults) (run : FinalizableRun R) (result : ExecutionResult R.toCodec)
    (root : Root) : Option RealRecordReceipt × Root :=
  let published : Except FinalizeError Unit × Root :=
    match resolve root run.reference with
    | .error e => (.error (.recordLoad e), root)
    | .ok d =>
      let published := publishFinalized E faults result d
      (published.1, Function.update root run.reference.recordId published.2)
  let degraded (typeName : Text) (errno : Option ℤ) : RealRecordReceipt :=
    .degraded run.executionId run.reference (durableState E faults.durableState run published.2)
      [recordingFailure "finalize" typeName errno]
  match published.1 with
  | .ok () => (some (.complete run.executionId run.reference), published.2)
  | .error (.documentDirectory e) => (some (degraded e.typeName e.errno), published.2)
  | .error (.recordLoad e) => (some (degraded (Text.lit "RecordLoadError") e.errno), published.2)
  | .error .validationError => (none, published.2)

/-! ### Reading an artifact -/

instance : DecidableEq (OutputArtifactRecord R.toCodec) := fun a b =>
  decidable_of_iff
    (a.relativePath = b.relativePath ∧ a.sizeBytes = b.sizeBytes ∧ a.sha256 = b.sha256)
    (by cases a; cases b; simp)

/-- `read_artifact` with a nonnegative `max_bytes`. -/
def readArtifact (fault : Option DocumentDirectoryError) (root : Root)
    (reference : RunRecordReference) (artifact : OutputArtifactRecord R.toCodec) (maxBytes : ℕ) :
    Except RecordLoadError Bytes := do
  let d ← resolve root reference
  match ← loadRecord E fault (.directory d) with
  | .finalized record =>
    if artifact ≠ record.outputs.stdout ∧ artifact ≠ record.outputs.stderr then throw .notOwned
    if maxBytes < artifact.sizeBytes then throw .readLimit
    match d artifact.relativePath.1.asPosix with
    | some (.file bytes) =>
      if bytes.length = artifact.sizeBytes ∧ E.sidecarHash bytes = artifact.sha256 then
        return bytes
      else throw .artifactMismatch
    | _ => throw .artifactMismatch
  | _ => throw .notFinalized

end

end DrExec.Recording.Store
