import DrExec.Execution.Completion
import DrExec.Recording.Prepare

/-! # Finalizing a record

`finalize` loads the manifest, writes two sidecars and replaces the manifest. `Publication` says how
that ends, wherever it fails: the manifest stays, or it is the finalized record and the sidecars
hold what the result retained. The receipt says which, and the engine's receipt what failed before
it as well (`finalize_faults`); but a receipt is complete also where the result holds a lone
surrogate, and then nothing loads what was published. -/

namespace DrExec.Recording.Store

open DrExec.Core.Identity DrExec.Core.Model DrExec.Core.Scalars DrExec.Declarations.Records
open DrExec.Lib DrExec.Lib.Json DrExec.Recording.Models DrExec.Recording.Outcomes
open DrExec.Recording.Records DrExec.Runtime.Wire
open DrExec.Execution.Completion

variable {R : RecordCodec} {E : StoreCodec R}

/-! ### The files of a record -/

/-- The manifest at a record's path. -/
def Entry.manifest : Entry → Option Node
  | .directory d => d manifestName
  | _ => none

/-- What a sidecar holds. -/
def retained (stream : RetainedPayloadStream) : Bytes := stream.head ++ stream.tail

theorem loadRecord_congr {d d' : Directory} (h : d' manifestName = d manifestName)
    (fault : Option DocumentDirectoryError) :
    loadRecord E fault (.directory d') = loadRecord E fault (.directory d) := by
  simp only [loadRecord, readManifest, h]

theorem names_distinct : stdoutSidecarName ≠ manifestName ∧ stderrSidecarName ≠ manifestName ∧
    stdoutSidecarName ≠ stderrSidecarName := by decide +kernel

/-- A sidecar is the only file that writing it changes. -/
theorem writeSidecar_other (fault : SidecarFault) {name other : Str} (hne : other ≠ name)
    (stream : RetainedPayloadStream) (d : Directory) :
    (writeSidecar E fault name stream d).2 other = d other := by
  unfold writeSidecar
  split <;> exact Function.update_of_ne hne _ _

theorem writeSidecar_ok {fault : SidecarFault} {name : Str} {stream : RetainedPayloadStream}
    {d d' : Directory} {digest : Sha256Digest R.toCodec}
    (h : writeSidecar E fault name stream d = (.ok digest, d')) :
    digest = E.sidecarHash (retained stream) ∧ d' name = some (.file (retained stream)) := by
  unfold writeSidecar at h
  split at h
  · cases h
  · cases h
    exact ⟨rfl, Function.update_self ..⟩

theorem fault_of_writeSidecar {fault : SidecarFault} {name : Str} {stream : RetainedPayloadStream}
    {d d' : Directory} {digest : Sha256Digest R.toCodec}
    (h : writeSidecar E fault name stream d = (.ok digest, d')) : fault = none := by
  cases fault with
  | none => rfl
  | some failure => cases h

theorem fault_of_publish {fault : Option PublishFault} {payload : Json} {d : Directory}
    {left : Entry} (h : publish E fault payload (.directory d) = (.ok (), left)) : fault = none := by
  rcases fault with _ | e | e
  · rfl
  · simp [publish] at h
  · rcases hpublish : E.publishManifest payload with refusal | bytes
    · simp [publish, hpublish] at h
    · simp [publish, hpublish] at h

/-! ### How publishing ends -/

/-- How `_publish_finalized` ends in a directory, wherever it fails. -/
inductive Publication (E : StoreCodec R) (result : ExecutionResult R.toCodec) (d : Directory) :
    Except FinalizeError Unit → Entry → Prop
  | unpublished (error : FinalizeError) (d' : Directory) : d' manifestName = d manifestName →
      (error = .validationError → ∃ record, loadRecord E none (.directory d) = .ok record ∧
        (recordDeclaration record).executionId ≠ result.executionId) →
      Publication E result d (.error error) (.directory d')
  | published (ended : Except FinalizeError Unit) (record : RunRecord R)
      (finalized : FinalizedRecord R) (bytes : Bytes) (d' : Directory) :
      (ended = .ok () ∨ ∃ e, ended = .error (.documentDirectory e)) →
      loadRecord E none (.directory d) = .ok record → record.state ≠ .finalized →
      finalizedRecord record result (E.sidecarHash (retained result.payloadOutputs.stdout))
        (E.sidecarHash (retained result.payloadOutputs.stderr)) = .ok finalized →
      E.publishManifest (manifestPayload (.finalized finalized)) = .ok bytes →
      d' stdoutSidecarName = some (.file (retained result.payloadOutputs.stdout)) →
      d' stderrSidecarName = some (.file (retained result.payloadOutputs.stderr)) →
      Publication E result d ended (.directory (d'.withManifest bytes))

/-- How a publication ends. -/
theorem publish_directory (fault : Option PublishFault) (payload : Json) (d : Directory) :
    (∃ e, publish E fault payload (.directory d) = (.error e, .directory d)) ∨
      ∃ bytes, E.publishManifest payload = .ok bytes ∧
        ((publish E fault payload (.directory d)).1 = .ok () ∨
          ∃ e, (publish E fault payload (.directory d)).1 = .error e) ∧
        (publish E fault payload (.directory d)).2 = .directory (d.withManifest bytes) := by
  rcases hpublish : E.publishManifest payload with refusal | bytes
  · rcases fault with _ | e | e
    · exact .inl ⟨refusal, by simp [publish, hpublish]⟩
    · exact .inl ⟨e, by simp [publish]⟩
    · exact .inl ⟨refusal, by simp [publish, hpublish]⟩
  · rcases fault with _ | e | e
    · exact .inr ⟨bytes, rfl, by simp [publish, hpublish]⟩
    · exact .inl ⟨e, by simp [publish]⟩
    · exact .inr ⟨bytes, rfl, by simp [publish, hpublish]⟩

/-- **How `_publish_finalized` ends.** -/
theorem publication (faults : FinalizeFaults) (result : ExecutionResult R.toCodec) (d : Directory) :
    Publication E result d (publishFinalized E faults result d).1
      (publishFinalized E faults result d).2 := by
  obtain ⟨hstdout, hstderr, hsidecars⟩ := names_distinct
  have hkept : ∀ error, error ≠ FinalizeError.validationError →
      Publication E result d (.error error) (.directory d) :=
    fun error hne => .unpublished error d rfl fun h => absurd h hne
  unfold publishFinalized
  split
  · exact hkept _ nofun
  · exact hkept _ nofun
  · exact hkept _ nofun
  next record hnot hload _ =>
  have hstate : record.state ≠ .finalized := by
    rcases record with r | r | r
    · nofun
    · nofun
    · exact absurd rfl (hnot r)
  have hload := loadRecord_none hload
  split
  · next e d₁ hwrite =>
    refine .unpublished _ d₁ ?_ nofun
    have hother := writeSidecar_other (E := E) faults.stdout hstdout.symm
      result.payloadOutputs.stdout d
    rwa [hwrite] at hother
  next stdoutHash d₁ hwrite =>
  obtain ⟨rfl, hout⟩ := writeSidecar_ok hwrite
  have hmanifest : d₁ manifestName = d manifestName := by
    have hother := writeSidecar_other (E := E) faults.stdout hstdout.symm
      result.payloadOutputs.stdout d
    rwa [hwrite] at hother
  split
  · next e d₂ hwrite' =>
    refine .unpublished _ d₂ ?_ nofun
    have hother := writeSidecar_other (E := E) faults.stderr hstderr.symm
      result.payloadOutputs.stderr d₁
    rw [hwrite'] at hother
    exact hother.trans hmanifest
  next stderrHash d₂ hwrite' =>
  obtain ⟨rfl, herr⟩ := writeSidecar_ok hwrite'
  have hother := fun other (hne : other ≠ stderrSidecarName) =>
    writeSidecar_other (E := E) faults.stderr hne result.payloadOutputs.stderr d₁
  rw [hwrite'] at hother
  have hmanifest : d₂ manifestName = d manifestName :=
    (hother _ hstderr.symm).trans hmanifest
  have hout : d₂ stdoutSidecarName = some (.file (retained result.payloadOutputs.stdout)) :=
    (hother _ hsidecars).trans hout
  split
  · next e hrefused =>
    refine .unpublished _ d₂ hmanifest fun _ => ⟨record, hload, fun hids => ?_⟩
    unfold finalizedRecord at hrefused
    rw [dif_pos hids] at hrefused
    cases hrefused
  next finalized hfinalized =>
  rcases publish_directory (E := E) faults.publish (manifestPayload (.finalized finalized)) d₂ with
    ⟨e, hfailed⟩ | ⟨bytes, hbytes, hended, hleft⟩
  · rw [hfailed]
    exact .unpublished _ d₂ hmanifest nofun
  · rcases hpublish : publish E faults.publish (manifestPayload (.finalized finalized))
      (.directory d₂) with ⟨e | _, entry⟩
    all_goals
      rw [hpublish] at hleft
      obtain rfl : entry = _ := hleft
    · exact .published _ record finalized bytes d₂ (.inr ⟨e, rfl⟩) hload hstate hfinalized hbytes
        hout herr
    · exact .published _ record finalized bytes d₂ (.inl rfl) hload hstate hfinalized hbytes
        hout herr

/-! ### What is left, and what the receipt says -/

theorem finalize_unresolved {faults : FinalizeFaults} {run : FinalizableRun R}
    {result : ExecutionResult R.toCodec} {root : Root} {e : RecordLoadError}
    (h : resolve root run.reference = .error e) :
    (finalize E faults run result root).2 = root ∧ ∃ failures,
      (finalize E faults run result root).1 =
        some (.degraded run.executionId run.reference
          (durableState E faults.durableState run root) failures) := by
  simp only [finalize, h]
  exact ⟨trivial, _, rfl⟩

/-- The receipt by how publishing ended; the `ValidationError` of the record alone escapes. -/
theorem finalize_resolved {faults : FinalizeFaults} {run : FinalizableRun R}
    {result : ExecutionResult R.toCodec} {root : Root} {d : Directory}
    (h : resolve root run.reference = .ok d) :
    (finalize E faults run result root).2 =
        Function.update root run.reference.recordId (publishFinalized E faults result d).2 ∧
      ((publishFinalized E faults result d).1 = .ok () ∧
          (finalize E faults run result root).1 =
            some (.complete run.executionId run.reference) ∨
        (publishFinalized E faults result d).1 = .error .validationError ∨
        (∃ error, (publishFinalized E faults result d).1 = .error error) ∧ ∃ failures,
          (finalize E faults run result root).1 =
            some (.degraded run.executionId run.reference (durableState E faults.durableState run
              (Function.update root run.reference.recordId
                (publishFinalized E faults result d).2)) failures)) := by
  simp only [finalize, h]
  rcases publishFinalized E faults result d with ⟨(e | e | _) | _, left⟩
  · exact ⟨rfl, .inr (.inr ⟨⟨_, rfl⟩, _, rfl⟩)⟩
  · exact ⟨rfl, .inr (.inr ⟨⟨_, rfl⟩, _, rfl⟩)⟩
  · exact ⟨rfl, .inr (.inl rfl)⟩
  · exact ⟨rfl, .inl ⟨rfl, rfl⟩⟩

/-- **The state that a receipt reports** is the one that a later load reads. -/
theorem durableState_load {run : FinalizableRun R} {root : Root} {faults : LoadFaults}
    {record : RunRecord R} (h : load E faults root run.reference = .ok record) :
    durableState E none run root = record.state := by
  obtain ⟨d, hd, hload⟩ := loadRecord_of_load h
  simp only [durableState, hd, hload]

/-! ### What `finalize` leaves -/

/-- The finalized record of a result, after a record that was loaded. -/
def FinalizedOf (E : StoreCodec R) (record : RunRecord R) (result : ExecutionResult R.toCodec)
    (finalized : FinalizedRecord R) : Prop :=
  finalizedRecord record result (E.sidecarHash (retained result.payloadOutputs.stdout))
    (E.sidecarHash (retained result.payloadOutputs.stderr)) = .ok finalized

/-- What it says of the result, and of the two sidecars. -/
theorem FinalizedOf.eq {record : RunRecord R} {result : ExecutionResult R.toCodec}
    {finalized : FinalizedRecord R} (h : FinalizedOf E record result finalized) :
    finalized.result = resultRecord result ∧
      finalized.outputs.stdout =
        artifactRecord (sidecarPath "stdout.bin" stdout_isName) result.payloadOutputs.stdout
          (E.sidecarHash (retained result.payloadOutputs.stdout)) ∧
      finalized.outputs.stderr =
        artifactRecord (sidecarPath "stderr.bin" stderr_isName) result.payloadOutputs.stderr
          (E.sidecarHash (retained result.payloadOutputs.stderr)) := by
  unfold FinalizedOf finalizedRecord at h
  split_ifs at h
  cases h
  exact ⟨rfl, rfl, rfl⟩

/-- A sidecar's path is its name. -/
theorem asPosix_sidecarPath (name : String)
    (h : text name ∉ [[], [dot], dotDot] ∧ slash ∉ text name := by decide +kernel) :
    (sidecarPath name h).1.asPosix = text name := by
  have hne : [text name] ≠ [] := nofun
  simp [PurePosixPath.asPosix, spellPath, sidecarPath, PathRoot.spelling]

theorem ofStr_sidecarPath (name : String)
    (h : text name ∉ [[], [dot], dotDot] ∧ slash ∉ text name := by decide +kernel) :
    PurePosixPath.ofStr (text name) = (sidecarPath name h).1 := by
  rw [← asPosix_sidecarPath name h]
  exact PurePosixPath.ofStr_asPosix _

/-! ### Surrogates -/

/-- The outcome, the attribution and the outputs of a result hold no lone surrogate. -/
structure ScalarResult {C : Codec} (result : ExecutionResult C) : Prop where
  outcome : (executionOutcome.encode result.outcome).scalar = true
  attribution : (executionAttribution.encode result.attribution).scalar = true
  protocolOutputs : ((Form.list (identityDocument C)).encode result.protocolOutputs).scalar = true

theorem scalar_executionMeasurements (m : ExecutionMeasurements) :
    (executionMeasurements.encode m).scalar = true :=
  (scalarMembers_cons "started_at" _ _).mpr ⟨scalar_str (isScalar_serializeUtc m.startedAt),
    (scalarMembers_cons "finished_at" _ _).mpr ⟨scalar_str (isScalar_serializeUtc m.finishedAt),
      (scalarMembers_cons "duration_ns" _ _).mpr ⟨rfl,
        (scalarMembers_cons "teardown_duration_ns" _ _).mpr ⟨rfl,
          (scalarMembers_cons "input_bytes" _ _).mpr ⟨rfl,
            scalarMembers_singleton "protocol_bytes_received" rfl⟩⟩⟩⟩⟩

theorem scalar_executionId (id : ExecutionId) : (executionId.encode id).scalar = true :=
  (scalarMembers_cons "job_id" _ _).mpr ⟨scalar_str id.jobId.isScalar_spelling,
    scalarMembers_singleton "attempt_id" (scalar_str id.attemptId.isScalar_spelling)⟩

theorem scalar_payloadOutputRecords (o : PayloadOutputRecords) :
    (payloadOutputRecords.encode o).scalar = true := by
  have hstream : ∀ s : RetainedPayloadStreamRecord,
      (retainedPayloadStreamRecord.encode s).scalar = true := fun s =>
    (scalarMembers_cons "head_bytes" _ _).mpr ⟨rfl,
      (scalarMembers_cons "tail_bytes" _ _).mpr ⟨rfl,
        (scalarMembers_cons "produced_bytes" _ _).mpr ⟨rfl,
          scalarMembers_singleton "dropped_bytes" rfl⟩⟩⟩
  exact (scalarMembers_cons "stdout" _ _).mpr ⟨hstream o.stdout,
    scalarMembers_singleton "stderr" (hstream o.stderr)⟩

/-- Of a result, only its outcome, attribution and outputs can hold a surrogate. -/
theorem scalar_executionResultRecord_iff {C : Codec} {result : ExecutionResultRecord C} :
    ((executionResultRecord C).encode result).scalar = true ↔
      (executionOutcome.encode result.outcome).scalar = true ∧
        (executionAttribution.encode result.attribution).scalar = true ∧
        ((Form.list (identityDocument C)).encode result.protocolOutputs).scalar = true := by
  have hmembers : (executionResultRecord C).encode result =
      .obj [(text "execution_id", executionId.encode result.executionId),
        (text "outcome", executionOutcome.encode result.outcome),
        (text "attribution", executionAttribution.encode result.attribution),
        (text "protocol_outputs", (Form.list (identityDocument C)).encode result.protocolOutputs),
        (text "payload_outputs", payloadOutputRecords.encode result.payloadOutputs),
        (text "measurements", executionMeasurements.encode result.measurements)] := rfl
  rw [hmembers, scalar_object, scalarMembers_cons, scalarMembers_cons, scalarMembers_cons,
    scalarMembers_cons, scalarMembers_cons, scalarMembers_cons]
  constructor
  · rintro ⟨-, houtcome, hattribution, houtputs, -⟩
    exact ⟨houtcome, hattribution, houtputs⟩
  · rintro ⟨houtcome, hattribution, houtputs⟩
    exact ⟨scalar_executionId _, houtcome, hattribution, houtputs, scalar_payloadOutputRecords _,
      scalar_executionMeasurements _, rfl⟩

theorem scalar_artifactRecord (name : String)
    (h : text name ∉ [[], [dot], dotDot] ∧ slash ∉ text name) (stream : RetainedPayloadStream)
    {digest : Sha256Digest R.toCodec} (hdigest : digest.1.Scalar) :
    ((outputArtifactRecord R.toCodec).encode
      (artifactRecord (sidecarPath name h) stream digest)).scalar = true := by
  have hpath : ∀ c ∈ (sidecarPath name h).1.asPosix, IsScalar c := by
    rw [asPosix_sidecarPath name h]
    exact fun c hc => isScalar_of_mem_text hc
  exact (scalarMembers_cons "relative_path" _ _).mpr ⟨scalar_str hpath,
    (scalarMembers_cons "size_bytes" _ _).mpr ⟨rfl,
      scalarMembers_singleton "sha256" (scalar_str hdigest)⟩⟩

/-- The header and the declaration of a record without surrogates hold none. -/
theorem scalar_preparedFields {record : RunRecord R} (h : (manifestPayload record).scalar = true) :
    scalarMembers ((preparedFields R).encode (recordHeader record, recordDeclaration record)) =
      true := by
  rcases record with r | r | r
  · exact ((scalarMembers_cons "state" _ _).mp h).2
  · exact (scalarMembers_append.mp ((scalarMembers_cons "state" _ _).mp h).2).1
  · exact (scalarMembers_append.mp ((scalarMembers_cons "state" _ _).mp h).2).1

/-- The members of a finalized record. -/
theorem scalar_finalized_iff {finalized : FinalizedRecord R} :
    (manifestPayload (.finalized finalized)).scalar = true ↔
      scalarMembers ((preparedFields R).encode (finalized.header, finalized.declaration)) = true ∧
        ((executionResultRecord R.toCodec).encode finalized.result).scalar = true ∧
        ((outputArtifactRecords R.toCodec).encode finalized.outputs).scalar = true := by
  have hmembers : manifestPayload (.finalized finalized) =
      .obj ((text "state", .str (text "finalized")) ::
        ((preparedFields R).encode (finalized.header, finalized.declaration) ++
          [(text "result", (executionResultRecord R.toCodec).encode finalized.result),
            (text "outputs", (outputArtifactRecords R.toCodec).encode finalized.outputs)])) := rfl
  have htag : (Json.str (text "finalized")).scalar = true :=
    scalar_str fun c hc => isScalar_of_mem_text hc
  rw [hmembers, scalar_object, scalarMembers_cons, scalarMembers_append, scalarMembers_cons,
    scalarMembers_cons, and_iff_right htag]
  exact ⟨fun h => ⟨h.1, h.2.1, h.2.2.1⟩, fun h => ⟨h.1, h.2.1, h.2.2, rfl⟩⟩

/-- The finalized record of a result holds no surrogate exactly if the result holds none. -/
theorem FinalizedOf.scalar_iff (hE : E.ReadsBack) {record : RunRecord R}
    {result : ExecutionResult R.toCodec} {finalized : FinalizedRecord R}
    (hrecord : (manifestPayload record).scalar = true) (h : FinalizedOf E record result finalized) :
    (manifestPayload (.finalized finalized)).scalar = true ↔ ScalarResult result := by
  unfold FinalizedOf finalizedRecord at h
  split_ifs at h
  cases h
  have houtputs : ((outputArtifactRecords R.toCodec).encode
      ⟨artifactRecord (sidecarPath "stdout.bin" stdout_isName) result.payloadOutputs.stdout
          (E.sidecarHash (retained result.payloadOutputs.stdout)),
        artifactRecord (sidecarPath "stderr.bin" stderr_isName) result.payloadOutputs.stderr
          (E.sidecarHash (retained result.payloadOutputs.stderr))⟩).scalar = true :=
    (scalarMembers_cons "stdout" _ _).mpr ⟨scalar_artifactRecord _ _ _ (hE.digest _),
      scalarMembers_singleton "stderr" (scalar_artifactRecord _ _ _ (hE.digest _))⟩
  rw [scalar_finalized_iff, scalar_executionResultRecord_iff]
  constructor
  · rintro ⟨-, ⟨houtcome, hattribution, hdocuments⟩, -⟩
    exact ⟨houtcome, hattribution, hdocuments⟩
  · intro hscalar
    exact ⟨scalar_preparedFields hrecord,
      ⟨hscalar.outcome, hscalar.attribution, hscalar.protocolOutputs⟩, houtputs⟩

/-! ### A finalized record with its files -/
/-- A sidecar that holds what a stream retained is verified. -/
theorem verifySidecar_retained {d : Directory} {name : Str} {stream : RetainedPayloadStream}
    {path : {path : PurePosixPath // NormalizedRelative path}}
    (hpath : PurePosixPath.ofStr name = path.1)
    (hfile : d name = some (.file (retained stream))) :
    verifySidecar E none d name (artifactRecord path stream (E.sidecarHash (retained stream)))
      (retainedStreamRecord stream) = .ok () := by
  unfold verifySidecar
  simp [hpath, hfile, artifactRecord, retainedStreamRecord, retained]

/-- The files of a finalized record in its directory. -/
structure Recorded (E : StoreCodec R) (result : ExecutionResult R.toCodec)
    (finalized : FinalizedRecord R) (d : Directory) : Prop where
  manifest : ∃ bytes, E.publishManifest (manifestPayload (.finalized finalized)) = .ok bytes ∧
    d manifestName = some (.file bytes)
  finalizedOf : ∃ record, FinalizedOf E record result finalized
  stdout : d stdoutSidecarName = some (.file (retained result.payloadOutputs.stdout))
  stderr : d stderrSidecarName = some (.file (retained result.payloadOutputs.stderr))

/-- Its manifest is loaded, if it holds no surrogate. -/
theorem Recorded.loaded (hE : E.ReadsBack) {result : ExecutionResult R.toCodec}
    {finalized : FinalizedRecord R} {d : Directory}
    (hscalar : (manifestPayload (.finalized finalized)).scalar = true)
    (h : Recorded E result finalized d) :
    loadRecord E none (.directory d) = .ok (.finalized finalized) := by
  obtain ⟨bytes, hbytes, hfile⟩ := h.manifest
  have hsame : d.withManifest bytes = d := by
    rw [Directory.withManifest, ← hfile, Function.update_eq_self]
  rw [← hsame]
  exact loadRecord_published hE hscalar hbytes d

/-- Its sidecars are verified. -/
theorem Recorded.verified {result : ExecutionResult R.toCodec} {finalized : FinalizedRecord R}
    {d : Directory} (h : Recorded E result finalized d) :
    verifySidecars E {} d finalized = .ok () := by
  obtain ⟨record, hof⟩ := h.finalizedOf
  obtain ⟨hresult, hstdout, hstderr⟩ := hof.eq
  have hout : verifySidecar E none d stdoutSidecarName finalized.outputs.stdout
      finalized.result.payloadOutputs.stdout = .ok () := by
    rw [hstdout, hresult]
    exact verifySidecar_retained (ofStr_sidecarPath "stdout.bin") h.stdout
  have herr : verifySidecar E none d stderrSidecarName finalized.outputs.stderr
      finalized.result.payloadOutputs.stderr = .ok () := by
    rw [hstderr, hresult]
    exact verifySidecar_retained (ofStr_sidecarPath "stderr.bin") h.stderr
  have hsteps : verifySidecars E {} d finalized =
      (verifySidecar E none d stdoutSidecarName finalized.outputs.stdout
        finalized.result.payloadOutputs.stdout >>= fun _ =>
      verifySidecar E none d stderrSidecarName finalized.outputs.stderr
        finalized.result.payloadOutputs.stderr) := rfl
  rw [hsteps, hout, ok_bind, herr]

/-- A finalized record with its files is loaded, if it holds no surrogate. -/
theorem Recorded.load (hE : E.ReadsBack) {result : ExecutionResult R.toCodec}
    {finalized : FinalizedRecord R} {root : Root} {reference : RunRecordReference} {d : Directory}
    (hscalar : (manifestPayload (.finalized finalized)).scalar = true)
    (hd : resolve root reference = .ok d) (h : Recorded E result finalized d) :
    load E {} root reference = .ok (.finalized finalized) := by
  unfold Store.load
  rw [hd, ok_bind, h.loaded hE hscalar, ok_bind]
  dsimp only
  rw [h.verified, ok_bind]
  rfl

/-- An artifact of a finalized record whose file holds what a stream retained is read. -/
theorem readArtifact_retained {finalized : FinalizedRecord R} {root : Root}
    {reference : RunRecordReference} {d : Directory} {stream : RetainedPayloadStream}
    {artifact : OutputArtifactRecord R.toCodec} {name : Str} {maxBytes : ℕ}
    (hd : resolve root reference = .ok d)
    (hloaded : loadRecord E none (.directory d) = .ok (.finalized finalized))
    (howned : artifact = finalized.outputs.stdout ∨ artifact = finalized.outputs.stderr)
    (hname : artifact.relativePath.1.asPosix = name)
    (hsize : artifact.sizeBytes = (retained stream).length)
    (hsha : artifact.sha256 = E.sidecarHash (retained stream))
    (hfile : d name = some (.file (retained stream))) (hmax : artifact.sizeBytes ≤ maxBytes) :
    readArtifact E none root reference artifact maxBytes = .ok (retained stream) := by
  have hown : ¬ (artifact ≠ finalized.outputs.stdout ∧ artifact ≠ finalized.outputs.stderr) := by
    rintro ⟨hout, herr⟩
    exact howned.elim hout herr
  unfold readArtifact
  rw [hd, ok_bind, hloaded, ok_bind]
  dsimp only
  rw [if_neg hown, if_neg (Nat.not_lt.mpr hmax), hname, hfile]
  dsimp only
  rw [if_pos ⟨hsize.symm, hsha.symm⟩]
  rfl

/-- What was published is recorded. -/
theorem Recorded.published {record : RunRecord R}
    {result : ExecutionResult R.toCodec} {finalized : FinalizedRecord R} {bytes : Bytes}
    {d : Directory} (hof : FinalizedOf E record result finalized)
    (hbytes : E.publishManifest (manifestPayload (.finalized finalized)) = .ok bytes)
    (hout : d stdoutSidecarName = some (.file (retained result.payloadOutputs.stdout)))
    (herr : d stderrSidecarName = some (.file (retained result.payloadOutputs.stderr))) :
    Recorded E result finalized (d.withManifest bytes) where
  manifest := ⟨bytes, hbytes, Function.update_self ..⟩
  finalizedOf := ⟨record, hof⟩
  stdout := (Function.update_of_ne names_distinct.1 _ _).trans hout
  stderr := (Function.update_of_ne names_distinct.2.1 _ _).trans herr

/-- What a call of `finalize` leaves, and that its receipt says so. -/
structure Truthful (E : StoreCodec R) (run : FinalizableRun R) (result : ExecutionResult R.toCodec)
    (root : Root) (receipt : RealRecordReceipt) (root' : Root) : Prop where
  /-- The manifest is the one before the call, or the finalized record of the result. -/
  manifest : (root' run.reference.recordId).manifest = (root run.reference.recordId).manifest ∨
    ∃ d finalized, resolve root' run.reference = .ok d ∧ Recorded E result finalized d
  others : ∀ other ≠ run.reference.recordId, root' other = root other
  /-- A degraded receipt has the state that a later load reads. -/
  degraded : ∀ failures latest,
    receipt = .degraded run.executionId run.reference latest failures →
    ∀ faults record, load E faults root' run.reference = .ok record → record.state = latest
  /-- After a complete receipt the result is loaded, and its outputs are read. -/
  complete : receipt = .complete run.executionId run.reference →
    ∃ finalized, load E {} root' run.reference = .ok (.finalized finalized) ∧
      finalized.result.outcome = result.outcome ∧
      finalized.result.attribution = result.attribution ∧
      finalized.result.protocolOutputs = result.protocolOutputs ∧
      ∀ maxBytes,
        (finalized.outputs.stdout.sizeBytes ≤ maxBytes →
          readArtifact E none root' run.reference finalized.outputs.stdout maxBytes =
            .ok (result.payloadOutputs.stdout.head ++ result.payloadOutputs.stdout.tail)) ∧
        (finalized.outputs.stderr.sizeBytes ≤ maxBytes →
          readArtifact E none root' run.reference finalized.outputs.stderr maxBytes =
            .ok (result.payloadOutputs.stderr.head ++ result.payloadOutputs.stderr.tail))
  kind : receipt = .complete run.executionId run.reference ∨
    ∃ latest failures, receipt = .degraded run.executionId run.reference latest failures

/-- What a complete receipt promises holds of a record with its files. -/
theorem Recorded.read (hE : E.ReadsBack) {result : ExecutionResult R.toCodec}
    {finalized : FinalizedRecord R} {root : Root} {reference : RunRecordReference} {d : Directory}
    (hscalar : (manifestPayload (.finalized finalized)).scalar = true)
    (hd : resolve root reference = .ok d) (h : Recorded E result finalized d) (maxBytes : ℕ) :
    (finalized.outputs.stdout.sizeBytes ≤ maxBytes →
        readArtifact E none root reference finalized.outputs.stdout maxBytes =
          .ok (retained result.payloadOutputs.stdout)) ∧
      (finalized.outputs.stderr.sizeBytes ≤ maxBytes →
        readArtifact E none root reference finalized.outputs.stderr maxBytes =
          .ok (retained result.payloadOutputs.stderr)) := by
  obtain ⟨record, hof⟩ := h.finalizedOf
  obtain ⟨-, hstdout, hstderr⟩ := hof.eq
  have hloaded := h.loaded hE hscalar
  constructor
  · refine readArtifact_retained hd hloaded (.inl rfl) ?_ ?_ ?_ h.stdout
    · rw [hstdout]
      exact asPosix_sidecarPath "stdout.bin"
    · rw [hstdout]
      exact List.length_append.symm
    · rw [hstdout]
      rfl
  · refine readArtifact_retained hd hloaded (.inr rfl) ?_ ?_ ?_ h.stderr
    · rw [hstderr]
      exact asPosix_sidecarPath "stderr.bin"
    · rw [hstderr]
      exact List.length_append.symm
    · rw [hstderr]
      rfl

theorem entry_of_resolve {root : Root} {reference : RunRecordReference} {d : Directory}
    (h : resolve root reference = .ok d) : root reference.recordId = .directory d := by
  unfold resolve at h
  split at h <;> cases h
  assumption

/-- A degraded receipt is truthful when its state was read without a failure. -/
theorem Truthful.of_degraded {run : FinalizableRun R} {result : ExecutionResult R.toCodec}
    {root root' : Root} {failures : List RecordingFailure}
    (hmanifest : (root' run.reference.recordId).manifest =
        (root run.reference.recordId).manifest ∨
      ∃ d finalized, resolve root' run.reference = .ok d ∧ Recorded E result finalized d)
    (hothers : ∀ other ≠ run.reference.recordId, root' other = root other) :
    Truthful E run result root
      (.degraded run.executionId run.reference (durableState E none run root') failures) root' where
  manifest := hmanifest
  others := hothers
  degraded failures latest hreceipt faults record hload := by
    cases hreceipt
    exact (durableState_load hload).symm
  complete := nofun
  kind := .inr ⟨_, _, rfl⟩

/-- What publishing leaves: the manifest as it was, or the recorded result. -/
theorem recorded_of_publication (hE : E.ReadsBack) {result : ExecutionResult R.toCodec}
    {d : Directory} {ended : Except FinalizeError Unit} {left : Entry}
    (h : Publication E result d ended left) :
    (∃ error, ended = .error error) ∧ left.manifest = d manifestName ∨
      ∃ d' finalized, left = .directory d' ∧ Recorded E result finalized d' ∧
        (ScalarResult result → (manifestPayload (.finalized finalized)).scalar = true) := by
  cases h with
  | unpublished error d' hsame _ => exact .inl ⟨⟨error, rfl⟩, hsame⟩
  | published _ record finalized bytes d' _ hload _ hof hbytes hout herr =>
    exact .inr ⟨_, finalized, rfl, .published hof hbytes hout herr,
      (FinalizedOf.scalar_iff hE (scalar_of_loadRecord hE hload) hof).mpr⟩

/-- The steps of a call all succeed: none fails of its own, the record loads and is not finalized, and
the finalized one is not refused. -/
def Finalizes (E : StoreCodec R) (faults : FinalizeFaults) (run : FinalizableRun R)
    (result : ExecutionResult R.toCodec) (root : Root) : Prop :=
  faults = {} ∧ ∃ d record finalized bytes, resolve root run.reference = .ok d ∧
    loadRecord E none (.directory d) = .ok record ∧ record.state ≠ .finalized ∧
    FinalizedOf E record result finalized ∧
    E.publishManifest (manifestPayload (.finalized finalized)) = .ok bytes

/-- Where they do, the record is replaced by the finalized one. -/
theorem publishFinalized_left {record : RunRecord R} {result : ExecutionResult R.toCodec}
    {finalized : FinalizedRecord R} {bytes : Bytes} {d : Directory}
    (hload : loadRecord E none (.directory d) = .ok record) (hstate : record.state ≠ .finalized)
    (hof : FinalizedOf E record result finalized)
    (hbytes : E.publishManifest (manifestPayload (.finalized finalized)) = .ok bytes) :
    ∃ d' : Directory,
      publishFinalized E {} result d = (.ok (), .directory (d'.withManifest bytes)) := by
  unfold FinalizedOf retained at hof
  unfold publishFinalized
  rcases record with r | r | r
  · simp only [hload, writeSidecar, hof, publish, hbytes]
    exact ⟨_, rfl⟩
  · simp only [hload, writeSidecar, hof, publish, hbytes]
    exact ⟨_, rfl⟩
  · exact absurd rfl hstate

/-- A publication without an error had no failure. -/
theorem faults_of_published {faults : FinalizeFaults} {result : ExecutionResult R.toCodec}
    {d : Directory} (hreload : faults.durableState = none)
    (h : (publishFinalized E faults result d).1 = .ok ()) : faults = {} := by
  obtain ⟨load, openDirectory, stdout, stderr, publish, durableState⟩ := faults
  obtain rfl : durableState = none := hreload
  rcases load with _ | e
  swap
  · obtain ⟨error, herror⟩ := loadRecord_fault (E := E) e (.directory d)
    simp [publishFinalized, herror] at h
  unfold publishFinalized at h
  dsimp only at h
  split at h
  · cases h
  · cases h
  · cases h
  next record _ _ =>
  split at h
  · cases h
  next stdoutHash d₁ hwrite =>
  obtain rfl : stdout = none := fault_of_writeSidecar hwrite
  split at h
  · cases h
  next stderrHash d₂ hwrite' =>
  obtain rfl : stderr = none := fault_of_writeSidecar hwrite'
  split at h
  · cases h
  split at h
  · cases h
  next hpublished =>
  obtain rfl : publish = none := fault_of_publish hpublished
  rfl

/-- A result of the run is not refused as a record. -/
theorem not_validationError {result : ExecutionResult R.toCodec} {d : Directory} {left : Entry}
    (hvalid : ∀ record, loadRecord E none (.directory d) = .ok record →
      (recordDeclaration record).executionId = result.executionId)
    (h : Publication E result d (.error .validationError) left) : False := by
  cases h with
  | unpublished _ d' _ hrefused =>
    obtain ⟨record, hload, hne⟩ := hrefused rfl
    exact hne (hvalid record hload)
  | published _ _ _ _ _ hended =>
    rcases hended with he | ⟨e, he⟩ <;> cases he

/-- A complete receipt of a result without surrogates is kept. -/
theorem Truthful.of_complete (hE : E.ReadsBack) {run : FinalizableRun R}
    {result : ExecutionResult R.toCodec} {root root' : Root} {d : Directory}
    {finalized : FinalizedRecord R}
    (hothers : ∀ other ≠ run.reference.recordId, root' other = root other)
    (hd : resolve root' run.reference = .ok d) (hrec : Recorded E result finalized d)
    (hscalar : (manifestPayload (.finalized finalized)).scalar = true) :
    Truthful E run result root (.complete run.executionId run.reference) root' where
  manifest := .inr ⟨d, finalized, hd, hrec⟩
  others := hothers
  degraded _ _ h := by cases h
  complete _ := by
    obtain ⟨record, hof⟩ := hrec.finalizedOf
    have hresult := hof.eq.1
    exact ⟨finalized, hrec.load hE hscalar hd, by rw [hresult]; rfl, by rw [hresult]; rfl,
      by rw [hresult]; rfl, hrec.read hE hscalar hd⟩
  kind := .inl rfl

/-- **`finalize` is truthful wherever it fails**, for a result of the run that its record declares; and
where it does not fail, if the result holds no surrogate. -/
theorem finalize_truthful (hE : E.ReadsBack) (faults : FinalizeFaults)
    (hreload : faults.durableState = none) (run : FinalizableRun R)
    (result : ExecutionResult R.toCodec) (root : Root)
    (hvalid : ∀ d record, resolve root run.reference = .ok d →
      loadRecord E none (.directory d) = .ok record →
      (recordDeclaration record).executionId = result.executionId)
    (h : ScalarResult result ∨ ¬ Finalizes E faults run result root) :
    ∃ receipt, (finalize E faults run result root).1 = some receipt ∧
      Truthful E run result root receipt (finalize E faults run result root).2 := by
  cases hd : resolve root run.reference with
  | error e =>
    obtain ⟨hroot, failures, hreceipt⟩ :=
      @finalize_unresolved R E faults run result root e hd
    rw [hroot, hreload] at *
    exact ⟨_, hreceipt, .of_degraded (.inl rfl) fun _ _ => rfl⟩
  | ok d =>
    obtain ⟨hroot, hends⟩ := @finalize_resolved R E faults run result root d hd
    have hpublication := publication (E := E) faults result d
    have hfaults := @faults_of_published _ E faults result d hreload
    rw [hroot]
    generalize publishFinalized E faults result d = published at hends hpublication hfaults
    obtain ⟨ended, left⟩ := published
    dsimp only at hends hpublication hfaults
    have hothers : ∀ other ≠ run.reference.recordId,
        Function.update root run.reference.recordId left other = root other :=
      fun other hne => Function.update_of_ne hne _ _
    have hresolve : ∀ d', left = .directory d' →
        resolve (Function.update root run.reference.recordId left) run.reference = .ok d' := by
      rintro d' rfl
      simp only [resolve, Function.update_self]
    have hbefore : (root run.reference.recordId).manifest = d manifestName := by
      rw [entry_of_resolve hd]
      rfl
    have hmanifest : (Function.update root run.reference.recordId left
          run.reference.recordId).manifest = (root run.reference.recordId).manifest ∨
        ∃ d finalized, resolve (Function.update root run.reference.recordId left) run.reference =
          .ok d ∧ Recorded E result finalized d := by
      rcases recorded_of_publication hE hpublication with
        ⟨-, hsame⟩ | ⟨d', finalized, hleft, hrec, -⟩
      · rw [Function.update_self, hsame, hbefore]
        exact .inl rfl
      · exact .inr ⟨d', finalized, hresolve d' hleft, hrec⟩
    rcases hends with ⟨rfl, hreceipt⟩ | rfl | ⟨-, failures, hreceipt⟩
    · have hscalar : ScalarResult result := by
        refine h.resolve_right (not_not.mpr ⟨hfaults rfl, ?_⟩)
        cases hpublication with
        | published _ record finalized bytes _ _ hload hstate hof hbytes _ _ =>
          exact ⟨d, record, finalized, bytes, hd, hload, hstate, hof, hbytes⟩
      rcases recorded_of_publication hE hpublication with
        ⟨⟨error, he⟩, -⟩ | ⟨d', finalized, hleft, hrec, hload⟩
      · cases he
      · exact ⟨_, hreceipt, .of_complete hE hothers (hresolve d' hleft) hrec (hload hscalar)⟩
    · exact (not_validationError (fun record => hvalid d record hd) hpublication).elim
    · rw [hreload] at hreceipt
      exact ⟨_, hreceipt, .of_degraded hmanifest hothers⟩

/-- A call whose steps all succeed gives a complete receipt. -/
theorem complete_of_finalizes {faults : FinalizeFaults} {run : FinalizableRun R}
    {result : ExecutionResult R.toCodec} {root : Root} (h : Finalizes E faults run result root) :
    (finalize E faults run result root).1 = some (.complete run.executionId run.reference) := by
  obtain ⟨rfl, d, record, finalized, bytes, hd, hload, hstate, hof, hbytes⟩ := h
  obtain ⟨d', hleft⟩ := publishFinalized_left hload hstate hof hbytes
  obtain ⟨-, ⟨-, hreceipt⟩ | herror | ⟨⟨error, herror⟩, -⟩⟩ :=
    @finalize_resolved R E {} run result root d hd
  · exact hreceipt
  · rw [hleft] at herror
    cases herror
  · rw [hleft] at herror
    cases herror

/-- **When `finalize` is truthful**, for a result of the run that its record declares: if the result
holds no surrogate, or some step of the call fails. -/
theorem finalize_truthful_iff (hE : E.ReadsBack) (faults : FinalizeFaults)
    (hreload : faults.durableState = none) (run : FinalizableRun R)
    (result : ExecutionResult R.toCodec) (root : Root)
    (hvalid : ∀ d record, resolve root run.reference = .ok d →
      loadRecord E none (.directory d) = .ok record →
      (recordDeclaration record).executionId = result.executionId) :
    (∃ receipt, (finalize E faults run result root).1 = some receipt ∧
        Truthful E run result root receipt (finalize E faults run result root).2) ↔
      ScalarResult result ∨ ¬ Finalizes E faults run result root := by
  refine ⟨?_, finalize_truthful hE faults hreload run result root hvalid⟩
  rintro ⟨receipt, hreceipt, htruthful⟩
  by_cases hfinalizes : Finalizes E faults run result root
  swap
  · exact .inr hfinalizes
  -- the receipt is complete, so the result was loaded
  obtain rfl := Option.some.inj (hreceipt.symm.trans (complete_of_finalizes hfinalizes))
  obtain ⟨finalized, hload, houtcome, hattribution, houtputs, -⟩ := htruthful.complete rfl
  have hrecord := (scalar_finalized_iff.mp (scalar_of_load hE hload)).2.1
  rw [scalar_executionResultRecord_iff, houtcome, hattribution, houtputs] at hrecord
  exact .inl ⟨hrecord.1, hrecord.2.1, hrecord.2.2⟩

/-! ### The engine's receipt -/

/-- `_mark_running`: what the store's `mark_running` came to, as the run that is completed and the
failures before. -/
def markRunningOf (prepared : RecordedRun R) :
    Except ExecutorFailureCode (RecordedRun R) → FinalizableRun R × List RecordingFailure
  | .ok running => (.running running, [])
  | .error code => (.prepared prepared, [.failureCode (Text.lit "mark_running") none code])

/-- The failures of a `finalize`. -/
def finalizeFailures : Except ExecutorFailureCode RealRecordReceipt → List RecordingFailure
  | .ok receipt => receipt.failures
  | .error code => [.failureCode (Text.lit "finalize") none code]

/-- What a completion says of an attempt whose run was marked, or not, and finalized, or not. -/
structure ReceiptOf (store : Finalize R) (marked : FinalizableRun R × List RecordingFailure)
    (attempt : Attempt R.toCodec) (completed : CompletedExecution R.toCodec) : Prop where
  outcome : completed.result.outcome = attempt.outcome
  /-- It is complete exactly when neither failed. -/
  complete_iff : (∃ executionId reference,
      completed.recordReceipt = .real (.complete executionId reference)) ↔
    marked.2 = [] ∧ ∃ executionId reference,
      store.finalize marked.1 completed.result = .ok (.complete executionId reference)
  /-- It lists the failures of both, in order. -/
  failures : ∃ receipt, completed.recordReceipt = .real receipt ∧
    receipt.failures = marked.2 ++ finalizeFailures (store.finalize marked.1 completed.result)

theorem finalizedReceipt_complete_iff (store : Finalize R) (run : FinalizableRun R)
    (result : ExecutionResult R.toCodec) (prior : List RecordingFailure) :
    (∃ executionId reference,
        finalizedReceipt store run result prior = .complete executionId reference) ↔
      prior = [] ∧ ∃ executionId reference,
        store.finalize run result = .ok (.complete executionId reference) := by
  unfold finalizedReceipt
  cases store.finalize run result with
  | error code => simp [degradedFromFailure]
  | ok receipt =>
    by_cases hprior : prior = []
    · simp [hprior]
    · simp [hprior]

theorem failures_finalizedReceipt (store : Finalize R) (run : FinalizableRun R)
    (result : ExecutionResult R.toCodec) (prior : List RecordingFailure) :
    (finalizedReceipt store run result prior).failures =
      prior ++ finalizeFailures (store.finalize run result) := by
  unfold finalizedReceipt
  cases store.finalize run result with
  | error code => rfl
  | ok receipt =>
    by_cases hprior : prior = []
    · simp [hprior, finalizeFailures]
    · simp [hprior, finalizeFailures, RealRecordReceipt.failures]

/-- **What the engine completes**: the outcome of the attempt, with a receipt of both operations. -/
theorem receiptOf_complete {store : Finalize R} {marked : FinalizableRun R × List RecordingFailure}
    {attempt : Attempt R.toCodec} {clock : Readings} {completed : CompletedExecution R.toCodec}
    (h : complete store marked.1 { attempt with recordingFailures := marked.2 } clock = .ok completed) :
    ReceiptOf store marked attempt completed := by
  obtain ⟨measurements, -, h⟩ := bind_ok h
  obtain ⟨result, hresult, h⟩ := bind_ok h
  unfold ExecutionResult.new at hresult
  split_ifs at hresult
  cases hresult
  unfold CompletedExecution.new at h
  split_ifs at h
  cases h
  refine ⟨rfl, ?_, _, rfl, failures_finalizedReceipt ..⟩
  rw [← finalizedReceipt_complete_iff]
  simp only [RecordReceipt.real.injEq]

/-- **Finalization under faults.** Wherever `finalize` fails, the manifest is the one before the
call or the finalized record of the result, and the receipt is truthful; where no step fails, exactly
if the result holds no lone surrogate. And whatever the store, the engine's receipt is complete exactly
when marking and finalizing succeeded, lists what failed of them in order, and leaves the outcome of the
attempt alone. -/
theorem finalize_faults (hE : E.ReadsBack) (faults : FinalizeFaults)
    (hreload : faults.durableState = none) (run : FinalizableRun R)
    (result : ExecutionResult R.toCodec) (root : Root)
    (hvalid : ∀ d record, resolve root run.reference = .ok d →
      loadRecord E none (.directory d) = .ok record →
      (recordDeclaration record).executionId = result.executionId) :
    ((∃ receipt, (finalize E faults run result root).1 = some receipt ∧
        Truthful E run result root receipt (finalize E faults run result root).2) ↔
      ScalarResult result ∨ ¬ Finalizes E faults run result root) ∧
    ∀ (store : Finalize R) (prepared : RecordedRun R)
      (marked : Except ExecutorFailureCode (RecordedRun R)) (attempt : Attempt R.toCodec)
      (clock : Readings) (completed : CompletedExecution R.toCodec),
      complete store (markRunningOf prepared marked).1
          { attempt with recordingFailures := (markRunningOf prepared marked).2 } clock =
        .ok completed →
      ReceiptOf store (markRunningOf prepared marked) attempt completed :=
  ⟨finalize_truthful_iff hE faults hreload run result root hvalid,
    fun _ _ _ _ _ _ h => receiptOf_complete h⟩

/-- The result of a run with this outcome, at the epoch, without outputs. -/
def resultAtEpoch (outcome : ExecutionOutcome)
    (h : OutputCountMatches outcome ([] : List (IdentityDocumentField plainCodec)) := by trivial) :
    ExecutionResult plainCodec where
  executionId := ⟨nilUuid, nilUuid⟩
  outcome := outcome
  attribution := attributeOutcome outcome
  protocolOutputs := []
  payloadOutputs := emptyPayloadOutputs
  measurements := ⟨epoch, epoch, 0, 0, 0, 0, epoch_not_before⟩
  protocol_output_count_must_match_outcome := h

/-- The result of a run that exited with zero. -/
def leastResult : ExecutionResult plainCodec := resultAtEpoch (.exited 0)

/-- A publication that fails after the replacement. -/
def lateFault : FinalizeFaults where
  publish := some (.after readFailure)

/-- The record of `leastRun` is the one that is loaded. -/
theorem leastRecord_declares {d : Directory} {record : RunRecord plainRecords}
    (hd : resolve (rootOf (.prepared leastRecord)) leastRun.reference = .ok d)
    (hload : loadRecord plainStore none (.directory d) = .ok record) :
    record = .prepared leastRecord := by
  cases hd
  rw [loadRecord_published plainStore_readsBack leastRecord_scalar leastRecord_publishes] at hload
  exact (Except.ok.inj hload).symm

theorem lateFault_truthful :
    ∃ receipt, (finalize plainStore lateFault (.prepared leastRun) leastResult
        (rootOf (.prepared leastRecord))).1 = some receipt ∧
      Truthful plainStore (.prepared leastRun) leastResult (rootOf (.prepared leastRecord)) receipt
        (finalize plainStore lateFault (.prepared leastRun) leastResult
          (rootOf (.prepared leastRecord))).2 := by
  refine (finalize_faults plainStore_readsBack lateFault rfl (.prepared leastRun) leastResult
    (rootOf (.prepared leastRecord)) fun d record hd hload => ?_).1.mpr (.inr fun h => ?_)
  · rw [leastRecord_declares hd hload]
    rfl
  · have hfault : lateFault.publish = none := congrArg FinalizeFaults.publish h.1
    cases hfault

/-- The result of a run whose executable is not there, and has a name that is no UTF-8. -/
def absentResult : ExecutionResult plainCodec := resultAtEpoch (.spawnAbsent undecodableName)

/-- **A complete receipt for a record that is lost**: the call succeeds, and no later load gives the
outcome back. -/
theorem absentResult_lost :
    (finalize plainStore {} (.prepared leastRun) absentResult (rootOf (.prepared leastRecord))).1 =
        some (.complete leastRun.executionId leastRun.reference) ∧
      ¬ ∃ finalized, load plainStore {} (finalize plainStore {} (.prepared leastRun) absentResult
          (rootOf (.prepared leastRecord))).2 leastRun.reference = .ok (.finalized finalized) ∧
        finalized.result.outcome = absentResult.outcome := by
  have hload : loadRecord plainStore none (.directory
      (emptyDirectory.withManifest (dumps (manifestPayload (.prepared leastRecord))))) = _ :=
    loadRecord_published plainStore_readsBack leastRecord_scalar leastRecord_publishes _
  have hof : FinalizedOf plainStore (.prepared leastRecord) absentResult undecodableRecord :=
    dif_pos rfl
  have hpublish : plainStore.publishManifest (manifestPayload (.finalized undecodableRecord)) =
      .ok (dumps (manifestPayload (.finalized undecodableRecord))) :=
    plainStore_publishes undecodableRecord_within
  refine ⟨complete_of_finalizes ⟨rfl, _, _, _, _, rfl, hload, (fun h => by cases h), hof, hpublish⟩,
    ?_⟩
  rintro ⟨finalized, hfinalized, houtcome⟩
  have hscalar := (scalar_finalized_iff.mp (scalar_of_load plainStore_readsBack hfinalized)).2.1
  rw [scalar_executionResultRecord_iff, houtcome] at hscalar
  exact absurd hscalar.1 (by decide +kernel)

end DrExec.Recording.Store
