import DrExec.Lib.JsonDepth
import DrExec.Recording.Store
import DrExec.Runtime.Grammar

/-! # How deep a finalized record nests

The protocol reader takes a document inside a frame, one level below the top, and the depth bound of
the reader is the ceiling of the store. A finalized record holds the same document three levels
below the top. The rest of a record is no deeper than it was before, so `recordable_iff` says which
outputs the store can record. -/

namespace DrExec.Recording.Nesting

open DrExec.Core.Identity DrExec.Core.Model DrExec.Core.Scalars DrExec.Declarations.Models
open DrExec.Declarations.Records DrExec.Lib DrExec.Lib.Json DrExec.Lib.Lines
open DrExec.Recording.Identity DrExec.Recording.Models DrExec.Recording.Outcomes
open DrExec.Recording.Records DrExec.Recording.Store DrExec.Runtime.Grammar
open DrExec.Runtime.Protocol DrExec.Runtime.Wire

variable {C : Codec} {R : RecordCodec} {n : ℕ}

/-! ### The parts of a record -/

/-- A budget is an object of scalars. -/
@[simp] theorem within_limit {key : String} {hkey : "kind" ∉ [key]} {b : Budget} :
    (limit key hkey).Within b (n + 1) := by
  cases b <;> simp [limit]

@[simp] theorem not_within_limit {key : String} {hkey : "kind" ∉ [key]} {b : Budget} :
    ¬ (limit key hkey).Within b 0 := by
  simp [limit]

@[simp] theorem within_executionId {id : ExecutionId} : executionId.Within id (n + 1) := by
  simp [executionId, canonicalUuid]

@[simp] theorem within_executionOutcome {outcome : ExecutionOutcome} :
    executionOutcome.Within outcome (n + 1) := by
  cases outcome <;> simp [executionOutcome, textForm, budgetAxis, protocolFailureCode]

@[simp] theorem within_executionAttribution {attribution : ExecutionAttribution} :
    executionAttribution.Within attribution (n + 1) := by
  simp [executionAttribution, failureOwner, textForm]

@[simp] theorem within_executionMeasurements {measurements : ExecutionMeasurements} :
    executionMeasurements.Within measurements (n + 1) := by
  simp [executionMeasurements, utcDatetime]

@[simp] theorem within_payloadOutputRecords {outputs : PayloadOutputRecords} :
    payloadOutputRecords.Within outputs (n + 2) := by
  simp [payloadOutputRecords, retainedPayloadStreamRecord]

@[simp] theorem within_outputArtifactRecords {artifacts : OutputArtifactRecords C} :
    (outputArtifactRecords C).Within artifacts (n + 2) := by
  simp [outputArtifactRecords, outputArtifactRecord, relativePath, sha256Digest, textForm]

/-- The outputs are what may be deep in a result. -/
theorem within_executionResultRecord {result : ExecutionResultRecord C} :
    (executionResultRecord C).Within result (n + 3) ↔
      ∀ document ∈ result.protocolOutputs, (identityDocument C).Within document (n + 1) := by
  simp [executionResultRecord]

/-! ### Records -/

/-- What the records of a run have in common. -/
theorem within_preparedFields {record : RunRecord R} (h : (runRecord R).Within record (n + 1)) :
    (preparedFields R).Within (recordHeader record, recordDeclaration record) n := by
  rcases record with r | r | r
  · simpa [runRecord, recordHeader, recordDeclaration] using h
  · simp only [runRecord, Form.within_refine, Variants.within_form, Variants.within_or_inr,
      Variants.within_or_inl, Variants.within_one, Fields.within_and] at h
    exact h.1
  · simp only [runRecord, Form.within_refine, Variants.within_form, Variants.within_or_inr,
      Variants.within_one, Fields.within_and] at h
    exact h.1

/-- A record nests four levels for its budgets. -/
theorem four_le_of_within {record : RunRecord R} (h : (runRecord R).Within record n) : 4 ≤ n := by
  have hdeclared : ∀ n, ¬ (preparedFields R).Within (recordHeader record, recordDeclaration record)
      n ∨ 3 ≤ n := by
    intro n
    rcases n with _ | _ | _ | n
    · simp [preparedFields, runDeclaration]
    · simp [preparedFields, runDeclaration, budgets]
    · simp [preparedFields, runDeclaration, budgets, budgetFields, durationBudget]
    · exact .inr (by omega)
  rcases n with _ | n
  · rcases record with r | r | r <;> simp [runRecord] at h
  · rcases hdeclared n with hnot | hle
    · exact absurd (within_preparedFields h) hnot
    · omega

theorem within_finalized {record : FinalizedRecord R} :
    (runRecord R).Within (.finalized record) (n + 4) ↔
      (preparedFields R).Within (record.header, record.declaration) (n + 3) ∧
        ∀ document ∈ record.result.protocolOutputs,
          (identityDocument R.toCodec).Within document (n + 1) := by
  simp [runRecord, finalizedFields, within_executionResultRecord]

/-! ### Recording what was read -/

/-- The dictionary of a document has its keys in order. -/
theorem normal_toJsonDict (document : IdentityDocument) : document.toJsonDict.Normal := by
  have hkeys : [text "payload", text "schema", text "schema_version"].Pairwise (· < ·) := by
    decide +kernel
  refine normal_obj.mpr ⟨keysSorted_iff.mpr hkeys, ?_⟩
  intro m hm
  simp only [Fields.and, Fields.field, Fields.fieldOr, anyJson, textForm,
    Form.spelled, Form.int, List.mem_append, List.mem_singleton] at hm
  rcases hm with rfl | rfl | rfl
  · exact document.normal
  · rfl
  · rfl

/-- How deep a finalized record nests, from what the result holds. -/
theorem depth_finalized_iff {record : RunRecord R}
    (hrecord : (manifestPayload record).normalize.depth ≤ R.canonicalJsonMaxContainerDepth)
    {result : ExecutionResult R.toCodec} {stdoutHash stderrHash : Sha256Digest R.toCodec}
    {finalized : FinalizedRecord R}
    (hfinalized : finalizedRecord record result stdoutHash stderrHash = .ok finalized) :
    (manifestPayload (.finalized finalized)).normalize.depth ≤ R.canonicalJsonMaxContainerDepth ↔
      ∀ document ∈ result.protocolOutputs,
        document.1.toJsonDict.depth + 3 ≤ R.canonicalJsonMaxContainerDepth := by
  obtain ⟨n, hn⟩ := Nat.exists_eq_add_of_le' (four_le_of_within (R := R) hrecord)
  rw [hn] at hrecord ⊢
  unfold finalizedRecord at hfinalized
  split_ifs at hfinalized
  cases hfinalized
  refine within_finalized.trans ((and_iff_right (within_preparedFields hrecord)).trans ?_)
  refine forall₂_congr fun document _ => ?_
  have hnormal : document.1.toJsonDict.normalize = document.1.toJsonDict :=
    normal_toJsonDict document.1
  have hdepth : (identityDocument R.toCodec).Within document (n + 1) ↔
      document.1.toJsonDict.normalize.depth ≤ n + 1 := Iff.rfl
  rw [hdepth, hnormal]
  omega

/-- An accepted document is within the effective depth of the reader, its frame around it. -/
theorem depth_of_accepted (hC : C.Recogniser) {digest : Str} {budgets : ExecutorSelfBudgets}
    {cut : ℕ → ℕ} {stream : Bytes}
    (haccepted : (readProtocolStream C { unread := stream, cut := cut } digest budgets).failure =
      none) :
    ∀ document ∈ (readProtocolStream C { unread := stream, cut := cut } digest budgets).outputs,
      document.depth + 1 ≤ effectiveDepth C budgets.jsonDepth.limit := by
  obtain ⟨documents, hconforms⟩ := conforms_of_accepted hC haccepted
  rw [read_of_conforms hC hconforms]
  intro document hdocument
  obtain ⟨sequence, hframe⟩ :
      ∃ sequence, .output sequence document ∈ protocolFrames digest documents := by
    obtain ⟨sequence, hlt, rfl⟩ := List.mem_iff_getElem.mp hdocument
    refine ⟨sequence, List.mem_append_left _ (List.mem_cons_of_mem _ ?_)⟩
    exact List.mem_mapIdx.mpr ⟨sequence, hlt, rfl⟩
  have hsound := hconforms.sound _ hframe
  have hdepth : (ProtocolFrame.output sequence document).json.depth ≤
      effectiveDepth C budgets.jsonDepth.limit :=
    le_effectiveDepth.mpr ⟨hsound.ceiling, hsound.depth⟩
  refine le_trans ?_ hdepth
  simp [ProtocolFrame.json, ProtocolFrame.members, depth, depthMembers]

/-- **Which outputs can be recorded.** Where the record of a run was within the depth ceiling, its
finalized record is so exactly when every document that the reader took from the stream leaves the
ceiling three levels for the manifest around it. An accepted stream leaves it one, for the frame,
within the depth budget. -/
theorem recordable_iff (hC : R.toCodec.Recogniser) (stream : Bytes) (cut : ℕ → ℕ) (digest : Str)
    (budgets : ExecutorSelfBudgets) (record : RunRecord R)
    (hrecord : (manifestPayload record).normalize.depth ≤ R.canonicalJsonMaxContainerDepth)
    (result : ExecutionResult R.toCodec)
    (hresult : result.protocolOutputs.map (fun document => document.1.toJsonDict) =
      (readProtocolStream R.toCodec { unread := stream, cut := cut } digest budgets).outputs)
    (stdoutHash stderrHash : Sha256Digest R.toCodec) (finalized : FinalizedRecord R)
    (hfinalized : finalizedRecord record result stdoutHash stderrHash = .ok finalized) :
    let read := readProtocolStream R.toCodec { unread := stream, cut := cut } digest budgets
    ((manifestPayload (.finalized finalized)).normalize.depth ≤ R.canonicalJsonMaxContainerDepth ↔
        ∀ document ∈ read.outputs, document.depth + 3 ≤ R.canonicalJsonMaxContainerDepth) ∧
      (read.failure = none → ∀ document ∈ read.outputs,
        document.depth + 1 ≤ effectiveDepth R.toCodec budgets.jsonDepth.limit) := by
  refine ⟨(depth_finalized_iff hrecord hfinalized).trans ?_, depth_of_accepted hC⟩
  rw [← hresult, List.forall_mem_map]

/-! ### A document at the ceiling -/

/-- An array nested `n` levels deep. -/
def nested : ℕ → Json
  | 0 => .int 0
  | n + 1 => .arr [nested n]

theorem depth_nested (n : ℕ) : (nested n).depth = n := by
  induction n with
  | zero => rfl
  | succ n ih => simp [nested, depth, depthItems, ih]

theorem normal_nested (n : ℕ) : (nested n).Normal := by
  induction n with
  | zero => rfl
  | succ n ih => exact normal_arr.mpr (List.forall_mem_singleton.mpr ih)

theorem scalar_nested (n : ℕ) : (nested n).scalar = true := by
  induction n with
  | zero => rfl
  | succ n ih => simpa [nested, scalar, scalarItems] using ih

/-- The document of a nested array. -/
def nestedDocument (n : ℕ) : IdentityDocument where
  schema := Text.lit "nested"
  schemaVersion := 1
  payload := nested n
  normal := normal_nested n

theorem scalar_nestedDocument (n : ℕ) : (nestedDocument n).toJsonDict.scalar = true :=
  (scalarMembers_cons "payload" _ _).mpr ⟨scalar_nested n,
    (scalarMembers_cons "schema" _ _).mpr ⟨scalar_str fun _ => isScalar_of_mem_text,
      scalarMembers_singleton "schema_version" rfl⟩⟩

theorem depth_nestedDocument (n : ℕ) : (nestedDocument n).toJsonDict.depth = n + 1 := by
  have hmembers : (nestedDocument n).toJsonDict = .obj [(text "payload", nested n),
    (text "schema", .str (text "nested")), (text "schema_version", .int 1)] := rfl
  simp [hmembers, depth, depthMembers, depth_nested]

/-- The stream that returns the document. -/
def nestedStream (n : ℕ) : Bytes :=
  frameStream plainCodec
    (protocolFrames zeroDigest.1.value [(nestedDocument n).toJsonDict])

theorem nestedStream_accepted {n : ℕ} (hn : n + 2 ≤ 200) (cut : ℕ → ℕ) :
    readProtocolStream plainCodec { unread := nestedStream n, cut := cut } zeroDigest.1.value {} =
      ⟨[(nestedDocument n).toJsonDict], (nestedStream n).length, none⟩ := by
  refine read_of_conforms plainCodec_recogniser
    { stream_eq := rfl, sound := ?_, count := not_exceeds_none _, total := not_exceeds_none _ }
  intro frame hframe
  simp only [protocolFrames, outputFrames, List.mapIdx_cons, List.mapIdx_nil, List.cons_append,
    List.nil_append, List.mem_cons, List.not_mem_nil, or_false] at hframe
  rcases hframe with rfl | rfl | rfl
  · exact ⟨zeroDigest.2, by decide +kernel, not_exceeds_none _, not_exceeds_none _⟩
  · refine ⟨⟨plainCodec_document (scalar_nestedDocument n), normal_toJsonDict _⟩, ?_, not_exceeds_none _,
      not_exceeds_none _⟩
    show _ ≤ 200
    simp only [ProtocolFrame.json, ProtocolFrame.members, depth, depthMembers,
      depth_nestedDocument]
    omega
  · exact ⟨trivial, Nat.succ_le_succ (Nat.zero_le _), not_exceeds_none _, not_exceeds_none _⟩

theorem nothing_dropped : ([] : Bytes).length + ([] : Bytes).length + 0 = 0 := rfl

/-- The result of a run that returned the document. -/
def nestedResult (n : ℕ) : ExecutionResult plainCodec where
  executionId := ⟨nilUuid, nilUuid⟩
  outcome := .exited 0
  attribution := ⟨.none, none⟩
  protocolOutputs := [⟨nestedDocument n, plainCodec_document (scalar_nestedDocument n)⟩]
  payloadOutputs := ⟨⟨[], [], 0, 0, nothing_dropped⟩, ⟨[], [], 0, 0, nothing_dropped⟩⟩
  measurements := ⟨epoch, epoch, 0, 0, 0, 0, epoch_not_before⟩
  protocol_output_count_must_match_outcome := trivial

theorem nested_ids (n : ℕ) : leastDeclaration.executionId = (nestedResult n).executionId := rfl

/-- Its record. -/
def nestedRecord (n : ℕ) : FinalizedRecord plainRecords where
  header := leastHeader
  declaration := leastDeclaration
  result := resultRecord (nestedResult n)
  outputs :=
    ⟨artifactRecord (sidecarPath "stdout.bin" stdout_isName) (nestedResult n).payloadOutputs.stdout
        zeroDigest,
      artifactRecord (sidecarPath "stderr.bin" stderr_isName) (nestedResult n).payloadOutputs.stderr
        zeroDigest⟩
  execution_ids_must_match := nested_ids n

theorem finalizedRecord_nested (n : ℕ) :
    finalizedRecord (.prepared leastRecord) (nestedResult n) zeroDigest zeroDigest =
      .ok (nestedRecord n) := dif_pos rfl

/-- **The deepest document that is accepted cannot be recorded.** -/
theorem deepest_unrecordable :
    (readProtocolStream plainCodec { unread := nestedStream 198, cut := fun _ => 1 }
          zeroDigest.1.value {}).failure = none ∧
      (nestedResult 198).protocolOutputs.map (fun document => document.1.toJsonDict) =
        (readProtocolStream plainCodec { unread := nestedStream 198, cut := fun _ => 1 }
          zeroDigest.1.value {}).outputs ∧
      finalizedRecord (.prepared leastRecord) (nestedResult 198) zeroDigest zeroDigest =
        .ok (nestedRecord 198) ∧
      ¬ (manifestPayload (.finalized (nestedRecord 198))).normalize.depth ≤
        plainRecords.canonicalJsonMaxContainerDepth := by
  rw [nestedStream_accepted (by decide)]
  refine ⟨rfl, rfl, finalizedRecord_nested 198, fun hwithin => ?_⟩
  have hdocument := (depth_finalized_iff leastRecord_within.2 (finalizedRecord_nested 198)).mp
    hwithin _ List.mem_cons_self
  rw [depth_nestedDocument] at hdocument
  exact absurd hdocument (by decide)

/-- A document of three levels is recorded. -/
theorem nested_recordable :
    (manifestPayload (.finalized (nestedRecord 2))).normalize.depth ≤ 200 := by
  have haccepted : readProtocolStream plainRecords.toCodec
      { unread := nestedStream 2, cut := fun _ => 1 } zeroDigest.1.value {} =
        ⟨[(nestedDocument 2).toJsonDict], (nestedStream 2).length, none⟩ :=
    nestedStream_accepted (by decide) _
  refine (recordable_iff plainCodec_recogniser (nestedStream 2) (fun _ => 1) zeroDigest.1.value {}
    (.prepared leastRecord) leastRecord_within.2 (nestedResult 2) (by rw [haccepted]; rfl)
    zeroDigest zeroDigest (nestedRecord 2) (finalizedRecord_nested 2)).1.mpr ?_
  rw [haccepted]
  refine List.forall_mem_singleton.mpr ?_
  rw [depth_nestedDocument]
  decide

end DrExec.Recording.Nesting
