import DrExec.Execution.WorkerFrames

/-! # What the parent makes of an answer

`_Execution.interpret` and `_exchange` of `execution/worker_pool.py`, and
`parse_importable_json_result` of `importable_json.py`. The parent reads the frame that the worker
wrote of what its entry point did; a worker that something escapes from kills its own group, and the
parent reports how it ended. Of each frame that the worker can write the parent makes one completion
(`interpret_resultFrame`, `interpret_statusFrame`). -/

namespace DrExec.Execution.WorkerAnswers

open DrExec.Core.Identity DrExec.Core.Model DrExec.Core.Scalars DrExec.Lib DrExec.Lib.Json
open DrExec.Lib.JsonLoads DrExec.Recording.Models DrExec.Recording.Outcomes DrExec.Runtime.Wire
open DrExec.Execution.Completion DrExec.Execution.WorkerFrames
open DrExec.Execution.InProcess (Finish JobExecution Raised isImportableJsonEnvelope
  executorProtocolFailureAttribution validationError)

/-! ### Reading an answer -/

/-- dr_serialize in the parent, the depth its interpreter reads, and `str` of what is no string. -/
structure Parent (C : Codec) where
  recursionError : Loaded → Option Raised
  validateIdentityDocument : Loaded → Except Raised IdentityDocument
  buildIdentityDocument : Text → ℤ → Json → Except Raised (IdentityDocumentField C)
  validateStrictJson : Json → Except Raised Json
  str : Option Json → Text

/-- An error of a decoder, of which nothing asks for the text. -/
def decodeError : Raised := { message := Text.lit "" }

/-- What escapes `_worker_frame_payload`: the `ValueError` it raises, or something else. -/
inductive FrameError
  | valueError (message : Text)
  | escaped (error : Raised)

/-- `_frame_status`, of the value under its key. -/
def frameStatus : Option Json → Option WorkerFrameStatus
  | some (.str s) =>
    [.ok, .payloadRaised, .payloadResultInvalid, .executorRejected].find? fun status =>
      s = text status.value
  | _ => none

theorem frameStatus_value (status : WorkerFrameStatus) :
    frameStatus (some (.str (text status.value))) = some status := by
  cases status <;> rfl

namespace Parent

variable {C : Codec} (parent : Parent C)

/-- `validate_identity_document(json.loads(frame.decode("utf-8")))` -/
def readFrame (frame : Bytes) : Except Raised IdentityDocument :=
  match Utf8.decodeStrict frame with
  | none => .error decodeError
  | some s =>
    match loads s with
    | none => .error decodeError
    | some loaded =>
      match parent.recursionError loaded with
      | some error => .error error
      | none => parent.validateIdentityDocument loaded

/-- `_worker_frame_payload` -/
def workerFramePayload (frame : Bytes) : Except FrameError (List (Str × Json)) :=
  match parent.readFrame frame with
  | .error error =>
    if error.isException then
      .error (.valueError (Text.lit "the worker returned a malformed frame"))
    else .error (.escaped error)
  | .ok document =>
    if !isImportableJsonEnvelope document then
      .error (.valueError (Text.lit "the worker result does not use the envelope"))
    else
      match document.payload with
      | .obj members => .ok members
      | _ => .error (.valueError (Text.lit "the worker result payload is not an object"))

/-- `str(detail)` -/
def detailText : Option Json → Text
  | some (.str s) => ⟨s⟩
  | detail => parent.str detail

end Parent

/-! ### The completion of a call -/

/-- `_Execution` of `worker_pool.py`, as its fields but the transport are those in process. -/
structure PooledExecution extends JobExecution where
  transport : Bytes
  inputBytes_eq : inputBytes = transport.length

/-- `_Execution.completed` -/
def PooledExecution.completed {C : Codec} (execution : PooledExecution)
    (finish : Finish execution.toJobExecution) (outcome : ExecutionOutcome)
    (protocolOutputs : List (IdentityDocumentField C)) (attributionDetail : Option Text)
    (attributionOverride : Option (ExecutionOutcome → ExecutionAttribution)) :
    Except Raised (CompletedExecution C) :=
  (completedExecution execution.executionId (.workerPool execution.executionId) outcome
    protocolOutputs execution.inputBytes attributionDetail attributionOverride
    finish.readings).mapError fun _ => validationError

/-- `_Execution.protocol_failed` -/
def PooledExecution.protocolFailed {C : Codec} (execution : PooledExecution)
    (finish : Finish execution.toJobExecution) (detail : Text) : Except Raised (CompletedExecution C) :=
  execution.completed finish (malformedFrameOutcome detail) [] none
    (some executorProtocolFailureAttribution)

/-- `_Execution.interpret` -/
def PooledExecution.interpret {C : Codec} (execution : PooledExecution)
    (finish : Finish execution.toJobExecution) (parent : Parent C) (frame : Bytes) :
    Except Raised (CompletedExecution C) :=
  match parent.workerFramePayload frame with
  | .error (.valueError message) => execution.protocolFailed finish message
  | .error (.escaped error) => .error error
  | .ok payload =>
    let detail := payload.lookup (text "detail")
    match frameStatus (payload.lookup (text "status")) with
    | some .ok => do
      let document ← parent.buildIdentityDocument InProcess.envelopeSchema
        InProcess.envelopeSchemaVersion ((payload.lookup (text "result")).getD .null)
      execution.completed finish (.exited 0) [document] none none
    | some .payloadRaised =>
      execution.completed finish (.exited 1) [] (some (parent.detailText detail)) none
    | some .payloadResultInvalid =>
      execution.completed finish (malformedFrameOutcome (parent.detailText detail)) [] none none
    | some .executorRejected => execution.protocolFailed finish (parent.detailText detail)
    | none =>
      execution.protocolFailed finish (Text.lit "the worker returned an unknown result status")

/-- What a call receives of its worker: a frame, or the end of its frames and how it ended. -/
inductive Reply
  | frame (bytes : Bytes)
  | died (returncode : ℤ)

theorem toNat_neg_pos {returncode : ℤ} (h : returncode < 0) : 0 < (-returncode).toNat := by omega

/-- `_Worker.death` -/
def death (returncode : ℤ) : ExecutionOutcome :=
  if h : returncode < 0 then .signaled ⟨(-returncode).toNat, toNat_neg_pos h⟩
  else .exited returncode

/-- `_exchange`, from the reply on. -/
def PooledExecution.exchange {C : Codec} (execution : PooledExecution)
    (finish : Finish execution.toJobExecution) (parent : Parent C) :
    Reply → Except Raised (CompletedExecution C)
  | .frame bytes => execution.interpret finish parent bytes
  | .died returncode =>
    execution.completed finish (death returncode) []
      (some (Text.lit "the worker died while running the payload")) none

/-- By `SIGKILL`: an exception that leaves `main` passes its `finally`, which kills the group that the
worker leads since `_spawn_worker` gave it one. -/
def killedBySelf : ℤ := -9

/-- The reply of a live worker to a frame: what `_handle` returns, if that is written, or its own
end. -/
def replyTo {Object : Type} (worker : Worker Object) (k : ℕ) (frame : Bytes) : Reply :=
  match (worker.handle k frame).answer with
  | .ok bytes =>
    match worker.write k bytes with
    | .ok () => .frame bytes
    | .error _ => .died killedBySelf
  | .error _ => .died killedBySelf

/-- `ImportableJsonResultError(..)` -/
def resultError (message : String) : Raised := { message := Text.lit message }

/-- `parse_importable_json_result` -/
def parseImportableJsonResult {C : Codec} (parent : Parent C) (completed : CompletedExecution C) :
    Except Raised Json :=
  if completed.result.outcome ≠ .exited 0 then
    .error (resultError "the importable JSON execution did not exit cleanly with code zero")
  else
    match completed.result.protocolOutputs with
    | [output] =>
      if !isImportableJsonEnvelope output.1 then
        .error (resultError "the importable JSON output does not use the required envelope")
      else parent.validateStrictJson output.1.payload
    | _ => .error (resultError "the importable JSON execution did not produce exactly one output")

/-! ### Frames that are read back -/

variable {C : Codec} {Object : Type} {worker : Worker Object} {parent : Parent C}

/-- dr_serialize on the two sides of the pipe: the parent reads the document that a worker writes,
of which the text begins with its brace. -/
structure ReadsAnswers (worker : Worker Object) (parent : Parent C) : Prop where
  read : ∀ payload bytes, worker.canonicalIdentityJsonBytes WorkerFrames.envelopeSchema
    WorkerFrames.envelopeSchemaVersion payload = .ok bytes →
    ∃ s loaded document, Utf8.decodeStrict bytes = some s ∧ loads s = some loaded ∧
      s.head? = some 123 ∧ parent.recursionError loaded = none ∧
      parent.validateIdentityDocument loaded = .ok document ∧
      isImportableJsonEnvelope document = true ∧ document.payload = payload.normalize

/-- The parent reads what the worker wrote, with its terminator. -/
theorem workerFramePayload_written (h : ReadsAnswers worker parent) {members : List (Str × Json)}
    {bytes : Bytes}
    (hbytes : worker.canonicalIdentityJsonBytes WorkerFrames.envelopeSchema
      WorkerFrames.envelopeSchemaVersion (.obj members) = .ok bytes) :
    parent.workerFramePayload (bytes ++ [workerFrameTerminator]) =
      .ok (mapValues Json.normalize (sortKeys members)) := by
  obtain ⟨s, loaded, document, hdecode, hloads, hbrace, hshallow, hdocument, henvelope, hpayload⟩ :=
    h.read _ _ hbytes
  have hterminator : Utf8.decodeStrict [workerFrameTerminator] = some [10] := rfl
  have hframe : parent.readFrame (bytes ++ [workerFrameTerminator]) = .ok document := by
    have hblank : JsonLoads.loads (s ++ [(10 : CodePoint)]) = some loaded := by
      refine loads_append_blanks hloads hbrace fun c hc => ?_
      rw [List.mem_singleton.mp hc]
      rfl
    simp only [Parent.readFrame, Utf8.decodeStrict_append hdecode hterminator, hblank, hshallow,
      hdocument]
  rw [Parent.workerFramePayload, hframe]
  simp only [henvelope, Bool.not_true, Bool.false_eq_true, if_false, hpayload, normalize_obj]

/-- A frame that is written is the canonical text of its envelope, with the terminator. -/
theorem written_envelopeFrame {status : WorkerFrameStatus} {key : Str} {value : Json} {frame : Bytes}
    (h : worker.envelopeFrame status key value = .ok frame) :
    ∃ bytes, worker.canonicalIdentityJsonBytes WorkerFrames.envelopeSchema
        WorkerFrames.envelopeSchemaVersion
        (.obj [(text "status", .str (text status.value)), (key, value)]) = .ok bytes ∧
      frame = bytes ++ [workerFrameTerminator] := by
  rw [Worker.envelopeFrame] at h
  rcases hbytes : worker.canonicalIdentityJsonBytes WorkerFrames.envelopeSchema
    WorkerFrames.envelopeSchemaVersion _ with error | bytes
  · rw [hbytes] at h
    cases h
  · rw [hbytes] at h
    exact ⟨bytes, rfl, (Except.ok.inj h).symm⟩

/-- **The parent reads the frame**: its status, and its value under its key. -/
theorem read_envelopeFrame (h : ReadsAnswers worker parent) {status : WorkerFrameStatus} {key : Str}
    {value : Json} {frame : Bytes} (hkey : key ≠ text "status")
    (hframe : worker.envelopeFrame status key value = .ok frame) :
    ∃ payload, parent.workerFramePayload frame = .ok payload ∧
      frameStatus (payload.lookup (text "status")) = some status ∧
      payload.lookup key = some value.normalize := by
  obtain ⟨bytes, hbytes, rfl⟩ := written_envelopeFrame hframe
  have hnodup : ([(text "status", Json.str (text status.value)), (key, value)].map
      Prod.fst).Nodup := by
    simpa using hkey.symm
  refine ⟨_, workerFramePayload_written h hbytes, ?_, ?_⟩
  · simp only [lookup_normalize hnodup, List.lookup_cons_self, Option.map_some, Json.normalize,
      frameStatus_value]
  · rw [lookup_normalize hnodup, List.lookup_cons, beq_false_of_ne hkey, List.lookup_cons_self,
      Option.map_some]

/-- The key of a value is not that of the status. -/
theorem answerKeys_ne : text "result" ≠ text "status" ∧ text "detail" ≠ text "status" := by
  decide +kernel

/-- **The frame of a result**: the parent completes the call with a document of the result. -/
theorem interpret_resultFrame (h : ReadsAnswers worker parent) (execution : PooledExecution)
    (finish : Finish execution.toJobExecution) {result : Json} {frame : Bytes}
    (hframe : worker.resultFrame result = .ok frame) :
    execution.interpret finish parent frame = (do
      let document ← parent.buildIdentityDocument InProcess.envelopeSchema
        InProcess.envelopeSchemaVersion result.normalize
      execution.completed finish (.exited 0) [document] none none) := by
  obtain ⟨members, hmembers, hstatus, hresult⟩ := read_envelopeFrame h answerKeys_ne.1 hframe
  rw [PooledExecution.interpret, hmembers]
  simp only [hstatus, hresult, Option.getD_some]

/-- What the parent makes of a status frame that carries a detail. -/
def PooledExecution.completedStatus {C : Codec} (execution : PooledExecution)
    (finish : Finish execution.toJobExecution) (detail : Text) :
    WorkerFrameStatus → Except Raised (CompletedExecution C)
  | .payloadRaised => execution.completed finish (.exited 1) [] (some detail) none
  | .payloadResultInvalid => execution.completed finish (malformedFrameOutcome detail) [] none none
  | _ => execution.protocolFailed finish detail

/-- **The frame of a status** other than that of a result: the parent completes the call with the
detail that the worker gives. -/
theorem interpret_statusFrame (h : ReadsAnswers worker parent) (execution : PooledExecution)
    (finish : Finish execution.toJobExecution) {status : WorkerFrameStatus} {detail : Text}
    {frame : Bytes} (hframe : worker.statusFrame status detail = .ok frame) (hstatus : status ≠ .ok) :
    execution.interpret finish parent frame = execution.completedStatus finish detail status := by
  obtain ⟨members, hmembers, hread, hdetail⟩ := read_envelopeFrame h answerKeys_ne.2 hframe
  rw [PooledExecution.interpret, hmembers]
  simp only [hread, hdetail, Json.normalize, Parent.detailText]
  cases status with
  | ok => exact absurd rfl hstatus
  | payloadRaised | payloadResultInvalid | executorRejected => rfl

end DrExec.Execution.WorkerAnswers
