import DrExec.Declarations.Validation
import DrExec.Recording.Identity
import DrExec.Recording.Outcomes
import Mathlib.Data.Finset.Sort
import Mathlib.Data.List.Lex

/-! # Run records

The models of `recording/models.py`. What a model checks when it is built is a field of its
structure, so that a value the model refuses cannot be made; the constructor that the code calls
with readings of its own, and that can refuse them, is a function beside it. -/

namespace DrExec.Recording.Models

open DrExec.Core.Identity DrExec.Core.Model DrExec.Core.Scalars DrExec.Declarations.Models
open DrExec.Declarations.Records DrExec.Declarations.Validation DrExec.Lib DrExec.Lib.Json
open DrExec.Recording.Identity DrExec.Recording.Outcomes DrExec.Runtime.Protocol DrExec.Runtime.Wire

/-! ### The header and the declaration -/

structure RunRecordHeader (C : Codec) where
  executorIdentity : IdentityDocumentField C
  executorConfigIdentity : IdentityDocumentField C
  preparedAt : UtcDatetime
  validated_executor_identity : validateExecutorIdentity executorIdentity = true
  validated_executor_config_identity : validateExecutorConfigIdentity executorConfigIdentity = true

/-- `fields_must_match_identity`: the payload names this executable. -/
def MatchesIdentity (resolvedExecutable : PurePosixPath) (document : IdentityDocument) : Prop :=
  (isolatedHostPayload document).map (·.resolvedExecutable.1.value) =
    some resolvedExecutable.asPosix

instance (resolvedExecutable : PurePosixPath) (document : IdentityDocument) :
    Decidable (MatchesIdentity resolvedExecutable document) :=
  inferInstanceAs (Decidable (_ = _))

/-- `RuntimeRecord`; there is one kind. -/
structure RuntimeRecord (C : Codec) where
  resolvedExecutable : PurePosixPath
  idDoc : IdentityDocumentField C
  fields_must_match_identity : MatchesIdentity resolvedExecutable idDoc

inductive ExecutionTargetRecord (C : Codec)
  | trustedCommand (canonicalDeclarationSha256 : Sha256Digest C)
  | trustedPython (canonicalDeclarationSha256 requestIdSha256 : Sha256Digest C)
      (runtime : RuntimeRecord C)
  | untrustedCommand (canonicalDeclarationSha256 : Sha256Digest C)
      (containmentProfile : ContainmentProfile)
  | untrustedPython (canonicalDeclarationSha256 requestIdSha256 : Sha256Digest C)
      (containmentProfile : ContainmentProfile) (runtime : RuntimeRecord C)

/-- `WorkingDirectoryGrantRecord`; a caller's path has no shape error. -/
inductive WorkingDirectoryGrantRecord
  | scratch
  | caller (path : {t : Text // persistedCallerWorkspacePathShapeError t.value = none})

structure ExecutionId where
  jobId : Uuid
  attemptId : Uuid
  deriving DecidableEq

structure RunDeclaration (R : RecordCodec) where
  executionId : ExecutionId
  target : ExecutionTargetRecord R.toCodec
  env : EnvGrantRecord R
  budgets : Budgets
  workspace : WorkingDirectoryGrantRecord := .scratch

structure ProcessRecord where
  pid : ℕ+
  startedAt : UtcDatetime

/-! ### Outputs -/

/-- `path_must_be_normalized_relative` -/
def NormalizedRelative (path : PurePosixPath) : Prop :=
  path.root = .relative ∧ path.parts ≠ [] ∧ dotDot ∉ path.parts

instance : DecidablePred NormalizedRelative := fun _ => inferInstanceAs (Decidable (_ ∧ _))

structure OutputArtifactRecord (C : Codec) where
  relativePath : {path : PurePosixPath // NormalizedRelative path}
  sizeBytes : ℕ
  sha256 : Sha256Digest C

structure OutputArtifactRecords (C : Codec) where
  stdout : OutputArtifactRecord C
  stderr : OutputArtifactRecord C

structure RetainedPayloadStream where
  head : Bytes
  tail : Bytes
  producedBytes : ℕ
  droppedBytes : ℕ
  retained_and_dropped_bytes_must_equal_produced_bytes :
    head.length + tail.length + droppedBytes = producedBytes

structure PayloadOutputs where
  stdout : RetainedPayloadStream
  stderr : RetainedPayloadStream

structure RetainedPayloadStreamRecord where
  headBytes : ℕ
  tailBytes : ℕ
  producedBytes : ℕ
  droppedBytes : ℕ
  retained_and_dropped_bytes_must_equal_produced_bytes :
    headBytes + tailBytes + droppedBytes = producedBytes

structure PayloadOutputRecords where
  stdout : RetainedPayloadStreamRecord
  stderr : RetainedPayloadStreamRecord

/-! ### Results -/

structure ExecutionMeasurements where
  startedAt : UtcDatetime
  finishedAt : UtcDatetime
  durationNs : ℕ
  teardownDurationNs : ℕ
  inputBytes : ℕ
  protocolBytesReceived : ℕ
  finished_must_not_precede_started : finishedAt.before startedAt = false

/-- A `NonNegativeInt` field given a number. -/
def nonNegativeInt (n : ℤ) : Except Str ℕ :=
  if 0 ≤ n then .ok n.toNat else .error (text "Input should be greater than or equal to 0")

/-- `ExecutionMeasurements(..)` -/
def ExecutionMeasurements.new (startedAt finishedAt : UtcDatetime)
    (durationNs teardownDurationNs inputBytes protocolBytesReceived : ℤ) :
    Except Str ExecutionMeasurements := do
  let durationNs ← nonNegativeInt durationNs
  let teardownDurationNs ← nonNegativeInt teardownDurationNs
  let inputBytes ← nonNegativeInt inputBytes
  let protocolBytesReceived ← nonNegativeInt protocolBytesReceived
  if h : finishedAt.before startedAt = false then
    return ⟨startedAt, finishedAt, durationNs, teardownDurationNs, inputBytes,
      protocolBytesReceived, h⟩
  else throw (text "finished_at must not precede started_at")

/-- `protocol_output_count_must_match_outcome` -/
def OutputCountMatches {α : Type} : ExecutionOutcome → List α → Prop
  | .protocolFailed _ _ acceptedOutputCount, outputs => acceptedOutputCount = outputs.length
  | _, _ => True

instance {α : Type} : ∀ (outcome : ExecutionOutcome) (outputs : List α),
    Decidable (OutputCountMatches outcome outputs)
  | .protocolFailed _ _ acceptedOutputCount, outputs =>
    inferInstanceAs (Decidable (acceptedOutputCount = outputs.length))
  | .exited _, _ | .signaled _, _ | .spawnAbsent _, _ | .spawnFailed _ _, _
  | .budgetExceeded _, _ | .cancelled _, _ => inferInstanceAs (Decidable True)

structure ExecutionResult (C : Codec) where
  executionId : ExecutionId
  outcome : ExecutionOutcome
  attribution : ExecutionAttribution
  protocolOutputs : List (IdentityDocumentField C)
  payloadOutputs : PayloadOutputs
  measurements : ExecutionMeasurements
  protocol_output_count_must_match_outcome : OutputCountMatches outcome protocolOutputs

/-- `ExecutionResult(..)` -/
def ExecutionResult.new {C : Codec} (executionId : ExecutionId) (outcome : ExecutionOutcome)
    (attribution : ExecutionAttribution) (protocolOutputs : List (IdentityDocumentField C))
    (payloadOutputs : PayloadOutputs) (measurements : ExecutionMeasurements) :
    Except Str (ExecutionResult C) :=
  if h : OutputCountMatches outcome protocolOutputs then
    .ok ⟨executionId, outcome, attribution, protocolOutputs, payloadOutputs, measurements, h⟩
  else .error (text "accepted protocol output count does not match outputs")

structure ExecutionResultRecord (C : Codec) where
  executionId : ExecutionId
  outcome : ExecutionOutcome
  attribution : ExecutionAttribution
  protocolOutputs : List (IdentityDocumentField C)
  payloadOutputs : PayloadOutputRecords
  measurements : ExecutionMeasurements
  protocol_output_count_must_match_outcome : OutputCountMatches outcome protocolOutputs

/-! ### Records -/

structure PreparedRecord (R : RecordCodec) where
  header : RunRecordHeader R.toCodec
  declaration : RunDeclaration R

structure RunningRecord (R : RecordCodec) where
  header : RunRecordHeader R.toCodec
  declaration : RunDeclaration R
  process : ProcessRecord

structure FinalizedRecord (R : RecordCodec) where
  header : RunRecordHeader R.toCodec
  declaration : RunDeclaration R
  result : ExecutionResultRecord R.toCodec
  outputs : OutputArtifactRecords R.toCodec
  execution_ids_must_match : declaration.executionId = result.executionId

inductive RunRecord (R : RecordCodec)
  | prepared (record : PreparedRecord R)
  | running (record : RunningRecord R)
  | finalized (record : FinalizedRecord R)

inductive RecordState
  | prepared
  | running
  | finalized
  deriving DecidableEq, Repr

/-- The `state` of a record. -/
def RunRecord.state {R : RecordCodec} : RunRecord R → RecordState
  | prepared _ => .prepared
  | running _ => .running
  | finalized _ => .finalized

/-! ### Runs and receipts -/

/-- `RunRecordReference`; there is one backend. -/
structure RunRecordReference where
  recordId : Uuid
  deriving DecidableEq

/-- What `PreparedRun` and `RunningRun` of `recording/store.py` carry. -/
structure RecordedRun (R : RecordCodec) where
  executionId : ExecutionId
  reference : RunRecordReference
  header : RunRecordHeader R.toCodec
  declaration : RunDeclaration R

/-- `FinalizableRun`: a `PreparedRun`, or a `RunningRun`. -/
inductive FinalizableRun (R : RecordCodec)
  | prepared (run : RecordedRun R)
  | running (run : RecordedRun R)

namespace FinalizableRun

variable {R : RecordCodec}

def recorded : FinalizableRun R → RecordedRun R
  | prepared run | running run => run

/-- `durable_state` -/
def durableState : FinalizableRun R → RecordState
  | prepared _ => .prepared
  | running _ => .running

def executionId (run : FinalizableRun R) : ExecutionId := run.recorded.executionId

def reference (run : FinalizableRun R) : RunRecordReference := run.recorded.reference

end FinalizableRun

inductive ExecutorFailureCode
  | targetNotSupported
  | bootstrapTimeout
  | transportWorkerFailed
  | stdinTransportTaken
  | protocolTransportTaken
  | transportJoinTimeout
  | bootstrapStartFailed
  | recordingOperationFailed
  | poolCapacityUnresolved
  | poolInvalidState
  | poolWrongEventLoop
  | poolNoScheduler
  | schedulerBroken
  | workerPoolTargetMismatch
  | workerPoolEntryPointMismatch
  | importableJsonTargetMismatch
  | fakeNoResponse
  | fakeReceiptMismatch
  deriving DecidableEq, Repr

/-- `RecordingFailure`: it carries the name of an exception class, or a failure code. -/
inductive RecordingFailure
  | detail (operation : Text) (errno : Option ℤ) (detail : Text)
  | failureCode (operation : Text) (errno : Option ℤ) (failureCode : ExecutorFailureCode)

inductive RealRecordReceipt
  | complete (executionId : ExecutionId) (reference : RunRecordReference)
  | degraded (executionId : ExecutionId) (reference : RunRecordReference)
      (latestState : RecordState) (failures : List RecordingFailure)

namespace RealRecordReceipt

def executionId : RealRecordReceipt → ExecutionId
  | complete executionId _ | degraded executionId _ _ _ => executionId

def reference : RealRecordReceipt → RunRecordReference
  | complete _ reference | degraded _ reference _ _ => reference

def latestState : RealRecordReceipt → RecordState
  | complete _ _ => .finalized
  | degraded _ _ latestState _ => latestState

/-- The failures of a degraded receipt. -/
def failures : RealRecordReceipt → List RecordingFailure
  | complete _ _ => []
  | degraded _ _ _ failures => failures

end RealRecordReceipt

inductive RecordReceipt
  | real (receipt : RealRecordReceipt)
  | notApplicable (executionId : ExecutionId)
  | inProcess (executionId : ExecutionId)
  | workerPool (executionId : ExecutionId)

def RecordReceipt.executionId : RecordReceipt → ExecutionId
  | real receipt => receipt.executionId
  | notApplicable executionId | inProcess executionId | workerPool executionId => executionId

structure CompletedExecution (C : Codec) where
  result : ExecutionResult C
  recordReceipt : RecordReceipt
  execution_ids_must_match : result.executionId = recordReceipt.executionId

/-- `CompletedExecution(..)` -/
def CompletedExecution.new {C : Codec} (result : ExecutionResult C) (recordReceipt : RecordReceipt) :
    Except Str (CompletedExecution C) :=
  if h : result.executionId = recordReceipt.executionId then .ok ⟨result, recordReceipt, h⟩
  else .error (text "result and record receipt execution IDs differ")

/-! ### The least of them -/

/-- Canonical JSON, with names in the order of their code points. -/
def plainRecords : RecordCodec where
  toCodec := plainCodec
  canonicalSortedValues names := names.sort (· ≤ ·)

/-- The UUID of zeros. -/
def nilUuid : Uuid := ⟨0, 0, 0, 0, 0⟩

def epoch : UtcDatetime := ⟨1970, 1, 1, 0, 0, 0, 0, by decide⟩

theorem epoch_not_before : epoch.before epoch = false := by decide

/-- The digest of zeros. -/
def zeroDigest : Sha256Digest plainCodec :=
  ⟨Text.lit "0000000000000000000000000000000000000000000000000000000000000000", by decide +kernel⟩

/-- An executor of unknown source and its default budgets, prepared at the epoch. -/
def leastHeader : RunRecordHeader plainCodec where
  executorIdentity :=
    ⟨buildExecutorIdentity ⟨⟨Text.lit "unknown", by decide +kernel⟩, none, .unknown, some nilUuid, nofun⟩,
      plainCodec_document (by decide +kernel)⟩
  executorConfigIdentity :=
    ⟨buildExecutorConfigIdentity ⟨.unbudgeted, .unbudgeted, .unbudgeted, .unbudgeted, .unbudgeted,
      .unbudgeted, .unbudgeted⟩, plainCodec_document (by decide +kernel)⟩
  preparedAt := epoch
  validated_executor_identity := validateExecutorIdentity_build _
  validated_executor_config_identity := validateExecutorConfigIdentity_build _

/-- A command without grants or budgets. -/
def leastDeclaration : RunDeclaration plainRecords where
  executionId := ⟨nilUuid, nilUuid⟩
  target := .trustedCommand zeroDigest
  env := ⟨.none, [], [], zeroDigest, fun _ => rfl, fun _ => rfl, by simp,
    (Finset.sort_empty _).symm, (Finset.sort_empty _).symm, by simp⟩
  budgets := { unsupported_axes_must_be_unbudgeted := unbudgeted_axes }

def leastRecord : PreparedRecord plainRecords := ⟨leastHeader, leastDeclaration⟩

/-- The run of `leastDeclaration`. -/
def leastRun : RecordedRun plainRecords := ⟨⟨nilUuid, nilUuid⟩, ⟨nilUuid⟩, leastHeader, leastDeclaration⟩

end DrExec.Recording.Models
