import DrExec.Execution.Spawn
import DrExec.Recording.Models

/-! # Completing an attempt

`_EngineCall._complete`, which measures an attempt, builds its result and has it recorded, and
`completed_execution` of `execution/outcomes.py`, which the executors without records use. Both read
the wall clock a second time and hand the two readings to `ExecutionMeasurements`, which refuses an
end before the start: they complete exactly when the wall clock did not step back (`completes_iff`).
-/

namespace DrExec.Execution.Completion

open DrExec.Core.Identity DrExec.Core.Model DrExec.Core.Scalars DrExec.Declarations.Records
open DrExec.Lib DrExec.Lib.Json DrExec.Recording.Models DrExec.Recording.Outcomes
open DrExec.Runtime.Wire
open DrExec.Execution.Spawn (Carried SetupFailure spawnOutcome exitOutcome)

/-! ### What is completed -/

/-- What the clocks showed: the wall clock at the start and at the end, and the monotonic clock at
the start, around the teardown and at the end. -/
structure Readings where
  startedAt : UtcDatetime
  finishedAt : UtcDatetime
  startedNs : ℤ
  teardownStartedNs : ℤ
  teardownEndedNs : ℤ
  finishedNs : ℤ
  teardown_after_start : startedNs ≤ teardownStartedNs
  teardown_nondecreasing : teardownStartedNs ≤ teardownEndedNs
  finished_after_teardown : teardownEndedNs ≤ finishedNs

/-- What `_carry_attempt` hands over: an outcome, with as many outputs as it says were accepted. -/
structure Attempt (C : Codec) where
  outcome : ExecutionOutcome
  protocolOutputs : List (IdentityDocumentField C)
  payloadOutputs : PayloadOutputs
  inputBytes : ℕ
  protocolBytesReceived : ℕ
  recordingFailures : List RecordingFailure := []
  counted : OutputCountMatches outcome protocolOutputs

/-- `empty_payload_outputs` -/
def emptyPayloadOutputs : PayloadOutputs where
  stdout := ⟨[], [], 0, 0, rfl⟩
  stderr := ⟨[], [], 0, 0, rfl⟩

/-- The outcome of an attempt that reached its payload counts the outputs that the reader kept. -/
theorem counted_carried {α : Type} {carried : Carried} {outputs : List α}
    (h : ∀ code detail accepted,
      carried.protocolFailure = some (code, detail, accepted) → accepted = outputs.length) :
    OutputCountMatches carried.outcome outputs := by
  unfold Carried.outcome
  split_ifs
  · trivial
  · trivial
  · trivial
  · split
    next code detail accepted hfailure => exact h code detail accepted hfailure
    · unfold exitOutcome
      split_ifs <;> trivial

/-! ### The engine -/

/-- `RunStore.finalize` of any store: a receipt of the run, or an `ExecutorFailure`. -/
structure Finalize (R : RecordCodec) where
  finalize : FinalizableRun R → ExecutionResult R.toCodec → Except ExecutorFailureCode RealRecordReceipt
  own : ∀ run result receipt, finalize run result = .ok receipt → receipt.executionId = run.executionId

section Engine

variable {R : RecordCodec} (store : Finalize R)

/-- `_degraded_from_failure` -/
def degradedFromFailure (run : FinalizableRun R) (operation : String)
    (priorFailures : List RecordingFailure) (failureCode : ExecutorFailureCode) : RealRecordReceipt :=
  .degraded run.executionId run.reference run.durableState
    (priorFailures ++ [.failureCode (Text.lit operation) none failureCode])

/-- `_finalized_receipt` -/
def finalizedReceipt (run : FinalizableRun R) (result : ExecutionResult R.toCodec)
    (priorFailures : List RecordingFailure) : RealRecordReceipt :=
  match store.finalize run result with
  | .error code => degradedFromFailure run "finalize" priorFailures code
  | .ok receipt =>
    if priorFailures = [] then receipt
    else .degraded receipt.executionId receipt.reference receipt.latestState
      (priorFailures ++ receipt.failures)

/-- `_complete` -/
def complete (run : FinalizableRun R) (attempt : Attempt R.toCodec) (clock : Readings) :
    Except Str (CompletedExecution R.toCodec) := do
  let measurements ← ExecutionMeasurements.new clock.startedAt clock.finishedAt
    (clock.finishedNs - clock.startedNs) (clock.teardownEndedNs - clock.teardownStartedNs)
    attempt.inputBytes attempt.protocolBytesReceived
  let result ← ExecutionResult.new run.executionId attempt.outcome
    (attributeOutcome attempt.outcome) attempt.protocolOutputs attempt.payloadOutputs measurements
  CompletedExecution.new result
    (.real (finalizedReceipt store run result attempt.recordingFailures))

end Engine

/-! ### Executors without records -/

/-- `completed_execution`; its attempt has no payload outputs and received no protocol bytes. -/
def completedExecution {C : Codec} (executionId : ExecutionId) (recordReceipt : RecordReceipt)
    (outcome : ExecutionOutcome) (protocolOutputs : List (IdentityDocumentField C))
    (inputBytes : ℕ) (attributionDetail : Option Text)
    (attributionOverride : Option (ExecutionOutcome → ExecutionAttribution)) (clock : Readings) :
    Except Str (CompletedExecution C) := do
  let attribution :=
    match attributionOverride, outcome with
    | some override, .protocolFailed _ _ _ => override outcome
    | _, _ => attributeOutcome outcome
  let attribution :=
    match attributionDetail with
    | some detail => { attribution with detail := some detail }
    | none => attribution
  let measurements ← ExecutionMeasurements.new clock.startedAt clock.finishedAt
    (clock.finishedNs - clock.startedNs) 0 inputBytes 0
  let result ← ExecutionResult.new executionId outcome attribution protocolOutputs
    emptyPayloadOutputs measurements
  CompletedExecution.new result recordReceipt

/-! ### When they complete -/

theorem nonNegativeInt_of_nonneg {n : ℤ} (h : 0 ≤ n) : nonNegativeInt n = .ok n.toNat := if_pos h

/-- Nonnegative measurements are refused for their order only. -/
theorem measurements_new_iff {startedAt finishedAt : UtcDatetime}
    {duration teardown inputBytes protocolBytes : ℤ} (hduration : 0 ≤ duration)
    (hteardown : 0 ≤ teardown) (hinput : 0 ≤ inputBytes) (hprotocol : 0 ≤ protocolBytes) :
    (∃ m, ExecutionMeasurements.new startedAt finishedAt duration teardown inputBytes
      protocolBytes = .ok m) ↔ finishedAt.before startedAt = false := by
  unfold ExecutionMeasurements.new
  rw [nonNegativeInt_of_nonneg hduration, nonNegativeInt_of_nonneg hteardown,
    nonNegativeInt_of_nonneg hinput, nonNegativeInt_of_nonneg hprotocol]
  by_cases h : finishedAt.before startedAt = false
  · exact iff_of_true ⟨_, dif_pos h⟩ h
  · refine iff_of_false ?_ h
    rintro ⟨m, hm⟩
    have hm := (dif_neg h).symm.trans hm
    cases hm

/-- A receipt is of the run that was completed. -/
theorem executionId_finalizedReceipt {R : RecordCodec} (store : Finalize R) (run : FinalizableRun R)
    (result : ExecutionResult R.toCodec) (priorFailures : List RecordingFailure) :
    (finalizedReceipt store run result priorFailures).executionId = run.executionId := by
  unfold finalizedReceipt
  split
  · rfl
  next receipt hreceipt =>
  have hown := store.own run result receipt hreceipt
  split_ifs
  · exact hown
  · exact hown

theorem result_new {C : Codec} {executionId : ExecutionId} {outcome : ExecutionOutcome}
    {attribution : ExecutionAttribution} {outputs : List (IdentityDocumentField C)}
    {payloadOutputs : PayloadOutputs} {measurements : ExecutionMeasurements}
    (h : OutputCountMatches outcome outputs) :
    ExecutionResult.new executionId outcome attribution outputs payloadOutputs measurements =
      .ok ⟨executionId, outcome, attribution, outputs, payloadOutputs, measurements, h⟩ := dif_pos h

/-- The engine completes an attempt exactly when the wall clock did not step back. -/
theorem complete_iff {R : RecordCodec} (store : Finalize R) (run : FinalizableRun R)
    (attempt : Attempt R.toCodec) (clock : Readings) :
    (∃ completed, complete store run attempt clock = .ok completed) ↔
      clock.finishedAt.before clock.startedAt = false := by
  have hteardown := clock.teardown_nondecreasing
  have hduration : 0 ≤ clock.finishedNs - clock.startedNs := by
    have hstart := clock.teardown_after_start
    have hend := clock.finished_after_teardown
    omega
  rw [← measurements_new_iff hduration (by omega : 0 ≤ clock.teardownEndedNs - clock.teardownStartedNs)
    (Int.natCast_nonneg attempt.inputBytes) (Int.natCast_nonneg attempt.protocolBytesReceived)]
  unfold complete
  rcases ExecutionMeasurements.new .. with message | measurements
  · exact iff_of_false (fun ⟨_, h⟩ => nomatch h) (fun ⟨_, h⟩ => nomatch h)
  · refine iff_of_true ?_ ⟨measurements, rfl⟩
    simp only [bind, Except.bind, result_new attempt.counted]
    exact ⟨_, dif_pos (executionId_finalizedReceipt store run _ _).symm⟩

theorem completedExecution_iff {C : Codec} {executionId : ExecutionId}
    {recordReceipt : RecordReceipt} (hown : executionId = recordReceipt.executionId)
    {outcome : ExecutionOutcome} {outputs : List (IdentityDocumentField C)}
    (hcounted : OutputCountMatches outcome outputs) (inputBytes : ℕ) (detail : Option Text)
    (override : Option (ExecutionOutcome → ExecutionAttribution)) (clock : Readings) :
    (∃ completed, completedExecution executionId recordReceipt outcome outputs inputBytes detail
      override clock = .ok completed) ↔ clock.finishedAt.before clock.startedAt = false := by
  have hduration : 0 ≤ clock.finishedNs - clock.startedNs := by
    have hstart := clock.teardown_after_start
    have hteardown := clock.teardown_nondecreasing
    have hend := clock.finished_after_teardown
    omega
  rw [← measurements_new_iff hduration le_rfl (Int.natCast_nonneg inputBytes) le_rfl]
  unfold completedExecution
  rcases ExecutionMeasurements.new .. with message | measurements
  · exact iff_of_false (fun ⟨_, h⟩ => nomatch h) (fun ⟨_, h⟩ => nomatch h)
  · refine iff_of_true ?_ ⟨measurements, rfl⟩
    simp only [bind, Except.bind, result_new hcounted]
    exact ⟨_, dif_pos hown⟩

/-- An attempt of an executor without records, its receipt its own. -/
structure RecordlessAttempt (C : Codec) where
  executionId : ExecutionId
  recordReceipt : RecordReceipt
  outcome : ExecutionOutcome
  protocolOutputs : List (IdentityDocumentField C)
  inputBytes : ℕ
  attributionDetail : Option Text := none
  attributionOverride : Option (ExecutionOutcome → ExecutionAttribution) := none
  own : executionId = recordReceipt.executionId
  counted : OutputCountMatches outcome protocolOutputs

/-- `_Execution.completed` -/
def RecordlessAttempt.completed {C : Codec} (attempt : RecordlessAttempt C) (clock : Readings) :
    Except Str (CompletedExecution C) :=
  completedExecution attempt.executionId attempt.recordReceipt attempt.outcome
    attempt.protocolOutputs attempt.inputBytes attempt.attributionDetail
    attempt.attributionOverride clock

/-- **An attempt is completed, by the engine and without records, exactly when the wall clock did
not step back between its two readings.** -/
theorem completes_iff {R : RecordCodec} {C : Codec} (store : Finalize R) (run : FinalizableRun R)
    (attempt : Attempt R.toCodec) (recordless : RecordlessAttempt C) (clock : Readings) :
    ((∃ completed, complete store run attempt clock = .ok completed) ↔
        clock.finishedAt.before clock.startedAt = false) ∧
      ((∃ completed, recordless.completed clock = .ok completed) ↔
        clock.finishedAt.before clock.startedAt = false) :=
  ⟨complete_iff store run attempt clock,
    completedExecution_iff recordless.own recordless.counted recordless.inputBytes
      recordless.attributionDetail recordless.attributionOverride clock⟩

theorem validTime_noon : ValidTime 2026 8 5 12 0 0 0 := by decide

theorem validTime_later : ValidTime 2026 8 5 12 0 1 0 := by decide

/-- The wall clock steps back a second. -/
def steppedBack : Readings where
  startedAt := ⟨2026, 8, 5, 12, 0, 1, 0, validTime_later⟩
  finishedAt := ⟨2026, 8, 5, 12, 0, 0, 0, validTime_noon⟩
  startedNs := 0
  teardownStartedNs := 500
  teardownEndedNs := 600
  finishedNs := 1000
  teardown_after_start := by decide
  teardown_nondecreasing := by decide
  finished_after_teardown := by decide

/-- A store that records every result. -/
def recordsAll : Finalize plainRecords where
  finalize run _ := .ok (.complete run.executionId run.reference)
  own run result receipt h := by
    cases h
    rfl

/-- A payload that exited with zero. -/
def exitedZero : Attempt plainCodec where
  outcome := .exited 0
  protocolOutputs := []
  payloadOutputs := emptyPayloadOutputs
  inputBytes := 0
  protocolBytesReceived := 0
  counted := trivial

/-- **A payload that exited with zero completes nowhere when the clock steps back.** -/
theorem steppedBack_loses :
    complete recordsAll (.running leastRun) exitedZero steppedBack =
        .error (text "finished_at must not precede started_at") ∧
      ({ executionId := ⟨nilUuid, nilUuid⟩
         recordReceipt := .workerPool ⟨nilUuid, nilUuid⟩
         outcome := .exited 0
         protocolOutputs := []
         inputBytes := 0
         own := rfl
         counted := trivial } : RecordlessAttempt plainCodec).completed steppedBack =
        .error (text "finished_at must not precede started_at") :=
  ⟨rfl, rfl⟩

end DrExec.Execution.Completion
