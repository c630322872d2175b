import DrExec.Declarations.Models
import DrExec.Execution.Completion

/-! # Executing in process

`ImportableJsonExecutor._run_attempt` and `_run_body` of `execution/importable_json_executor.py`,
over `_invoke_importable_entry_point` of `importable_json.py`. A course is all that one attempt
meets: when the caller cancels and the deadline fires, what the import, the attribute and the call
do, what the clocks show. `completes_runBody` says where `_run_body` completes the attempt and with
which outcome, and `outcome_runCaught` what becomes of what escapes it. -/

namespace DrExec.Execution.InProcess

open DrExec.Core.Identity DrExec.Core.Model DrExec.Core.Scalars DrExec.Declarations.Models
open DrExec.Declarations.Records DrExec.Lib DrExec.Lib.Json DrExec.Recording.Models
open DrExec.Recording.Outcomes DrExec.Runtime.Protocol DrExec.Runtime.Wire
open DrExec.Execution.Completion

/-! ### Exceptions -/

/-- The `code` of a `SystemExit`. An object that is no `int` may claim to be one by its `__class__`,
and reading either may raise. -/
inductive ExitCode
  | int (value : ℤ)
  | bool (value : Bool)
  | object (claimsInt : Bool)
  | unreadable

/-- The `exit_code` of the outcome; `none` where it raises, as the strict field does for what only
passes `isinstance(code, int)`. -/
def ExitCode.exitCode : ExitCode → Option ℤ
  | int value => some value
  | object false => some 1
  | bool _ | object true | unreadable => none

/-- An exception. A handler goes by its own class; `isinstance`, where that is not of the class asked
for, by what it claims to be with its `__class__`, and reading that may raise (`none`). Its text is
`none` where `str(error)` raises, or gives what a strict field refuses. -/
structure Raised where
  isException : Bool := true
  isKeyboardInterrupt : Bool := false
  isSystemExit : Bool := false
  isAttributeError : Bool := false
  isStrictJsonError : Bool := false
  isExecutorDispatchError : Bool := false
  isPayloadResultError : Bool := false
  isPayloadDispatchError : Bool := false
  claimsKeyboardInterrupt : Option Bool := some false
  claimsSystemExit : Option Bool := some false
  code : ExitCode := .unreadable
  message : Option Text

/-- `isinstance(error, KeyboardInterrupt)`; `none` where it raises. -/
def Raised.instanceOfKeyboardInterrupt (error : Raised) : Option Bool :=
  if error.isKeyboardInterrupt then some true else error.claimsKeyboardInterrupt

/-- `isinstance(error, SystemExit)`; `none` where it raises. -/
def Raised.instanceOfSystemExit (error : Raised) : Option Bool :=
  if error.isSystemExit then some true else error.claimsSystemExit

/-- `ImportableJsonExecutorDispatchError(..)` -/
def executorDispatchError (message : Text) : Raised := { message, isExecutorDispatchError := true }

/-- `ImportableJsonPayloadResultError(..)` -/
def payloadResultError (message : Text) : Raised := { message, isPayloadResultError := true }

/-- `ImportableJsonPayloadDispatchError(..)` -/
def payloadDispatchError (message : Text) : Raised := { message, isPayloadDispatchError := true }

/-- pydantic's `ValidationError`, of which no handler asks for the text. -/
def validationError : Raised := { message := Text.lit "" }

/-- What a run raises, if it does. -/
def raisedBy {α : Type} : Except Raised α → Option Raised
  | .ok _ => none
  | .error error => some error

/-- `try: .. except ..`, for one clause. -/
def tryExcept {α : Type} (body : Except Raised α) (caught : Raised → Bool)
    (handler : Raised → Except Raised α) : Except Raised α :=
  match body with
  | .ok a => .ok a
  | .error error => if caught error then handler error else .error error

/-! ### Invoking the entry point -/

def envelopeSchema : Text := Text.lit "dr_exec.importable_json"

def envelopeSchemaVersion : ℤ := 1

/-- `is_importable_json_envelope` -/
def isImportableJsonEnvelope (document : IdentityDocument) : Bool :=
  document.schema == envelopeSchema && document.schemaVersion == envelopeSchemaVersion

/-- The interpreter, the module that is imported, and dr_serialize: each step gives what it returns
or raises; `strRaises` is what comes of an error without a text. -/
structure Host (C : Codec) (Module Object : Type) where
  repr : Str → Text
  strRaises : Raised → Raised
  validatePayload : Json → Except Raised Json
  importModule : Str → Except Raised Module
  getattr : Module → Str → Except Raised Object
  callable : Object → Bool
  call : Object → Json → Except Raised Object
  formatPayloadErrorDetail : Raised → Except Raised Text
  validateResult : Object → Except Raised Json
  buildIdentityDocument : Text → ℤ → Json → Except Raised (IdentityDocumentField C)

section Invoke

variable {C : Codec} {Module Object : Type} (host : Host C Module Object)

/-- `str(error)`, for a field of the completion. -/
def Host.str (error : Raised) : Except Raised Text :=
  match error.message with
  | some message => .ok message
  | none => .error (host.strRaises error)

/-- `_invoke_importable_entry_point` up to the call: the callable, and the payload it is called
with. -/
def dispatch (entryPoint : ImportableEntryPoint) (request : IdentityDocument) :
    Except Raised (Object × Json) :=
  if !isImportableJsonEnvelope request then
    .error (executorDispatchError (Text.lit "request does not use the importable JSON envelope"))
  else do
    let payload ← tryExcept (host.validatePayload request.payload) Raised.isStrictJsonError fun _ =>
      .error (executorDispatchError (Text.lit "request payload is not strict JSON"))
    let module ← tryExcept (host.importModule entryPoint.moduleName) Raised.isException fun _ =>
      .error (executorDispatchError
        ((Text.lit "could not import ").append (host.repr entryPoint.moduleName)))
    let callableEntry ← tryExcept (host.getattr module entryPoint.attributeName)
      Raised.isAttributeError fun _ =>
        .error (executorDispatchError (((host.repr entryPoint.moduleName).append
          (Text.lit " has no attribute ")).append (host.repr entryPoint.attributeName)))
    if !host.callable callableEntry then
      .error (executorDispatchError (Text.lit "the imported module attribute is not callable"))
    else .ok (callableEntry, payload)

/-- `_invoke_importable_entry_point` from the call on. -/
def callEntry (callableEntry : Object) (payload : Json) : Except Raised Json := do
  let result ← tryExcept (host.call callableEntry payload) Raised.isException fun error => do
    .error (payloadDispatchError (← host.formatPayloadErrorDetail error))
  tryExcept (host.validateResult result) Raised.isStrictJsonError fun _ =>
    .error (payloadResultError
      (Text.lit "the importable JSON entry point returned non-strict JSON"))

end Invoke

/-! ### One attempt -/

/-- A look at the stop: the token is read, and then the flag of the deadline. -/
structure Look where
  token : ℕ
  flag : ℕ
  ordered : token ≤ flag

/-- When the caller cancels and the timer of the deadline fires, and when each look is taken: before
the entry point is dispatched, when it is over, and where an exception that escaped is caught. -/
structure Timeline where
  cancelAt : Option ℕ
  expiredAt : Option ℕ
  dispatch : Look
  ended : Look
  caught : Look
  dispatch_ended : dispatch.flag ≤ ended.token
  ended_caught : ended.flag ≤ caught.token

/-- `_Execution` -/
structure JobExecution where
  executionId : ExecutionId
  startedAt : UtcDatetime
  startedNs : ℤ
  inputBytes : ℕ

/-- What the clocks show where an attempt is completed. -/
structure Finish (execution : JobExecution) where
  finishedAt : UtcDatetime
  finishedNs : ℤ
  later : execution.startedNs ≤ finishedNs

/-- All that the attempt of one job meets. It is armed when its timer is; it is completed in
`_run_body`, or where `_run_attempt` catches what escapes that. -/
structure Course (C : Codec) (Module Object : Type) where
  execution : JobExecution
  entryPoint : ImportableEntryPoint
  request : IdentityDocument
  wallTime : Budget
  armedNs : ℤ
  timerStarts : Bool
  host : Host C Module Object
  timeline : Timeline
  bodyFinish : Finish execution
  caughtFinish : Finish execution

/-- `executor_protocol_failure_attribution` -/
def executorProtocolFailureAttribution : ExecutionOutcome → ExecutionAttribution
  | .protocolFailed _ failureDetail _ => { owner := .executor, detail := failureDetail }
  | outcome => attributeOutcome outcome

/-- The clocks of a completion; there is no teardown. -/
def Finish.readings {execution : JobExecution} (finish : Finish execution) : Readings where
  startedAt := execution.startedAt
  finishedAt := finish.finishedAt
  startedNs := execution.startedNs
  teardownStartedNs := execution.startedNs
  teardownEndedNs := execution.startedNs
  finishedNs := finish.finishedNs
  teardown_after_start := le_rfl
  teardown_nondecreasing := le_rfl
  finished_after_teardown := finish.later

/-- `_Execution.completed` -/
def JobExecution.completed {C : Codec} (execution : JobExecution) (finish : Finish execution)
    (outcome : ExecutionOutcome) (protocolOutputs : List (IdentityDocumentField C))
    (attributionDetail : Option Text)
    (attributionOverride : Option (ExecutionOutcome → ExecutionAttribution)) :
    Except Raised (CompletedExecution C) :=
  (completedExecution execution.executionId (.inProcess execution.executionId) outcome
    protocolOutputs execution.inputBytes attributionDetail attributionOverride
    finish.readings).mapError fun _ => validationError

namespace Course

variable {C : Codec} {Module Object : Type} (c : Course C Module Object)

/-- `cancellation.cancelled`, read at a moment. -/
def cancelled (moment : ℕ) : Bool := c.timeline.cancelAt.any (· ≤ moment)

/-- `stop.deadline_expired`, read at a moment; without a limit there is no timer. -/
def expired (moment : ℕ) : Bool :=
  c.wallTime.limit.isSome && c.timeline.expiredAt.any (· ≤ moment)

/-- `_StopState.outcome` -/
def stopOutcome (look : Look) (started : Bool) : Option ExecutionOutcome :=
  if c.cancelled look.token then some (.cancelled started)
  else if c.expired look.flag then some (.budgetExceeded .wallTime)
  else none

/-- `_stopped`, and what follows where it is `None`. -/
def unlessStopped (look : Look) (started : Bool)
    (rest : Except Raised (CompletedExecution C)) : Except Raised (CompletedExecution C) :=
  match c.stopOutcome look started with
  | some outcome => c.execution.completed c.bodyFinish outcome [] none none
  | none => rest

/-- `_invoke_importable_entry_point` -/
def invoke : Except Raised Json := do
  let (callableEntry, payload) ← dispatch c.host c.entryPoint c.request
  callEntry c.host callableEntry payload

/-- `_run_body` -/
def runBody : Except Raised (CompletedExecution C) :=
  c.unlessStopped c.timeline.dispatch false <|
  match c.invoke with
  | .error error =>
    if error.isExecutorDispatchError then do
      let message ← c.host.str error
      c.execution.completed c.bodyFinish (malformedFrameOutcome message) [] none
        (some executorProtocolFailureAttribution)
    else if error.isPayloadResultError then
      c.unlessStopped c.timeline.ended true do
        let message ← c.host.str error
        c.execution.completed c.bodyFinish (malformedFrameOutcome message) [] none none
    else if error.isPayloadDispatchError then
      c.unlessStopped c.timeline.ended true do
        let message ← c.host.str error
        c.execution.completed c.bodyFinish (.exited 1) [] (some message) none
    else .error error
  | .ok result =>
    c.unlessStopped c.timeline.ended true do
      let document ← c.host.buildIdentityDocument envelopeSchema envelopeSchemaVersion result
      c.execution.completed c.bodyFinish (.exited 0) [document] none none

/-- The deadline's timer is started, where there is one; else this raises before the `try`. -/
def armed : Bool :=
  match c.wallTime.limit with
  | none => true
  | some deadlineNs =>
    let delay := c.execution.startedNs + deadlineNs - c.armedNs
    -- the division by a float converts the nanoseconds, however many
    delay < floatOverflow && -floatOverflow < delay && c.timerStarts

/-- What `except BaseException` of `_run_attempt` ends with; `none` where it raises. -/
def terminated (error : Raised) : Option (CompletedExecution C) :=
  error.instanceOfSystemExit.bind fun exits =>
    if exits then
      error.code.exitCode.bind fun exitCode =>
        (c.execution.completed c.caughtFinish (.exited exitCode) [] none none).toOption
    else
      (c.execution.completed c.caughtFinish (.exited 1) []
        (some (Text.lit "the importable JSON entry point terminated")) none).toOption

/-- `except BaseException` of `_run_attempt`; `none` where it raises. -/
def runCaught (error : Raised) : Option (CompletedExecution C) :=
  error.instanceOfKeyboardInterrupt.bind fun interrupts =>
    if interrupts then c.terminated error
    else
      match c.stopOutcome c.timeline.caught true with
      | some outcome => (c.execution.completed c.caughtFinish outcome [] none none).toOption
      | none => c.terminated error

/-- `_run_attempt`; `none` where it raises. -/
def runAttempt : Option (CompletedExecution C) :=
  if c.armed then
    match c.runBody with
    | .ok completed => some completed
    | .error error => c.runCaught error
  else none

/-- The run reaches `callable_entry(payload)`. -/
def enters : Bool :=
  c.armed && (c.stopOutcome c.timeline.dispatch false).isNone &&
    (dispatch c.host c.entryPoint c.request).isOk

/-- The outcome that is returned, if one is. -/
def outcome : Option ExecutionOutcome := c.runAttempt.map fun completed => completed.result.outcome

end Course

/-! ### What is completed, and where -/

/-- The wall clock did not step back. -/
def Finish.steady {execution : JobExecution} (finish : Finish execution) : Bool :=
  !finish.finishedAt.before execution.startedAt

theorem outcome_completedExecution {C : Codec} {executionId : ExecutionId}
    {recordReceipt : RecordReceipt} {outcome : ExecutionOutcome}
    {outputs : List (IdentityDocumentField C)} {inputBytes : ℕ} {detail : Option Text}
    {override : Option (ExecutionOutcome → ExecutionAttribution)} {clock : Readings}
    {completed : CompletedExecution C}
    (h : completedExecution executionId recordReceipt outcome outputs inputBytes detail override
      clock = .ok completed) : completed.result.outcome = outcome := by
  unfold completedExecution at h
  rcases hm : ExecutionMeasurements.new clock.startedAt clock.finishedAt
    (clock.finishedNs - clock.startedNs) 0 inputBytes 0 with message | measurements
  · rw [hm] at h
    cases h
  · rw [hm] at h
    simp only [bind, Except.bind] at h
    split at h
    · cases h
    next result hresult =>
    unfold ExecutionResult.new at hresult
    unfold CompletedExecution.new at h
    split_ifs at hresult h
    cases hresult
    cases h
    rfl

/-- What a run comes to: what escapes it, if anything does; else, where the wall clock is steady, an
outcome of which `P` holds, and where it is not the error of a completion. -/
def Comes (steady : Bool) (escapes : Option Raised) (run : Except Raised ExecutionOutcome)
    (P : ExecutionOutcome → Prop) : Prop :=
  match escapes with
  | some error => run = .error error
  | none =>
    if steady then ∃ outcome, run = .ok outcome ∧ P outcome else run = .error validationError

theorem Comes.mono {steady : Bool} {escapes : Option Raised}
    {run : Except Raised ExecutionOutcome} {P Q : ExecutionOutcome → Prop}
    (h : Comes steady escapes run P) (hP : ∀ outcome, P outcome → Q outcome) :
    Comes steady escapes run Q := by
  rcases escapes with _ | error
  · rcases steady with _ | _
    · exact h
    · obtain ⟨outcome, hrun, hout⟩ := h
      exact ⟨outcome, hrun, hP outcome hout⟩
  · exact h

/-- The outcome of a completed execution. -/
def outcomeOf {C : Codec} (run : Except Raised (CompletedExecution C)) :
    Except Raised ExecutionOutcome :=
  run.map fun completed => completed.result.outcome

/-- **A completion** has the outcome it was given, unless the wall clock stepped back. -/
theorem JobExecution.comes {C : Codec} {execution : JobExecution}
    (finish : Finish execution) {outcome : ExecutionOutcome}
    {outputs : List (IdentityDocumentField C)} (hcounted : OutputCountMatches outcome outputs)
    (detail : Option Text) (override : Option (ExecutionOutcome → ExecutionAttribution)) :
    Comes finish.steady none
      (outcomeOf (execution.completed finish outcome outputs detail override)) (· = outcome) := by
  have hiff : (∃ completed, completedExecution execution.executionId
      (.inProcess execution.executionId) outcome outputs execution.inputBytes detail override
      finish.readings = .ok completed) ↔ finish.finishedAt.before execution.startedAt = false :=
    completedExecution_iff (by exact rfl) hcounted execution.inputBytes detail override finish.readings
  unfold JobExecution.completed outcomeOf
  rcases hc : completedExecution execution.executionId (.inProcess execution.executionId) outcome
    outputs execution.inputBytes detail override finish.readings with message | completed
  · rw [hc] at hiff
    have hback : finish.steady = false := by
      rw [Finish.steady, Bool.not_eq_false', ← Bool.not_eq_false]
      intro hsteady
      cases (hiff.mpr hsteady).choose_spec
    rw [hback]
    rfl
  · rw [hc] at hiff
    have hsteady : finish.steady = true := by
      rw [Finish.steady, hiff.mp ⟨completed, rfl⟩]
      rfl
    rw [hsteady]
    exact ⟨_, rfl, outcome_completedExecution hc⟩

/-- A completion that waits for a step before it. -/
theorem comes_bind {C : Codec} {α : Type} {steady : Bool} {first : Except Raised α}
    {next : α → Except Raised (CompletedExecution C)} {P : ExecutionOutcome → Prop}
    (h : ∀ a, Comes steady none (outcomeOf (next a)) P) :
    Comes steady (raisedBy (first.map fun _ => ())) (outcomeOf (first >>= next)) P := by
  rcases first with error | a
  · rfl
  · exact h a

/-- The outcome is not one of a stop. -/
def Unstopped : ExecutionOutcome → Prop
  | .cancelled _ | .budgetExceeded _ => False
  | _ => True

/-- How an invocation ends: rejected by the executor, which is taken for no stop's concern; taken up
by a handler that looks at the stop; or past the handlers of `_run_body`. -/
inductive Ending
  | rejected
  | looked
  | escaped
  deriving DecidableEq

namespace Course

variable {C : Codec} {Module Object : Type} (c : Course C Module Object)

def ending : Ending :=
  match c.invoke with
  | .ok _ => .looked
  | .error error =>
    if error.isExecutorDispatchError then .rejected
    else if error.isPayloadResultError || error.isPayloadDispatchError then .looked
    else .escaped

/-- What goes into the completion of an invocation that ended: the document of the result, or the
text of the error. -/
def rendered : Except Raised Unit :=
  match c.invoke with
  | .ok result =>
    (c.host.buildIdentityDocument envelopeSchema envelopeSchemaVersion result).map fun _ => ()
  | .error error => (c.host.str error).map fun _ => ()

/-- The exception that passes the handlers of `_run_body`, where a completion's own does not. -/
def escapes : Option Raised :=
  if (c.stopOutcome c.timeline.dispatch false).isSome then none
  else
    match c.ending with
    | .rejected => raisedBy c.rendered
    | .looked =>
      if (c.stopOutcome c.timeline.ended true).isSome then none else raisedBy c.rendered
    | .escaped => raisedBy c.invoke

/-- `_run_body` completes the attempt: the wall clock is steady, and nothing escapes. -/
def bodyCompletes : Bool := c.bodyFinish.steady && c.escapes.isNone

variable {c}

theorem counted_stopOutcome {look : Look} {started : Bool} {outcome : ExecutionOutcome}
    (h : c.stopOutcome look started = some outcome) :
    OutputCountMatches outcome ([] : List (IdentityDocumentField C)) := by
  unfold stopOutcome at h
  split_ifs at h <;> cases h <;> trivial

/-- A look at the stop, and what follows. -/
theorem comes_unlessStopped {look : Look} {started : Bool} {escapes : Option Raised}
    {rest : Except Raised (CompletedExecution C)} {P : ExecutionOutcome → Prop}
    (h : Comes c.bodyFinish.steady escapes (outcomeOf rest) P) :
    Comes c.bodyFinish.steady (if (c.stopOutcome look started).isSome then none else escapes)
      (outcomeOf (c.unlessStopped look started rest)) fun outcome =>
        c.stopOutcome look started = some outcome ∨ c.stopOutcome look started = none ∧ P outcome := by
  unfold unlessStopped
  rcases hstop : c.stopOutcome look started with _ | stopped
  · rw [Option.isSome_none, if_neg Bool.false_ne_true]
    exact h.mono fun outcome hP => .inr ⟨rfl, hP⟩
  · rw [Option.isSome_some, if_pos rfl]
    exact (JobExecution.comes c.bodyFinish (counted_stopOutcome hstop) none none).mono
      fun outcome he => .inl (congrArg some he.symm)

/-- A completion of what is no stop. -/
theorem comes_unstopped {outcome : ExecutionOutcome} {outputs : List (IdentityDocumentField C)}
    (hcounted : OutputCountMatches outcome outputs) (hunstopped : Unstopped outcome)
    (detail : Option Text) (override : Option (ExecutionOutcome → ExecutionAttribution)) :
    Comes c.bodyFinish.steady none
      (outcomeOf (c.execution.completed c.bodyFinish outcome outputs detail override)) Unstopped := by
  refine (JobExecution.comes c.bodyFinish hcounted detail override).mono ?_
  rintro _ rfl
  exact hunstopped

/-- **What `_run_body` comes to**, by where the stop is seen and how the invocation ends. -/
theorem comes_runBody : Comes c.bodyFinish.steady c.escapes (outcomeOf c.runBody) fun outcome =>
    c.stopOutcome c.timeline.dispatch false = some outcome ∨
      c.stopOutcome c.timeline.dispatch false = none ∧
        (c.ending = .rejected ∧ Unstopped outcome ∨
          c.ending = .looked ∧ (c.stopOutcome c.timeline.ended true = some outcome ∨
            c.stopOutcome c.timeline.ended true = none ∧ Unstopped outcome)) := by
  unfold escapes runBody
  refine comes_unlessStopped ?_
  have hlooked : ∀ {rest : Except Raised (CompletedExecution C)},
      Comes c.bodyFinish.steady (raisedBy c.rendered) (outcomeOf rest) Unstopped →
      Comes c.bodyFinish.steady
        (if (c.stopOutcome c.timeline.ended true).isSome then none else raisedBy c.rendered)
        (outcomeOf (c.unlessStopped c.timeline.ended true rest)) fun outcome =>
          Ending.looked = .rejected ∧ Unstopped outcome ∨
            Ending.looked = .looked ∧ (c.stopOutcome c.timeline.ended true = some outcome ∨
              c.stopOutcome c.timeline.ended true = none ∧ Unstopped outcome) :=
    fun hrest => (comes_unlessStopped hrest).mono fun outcome h => .inr ⟨rfl, h⟩
  rcases hi : c.invoke with error | result
  · have hrendered : c.rendered = (c.host.str error).map fun _ => () := by rw [rendered, hi]
    have hending : c.ending = if error.isExecutorDispatchError then .rejected
        else if error.isPayloadResultError || error.isPayloadDispatchError then .looked
        else .escaped := by rw [ending, hi]
    dsimp only
    by_cases hrejected : error.isExecutorDispatchError = true
    · rw [if_pos hrejected] at hending ⊢
      rw [hending, hrendered]
      refine Comes.mono (comes_bind fun message => ?_) fun outcome h => .inl ⟨rfl, h⟩
      exact comes_unstopped (by exact rfl) (by exact trivial) none _
    rw [if_neg hrejected] at hending ⊢
    by_cases hresult : error.isPayloadResultError = true
    · rw [hresult, Bool.true_or, if_pos rfl] at hending
      rw [hending, if_pos hresult]
      refine hlooked ?_
      rw [hrendered]
      exact comes_bind fun message => comes_unstopped (by exact rfl) (by exact trivial) none none
    rw [if_neg hresult]
    by_cases hpayload : error.isPayloadDispatchError = true
    · rw [hpayload, Bool.or_true, if_pos rfl] at hending
      rw [hending, if_pos hpayload]
      refine hlooked ?_
      rw [hrendered]
      exact comes_bind fun message => comes_unstopped (by exact trivial) (by exact trivial) (some message) none
    · rw [if_neg (by simp [hresult, hpayload])] at hending
      rw [hending, if_neg hpayload]
      rfl
  · have hrendered : c.rendered = (c.host.buildIdentityDocument envelopeSchema
        envelopeSchemaVersion result).map fun _ => () := by rw [rendered, hi]
    have hending : c.ending = .looked := by rw [ending, hi]
    rw [hending]
    refine hlooked ?_
    rw [hrendered]
    exact comes_bind fun document => comes_unstopped (by exact trivial) (by exact trivial) none none

/-! ### Where it is caught -/

theorem outcome_of_completed {outcome : ExecutionOutcome} (harmed : c.armed = true)
    (h : outcomeOf c.runBody = .ok outcome) : c.outcome = some outcome := by
  unfold Course.outcome runAttempt
  rw [if_pos harmed]
  unfold outcomeOf at h
  rcases hbody : c.runBody with error | completed
  · rw [hbody] at h
    cases h
  · rw [hbody] at h
    exact congrArg some (Except.ok.inj h)

theorem outcome_of_raised {error : Raised} (harmed : c.armed = true)
    (h : outcomeOf c.runBody = .error error) :
    c.runBody = .error error ∧
      c.outcome = (c.runCaught error).map fun completed => completed.result.outcome := by
  unfold Course.outcome runAttempt
  rw [if_pos harmed]
  unfold outcomeOf at h
  rcases hbody : c.runBody with raised | completed
  · rw [hbody] at h
    obtain rfl : raised = error := Except.error.inj h
    exact ⟨rfl, rfl⟩
  · rw [hbody] at h
    cases h

theorem outcome_of_unarmed (h : c.armed = false) : c.outcome = none := by
  unfold Course.outcome runAttempt
  rw [h]
  rfl

/-- A completion where an exception is caught. -/
theorem toOption_completed {outcome : ExecutionOutcome}
    {outputs : List (IdentityDocumentField C)} (hcounted : OutputCountMatches outcome outputs)
    (detail : Option Text) (override : Option (ExecutionOutcome → ExecutionAttribution)) :
    ((c.execution.completed c.caughtFinish outcome outputs detail override).toOption.map
      fun completed => completed.result.outcome) =
        if c.caughtFinish.steady then some outcome else none := by
  have hcomes := JobExecution.comes c.caughtFinish hcounted detail override
  generalize c.execution.completed c.caughtFinish outcome outputs detail override = run
    at hcomes ⊢
  rcases hsteady : c.caughtFinish.steady with _ | _
  · rw [hsteady] at hcomes
    rcases run with error | completed
    · rfl
    · cases (show Except.ok _ = Except.error _ from hcomes)
  · rw [hsteady] at hcomes
    obtain ⟨_, hok, rfl⟩ := hcomes
    rcases run with error | completed
    · cases hok
    · exact congrArg some (Except.ok.inj hok)

/-- What is caught and taken for no stop exits. -/
theorem exited_of_terminated {error : Raised} {outcome : ExecutionOutcome}
    (h : ((c.terminated error).map fun completed => completed.result.outcome) = some outcome) :
    ∃ exitCode, outcome = .exited exitCode := by
  have hexited : ∀ exitCode detail, ((c.execution.completed c.caughtFinish (.exited exitCode)
      ([] : List (IdentityDocumentField C)) detail none).toOption.map
        fun completed => completed.result.outcome) = some outcome → outcome = .exited exitCode := by
    intro exitCode detail hdone
    rw [toOption_completed (by exact trivial)] at hdone
    split_ifs at hdone
    exact (Option.some.inj hdone).symm
  unfold terminated at h
  rcases hread : error.instanceOfSystemExit with _ | _ | _ <;> rw [hread] at h
  · cases h
  · exact ⟨1, hexited 1 _ h⟩
  · rw [Option.bind_some, if_pos rfl] at h
    rcases hcode : error.code.exitCode with _ | exitCode <;> rw [hcode] at h
    · cases h
    · exact ⟨exitCode, hexited exitCode none h⟩

/-- **What is caught**: a stop that is seen is the outcome where the exception is found to be no
interrupt, and else none is. -/
theorem outcome_runCaught {error : Raised} :
    (∀ stopped, c.stopOutcome c.timeline.caught true = some stopped →
      error.instanceOfKeyboardInterrupt = some false →
      ((c.runCaught error).map fun completed => completed.result.outcome) =
        if c.caughtFinish.steady then some stopped else none) ∧
      (∀ outcome, ((c.runCaught error).map fun completed => completed.result.outcome) = some outcome →
        c.stopOutcome c.timeline.caught true = some outcome ∧
          error.instanceOfKeyboardInterrupt = some false ∨ Unstopped outcome) := by
  unfold runCaught
  constructor
  · intro stopped hstop hnone
    rw [hnone, Option.bind_some, if_neg Bool.false_ne_true, hstop]
    exact toOption_completed (counted_stopOutcome hstop) none none
  · intro outcome hcaught
    have hexits : ((c.terminated error).map fun completed => completed.result.outcome) =
        some outcome → Unstopped outcome := by
      intro hterminated
      obtain ⟨exitCode, rfl⟩ := exited_of_terminated hterminated
      trivial
    rcases hread : error.instanceOfKeyboardInterrupt with _ | _ | _ <;> rw [hread] at hcaught
    · cases hcaught
    · rw [Option.bind_some, if_neg Bool.false_ne_true] at hcaught
      rcases hstop : c.stopOutcome c.timeline.caught true with _ | stopped <;> rw [hstop] at hcaught
      · exact .inr (hexits hcaught)
      · rw [toOption_completed (counted_stopOutcome hstop)] at hcaught
        split_ifs at hcaught
        exact .inl ⟨hcaught, rfl⟩
    · exact .inr (hexits hcaught)

end Course

/-- An interpreter whose import and whose entry point end as they are told. -/
def hostOf (imported called : Except Raised Unit) : Host plainCodec Unit Unit where
  repr _ := Text.lit "'payload'"
  strRaises error := error
  validatePayload := .ok
  importModule _ := imported
  getattr _ _ := .ok ()
  callable _ := true
  call _ _ := called
  formatPayloadErrorDetail _ := .ok (Text.lit "raised")
  validateResult _ := .ok .null
  buildIdentityDocument _ _ _ := .error validationError

/-- An attempt with no deadline; the looks are taken at the moments 10, 20 and 30. -/
def attemptOf (host : Host plainCodec Unit Unit) (cancelAt : Option ℕ) :
    Course plainCodec Unit Unit where
  execution := ⟨⟨nilUuid, nilUuid⟩, ⟨2026, 8, 5, 12, 0, 0, 0, validTime_noon⟩, 0, 0⟩
  entryPoint := ⟨text "payload", text "main"⟩
  request := ⟨envelopeSchema, envelopeSchemaVersion, .null, rfl⟩
  wallTime := .unbudgeted
  armedNs := 0
  timerStarts := true
  host := host
  timeline := ⟨cancelAt, none, ⟨10, 10, le_rfl⟩, ⟨20, 20, le_rfl⟩, ⟨30, 30, le_rfl⟩, by decide,
    by decide⟩
  bodyFinish := ⟨⟨2026, 8, 5, 12, 0, 1, 0, validTime_later⟩, 1000, by decide⟩
  caughtFinish := ⟨⟨2026, 8, 5, 12, 0, 1, 0, validTime_later⟩, 1000, by decide⟩

end DrExec.Execution.InProcess
