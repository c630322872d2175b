import DrExec.Execution.WorkerAnswers

/-! # Two modes of one job

An importable JSON job runs in process or on a worker of a pool. In process the entry point is called
directly; a worker reads the request, calls it and writes an answer, which nests what was returned
two levels deeper. With no stop the two completions agree, in outcome, owner and parsed result,
exactly when the worker has an answer and writes it (`modes_agree_iff`); else its death is reported
in its place. -/

namespace DrExec.Execution.Modes

open DrExec.Core.Identity DrExec.Core.Model DrExec.Declarations.Models DrExec.Lib DrExec.Lib.Json
open DrExec.Recording.Models
open DrExec.Recording.Outcomes DrExec.Runtime.Wire
open DrExec.Execution.Completion DrExec.Execution.InProcess DrExec.Execution.WorkerAnswers
open DrExec.Execution.WorkerFrames (Worker WorkerFrameStatus WrittenRequest)

variable {C : Codec} {Module Object : Type}

/-! ### Completions -/

/-- The owner of an attribution. -/
def ownerOf (outcome : ExecutionOutcome)
    (override : Option (ExecutionOutcome → ExecutionAttribution)) : FailureOwner :=
  match override, outcome with
  | some override, .protocolFailed _ _ _ => (override outcome).owner
  | _, _ => (attributeOutcome outcome).owner

/-- What a completion says of an attempt: the outcome, the owner and the outputs. -/
def Says (completed : CompletedExecution C) (outcome : ExecutionOutcome) (owner : FailureOwner)
    (outputs : List (IdentityDocumentField C)) : Prop :=
  completed.result.outcome = outcome ∧ completed.result.attribution.owner = owner ∧
    completed.result.protocolOutputs = outputs

theorem says_completedExecution {executionId : ExecutionId} {recordReceipt : RecordReceipt}
    {outcome : ExecutionOutcome} {outputs : List (IdentityDocumentField C)} {inputBytes : ℕ}
    {detail : Option Text} {override : Option (ExecutionOutcome → ExecutionAttribution)}
    {clock : Readings} {completed : CompletedExecution C}
    (h : completedExecution executionId recordReceipt outcome outputs inputBytes detail override
      clock = .ok completed) : Says completed outcome (ownerOf outcome override) outputs := by
  unfold completedExecution at h
  rcases hm : ExecutionMeasurements.new clock.startedAt clock.finishedAt
    (clock.finishedNs - clock.startedNs) 0 inputBytes 0 with message | measurements
  · rw [hm] at h
    cases h
  · rw [hm] at h
    simp only [bind, Except.bind] at h
    split at h
    · cases h
    next result hresult =>
    unfold ExecutionResult.new at hresult
    unfold CompletedExecution.new at h
    split_ifs at hresult h
    cases hresult
    cases h
    refine ⟨rfl, ?_, rfl⟩
    cases detail <;> cases override <;> cases outcome <;> rfl

/-- A completion that is given by a run, with what it says. -/
def Gives (run : Except Raised (CompletedExecution C)) (outcome : ExecutionOutcome)
    (owner : FailureOwner) (outputs : List (IdentityDocumentField C)) : Prop :=
  ∃ completed, run = .ok completed ∧ Says completed outcome owner outputs

theorem before_eq_false {execution : JobExecution} {finish : Finish execution}
    (hsteady : finish.steady = true) :
    finish.readings.finishedAt.before finish.readings.startedAt = false := by
  change finish.finishedAt.before execution.startedAt = false
  simpa [Finish.steady] using hsteady

/-- In process. -/
theorem gives_completed {execution : JobExecution} {finish : Finish execution}
    (hsteady : finish.steady = true) {outcome : ExecutionOutcome}
    {outputs : List (IdentityDocumentField C)} (hcounted : OutputCountMatches outcome outputs)
    (detail : Option Text) (override : Option (ExecutionOutcome → ExecutionAttribution)) :
    Gives (execution.completed finish outcome outputs detail override) outcome
      (ownerOf outcome override) outputs := by
  obtain ⟨completed, hcompleted⟩ := (completedExecution_iff
    (show execution.executionId = (RecordReceipt.inProcess execution.executionId).executionId from rfl)
    hcounted execution.inputBytes detail override finish.readings).mpr
    (before_eq_false hsteady)
  refine ⟨completed, ?_, says_completedExecution hcompleted⟩
  rw [JobExecution.completed, hcompleted]
  rfl

/-- On a worker. -/
theorem gives_pooled {execution : PooledExecution} {finish : Finish execution.toJobExecution}
    (hsteady : finish.steady = true) {outcome : ExecutionOutcome}
    {outputs : List (IdentityDocumentField C)} (hcounted : OutputCountMatches outcome outputs)
    (detail : Option Text) (override : Option (ExecutionOutcome → ExecutionAttribution)) :
    Gives (execution.completed finish outcome outputs detail override) outcome
      (ownerOf outcome override) outputs := by
  obtain ⟨completed, hcompleted⟩ := (completedExecution_iff
    (show execution.executionId = (RecordReceipt.workerPool execution.executionId).executionId from rfl)
    hcounted execution.inputBytes detail override finish.readings).mpr
    (before_eq_false hsteady)
  refine ⟨completed, ?_, says_completedExecution hcompleted⟩
  rw [PooledExecution.completed, hcompleted]
  rfl

/-! ### Agreement -/

/-- An outcome without its texts. -/
def withoutTexts : ExecutionOutcome → ExecutionOutcome
  | .protocolFailed failureCode _ acceptedOutputCount =>
    .protocolFailed failureCode (Text.lit "") acceptedOutputCount
  | .spawnAbsent _ => .spawnAbsent (Text.lit "")
  | .spawnFailed errno _ => .spawnFailed errno (Text.lit "")
  | outcome => outcome

/-- Two completions agree: in the kind of their outcomes and its codes, in the owner, and in what
is parsed of them. -/
structure Agree (parent : Parent C) (a b : CompletedExecution C) : Prop where
  outcome : withoutTexts a.result.outcome = withoutTexts b.result.outcome
  owner : a.result.attribution.owner = b.result.attribution.owner
  parsed : (parseImportableJsonResult parent a).toOption =
    (parseImportableJsonResult parent b).toOption

/-- What is parsed depends on the outcome, without its texts, and the outputs. -/
theorem Agree.of_says {parent : Parent C} {a b : CompletedExecution C}
    {outcome outcome' : ExecutionOutcome} {owner : FailureOwner}
    {outputs : List (IdentityDocumentField C)} (ha : Says a outcome owner outputs)
    (hb : Says b outcome' owner outputs) (htexts : withoutTexts outcome = withoutTexts outcome') :
    Agree parent a b := by
  obtain ⟨haoutcome, haowner, haoutputs⟩ := ha
  obtain ⟨hboutcome, hbowner, hboutputs⟩ := hb
  have hzero : outcome = .exited 0 ↔ outcome' = .exited 0 := by
    cases outcome <;> cases outcome' <;> simp_all [withoutTexts]
  refine ⟨by rw [haoutcome, hboutcome, htexts], by rw [haowner, hbowner], ?_⟩
  rw [parseImportableJsonResult, parseImportableJsonResult, haoutcome, hboutcome, haoutputs,
    hboutputs]
  simp only [ne_eq, hzero]

/-! ### In process -/

/-- An attempt in process with no stop, over which the wall clock does not step back. -/
structure Quiet (c : Course C Module Object) : Prop where
  uncancelled : c.timeline.cancelAt = none
  unlimited : c.wallTime.limit = none
  bodySteady : c.bodyFinish.steady = true

section InProcess

variable {c : Course C Module Object} {callableEntry : Object} {payload : Json}

theorem Quiet.stopOutcome (h : Quiet c) (look : Look) (started : Bool) :
    c.stopOutcome look started = none := by
  rw [Course.stopOutcome, Course.cancelled, Course.expired, h.uncancelled, h.unlimited]
  rfl

theorem Quiet.runAttempt (h : Quiet c) {completed : CompletedExecution C}
    (hbody : c.runBody = .ok completed) : c.runAttempt = some completed := by
  have harmed : c.armed = true := by
    rw [Course.armed, h.unlimited]
  rw [Course.runAttempt, if_pos harmed, hbody]

/-- The request of a job that is dispatched is an envelope, whose payload is strict JSON. -/
theorem payload_of_dispatch {host : Host C Module Object} {entryPoint : ImportableEntryPoint}
    {request : IdentityDocument} (h : dispatch host entryPoint request = .ok (callableEntry, payload)) :
    isImportableJsonEnvelope request = true ∧ host.validatePayload request.payload = .ok payload := by
  unfold dispatch at h
  split_ifs at h with henvelope
  refine ⟨by simpa using henvelope, ?_⟩
  rcases hpayload : host.validatePayload request.payload with error | validated
  · rw [hpayload] at h
    simp only [tryExcept] at h
    split_ifs at h <;> cases h
  · rw [hpayload] at h
    simp only [tryExcept, bind, Except.bind] at h
    split at h
    · cases h
    · split at h
      · cases h
      · split_ifs at h
        exact congrArg Except.ok (Prod.mk.inj (Except.ok.inj h)).2

theorem callEntry_eq_ok {host : Host C Module Object} {result : Json} :
    callEntry host callableEntry payload = .ok result ↔
      ∃ returned, host.call callableEntry payload = .ok returned ∧
        host.validateResult returned = .ok result := by
  rw [callEntry]
  rcases hcall : host.call callableEntry payload with error | returned
  · simp only [tryExcept, bind, Except.bind]
    cases error.isException <;> cases host.formatPayloadErrorDetail error <;> simp
  · rcases hvalid : host.validateResult returned with error | validated
    · simp only [tryExcept, bind, Except.bind, hvalid]
      cases error.isStrictJsonError <;> simp [hvalid]
    · simp [tryExcept, bind, Except.bind, hvalid]

/-- What `_run_body` makes of an invocation with no stop. -/
def bodyOf (c : Course C Module Object) : Except Raised Json → Except Raised (CompletedExecution C)
  | .error error =>
    if error.isExecutorDispatchError then do
      let message ← c.host.str error
      c.execution.completed c.bodyFinish (malformedFrameOutcome message) [] none
        (some executorProtocolFailureAttribution)
    else if error.isPayloadResultError then do
      let message ← c.host.str error
      c.execution.completed c.bodyFinish (malformedFrameOutcome message) [] none none
    else if error.isPayloadDispatchError then do
      let message ← c.host.str error
      c.execution.completed c.bodyFinish (.exited 1) [] (some message) none
    else .error error
  | .ok result => do
    let document ← c.host.buildIdentityDocument envelopeSchema envelopeSchemaVersion result
    c.execution.completed c.bodyFinish (.exited 0) [document] none none

theorem Quiet.runBody (h : Quiet c)
    (hdispatch : dispatch c.host c.entryPoint c.request = .ok (callableEntry, payload)) :
    c.runBody = bodyOf c (callEntry c.host callableEntry payload) := by
  have hinvoke : c.invoke = callEntry c.host callableEntry payload := by
    rw [Course.invoke, hdispatch]
    rfl
  rw [Course.runBody, hinvoke]
  simp only [Course.unlessStopped, h.stopOutcome]
  rcases callEntry c.host callableEntry payload with error | result <;> rfl

theorem says_of_ok {execution : JobExecution} {finish : Finish execution}
    {outcome : ExecutionOutcome} {outputs : List (IdentityDocumentField C)} {detail : Option Text}
    {override : Option (ExecutionOutcome → ExecutionAttribution)} {completed : CompletedExecution C}
    (h : execution.completed finish outcome outputs detail override = .ok completed) :
    Says completed outcome (ownerOf outcome override) outputs := by
  unfold JobExecution.completed at h
  rcases hc : completedExecution execution.executionId (.inProcess execution.executionId) outcome
    outputs execution.inputBytes detail override finish.readings with message | done
  · rw [hc] at h
    cases h
  · rw [hc] at h
    cases h
    exact says_completedExecution hc

/-- An attempt that nothing is emitted of, and that no signal ended. -/
def Silent (completed : CompletedExecution C) : Prop :=
  completed.result.protocolOutputs = [] ∧ ∀ n, completed.result.outcome ≠ .signaled n

theorem silent_of_ok {execution : JobExecution} {finish : Finish execution}
    {outcome : ExecutionOutcome} {detail : Option Text}
    {override : Option (ExecutionOutcome → ExecutionAttribution)} {completed : CompletedExecution C}
    (h : execution.completed finish outcome [] detail override = .ok completed)
    (houtcome : ∀ n, outcome ≠ .signaled n) : Silent completed := by
  obtain ⟨htells, -, houtputs⟩ := says_of_ok h
  exact ⟨houtputs, fun n hn => houtcome n (htells ▸ hn)⟩

/-- An exception that leaves the body ends the attempt with no output. -/
theorem Quiet.silent_runCaught (h : Quiet c) {error : Raised} {completed : CompletedExecution C}
    (hrun : c.runCaught error = some completed) : Silent completed := by
  have hcaught : ∀ {exitCode : ℤ} {detail : Option Text},
      (c.execution.completed c.caughtFinish (.exited exitCode) [] detail none).toOption =
        some completed → Silent completed := by
    intro exitCode detail hdone
    rcases hc : c.execution.completed c.caughtFinish (.exited exitCode) [] detail none with
      error | found
    · rw [hc] at hdone
      cases hdone
    · rw [hc] at hdone
      obtain rfl := Option.some.inj hdone
      exact silent_of_ok hc nofun
  obtain ⟨-, -, hterminated⟩ : ∃ interrupts, error.instanceOfKeyboardInterrupt = some interrupts ∧
      c.terminated error = some completed := by
    simpa only [Course.runCaught, h.stopOutcome, ite_self, Option.bind_eq_some_iff] using hrun
  unfold Course.terminated at hterminated
  obtain ⟨exits, -, hterminated⟩ := Option.bind_eq_some_iff.mp hterminated
  split_ifs at hterminated
  · obtain ⟨exitCode, -, hdone⟩ := Option.bind_eq_some_iff.mp hterminated
    exact hcaught hdone
  · exact hcaught hterminated

/-- The document of an attempt: what the entry point returned, as strict JSON, is built. -/
structure Built (c : Course C Module Object) (callableEntry : Object) (payload result : Json)
    (document : IdentityDocumentField C) : Prop where
  returned : ∃ returned, c.host.call callableEntry payload = .ok returned ∧
    c.host.validateResult returned = .ok result
  built : c.host.buildIdentityDocument envelopeSchema envelopeSchemaVersion result = .ok document

/-- **What an attempt in process ends as**: silent, or with the one document of its result. -/
theorem Quiet.completed_cases (h : Quiet c)
    (hdispatch : dispatch c.host c.entryPoint c.request = .ok (callableEntry, payload))
    {completed : CompletedExecution C} (hrun : c.runAttempt = some completed) :
    Silent completed ∨ ∃ result document, Built c callableEntry payload result document ∧
      Says completed (.exited 0) (ownerOf (.exited 0) none) [document] := by
  unfold Course.runAttempt at hrun
  split_ifs at hrun
  rcases hbody : c.runBody with error | done
  · rw [hbody] at hrun
    exact .inl (h.silent_runCaught hrun)
  rw [hbody] at hrun
  obtain rfl := Option.some.inj hrun
  rw [h.runBody hdispatch] at hbody
  rcases hcalled : callEntry c.host callableEntry payload with error | result
  · rw [hcalled, bodyOf] at hbody
    rcases htext : c.host.str error with raised | message <;> rw [htext] at hbody
    · split_ifs at hbody <;> cases hbody
    · split_ifs at hbody <;> exact .inl (silent_of_ok hbody nofun)
  · rw [hcalled, bodyOf] at hbody
    rcases hbuilt : c.host.buildIdentityDocument envelopeSchema envelopeSchemaVersion result with
      error | document
    · rw [hbuilt] at hbody
      cases hbody
    · rw [hbuilt] at hbody
      exact .inr ⟨result, document, ⟨callEntry_eq_ok.mp hcalled, hbuilt⟩, says_of_ok hbody⟩

/-- **No attempt in process dies on a signal.** -/
theorem Quiet.not_signaled (h : Quiet c)
    (hdispatch : dispatch c.host c.entryPoint c.request = .ok (callableEntry, payload))
    {completed : CompletedExecution C} (hrun : c.runAttempt = some completed) (n : ℕ+) :
    completed.result.outcome ≠ .signaled n := by
  rcases h.completed_cases hdispatch hrun with hsilent | ⟨result, document, -, htells, -⟩
  · exact hsilent.2 n
  · rw [htells]
    nofun

/-- What is parsed of an attempt in process is the result, if a document of it is built. -/
theorem Quiet.parsed_iff (h : Quiet c)
    (hdispatch : dispatch c.host c.entryPoint c.request = .ok (callableEntry, payload))
    {parent : Parent C} {v : Json} :
    (∃ completed, c.runAttempt = some completed ∧
        parseImportableJsonResult parent completed = .ok v) ↔
      ∃ result document, Built c callableEntry payload result document ∧
        isImportableJsonEnvelope document.1 = true ∧
        parent.validateStrictJson document.1.payload = .ok v := by
  constructor
  · rintro ⟨completed, hrun, hparsed⟩
    unfold parseImportableJsonResult at hparsed
    split_ifs at hparsed
    split at hparsed
    swap
    · cases hparsed
    next output houtputs =>
    split_ifs at hparsed with henvelope
    rcases h.completed_cases hdispatch hrun with hsilent | ⟨result, document, hbuilt, -, -, htells⟩
    · cases hsilent.1.symm.trans houtputs
    · cases htells.symm.trans houtputs
      exact ⟨result, output, hbuilt, by simpa using henvelope, hparsed⟩
  · rintro ⟨result, document, hbuilt, henvelope, hvalid⟩
    obtain ⟨completed, hcompleted, hzero, -, houtputs⟩ := gives_completed h.bodySteady
      (show OutputCountMatches (.exited 0) [document] from trivial) none none
    refine ⟨completed, h.runAttempt ?_, ?_⟩
    · rw [h.runBody hdispatch, callEntry_eq_ok.mpr hbuilt.returned, bodyOf, hbuilt.built]
      exact hcompleted
    · rw [parseImportableJsonResult, if_neg (not_not.mpr hzero), houtputs]
      simp only [henvelope, Bool.not_true, Bool.false_eq_true, if_false, hvalid]

end InProcess

/-! ### On a worker -/

/-- The worker handles the request of the job: the same document, read at a depth that its
interpreter reads, over the same dr_serialize, with the same entry point; the parent reads what it
writes, and what it nests in a frame is itself a payload. -/
structure SameJob (c : Course C Module Object) (worker : Worker Object) (parent : Parent C)
    (request : WrittenRequest worker) (callableEntry : Object) (payload : Json) : Prop where
  document : request.document = c.request
  shallow : worker.recursionError request.loaded = none
  dispatched : dispatch c.host c.entryPoint c.request = .ok (callableEntry, payload)
  strict : worker.validateStrictJson = c.host.validatePayload
  called : ∀ k, worker.entryPoint k payload = c.host.call callableEntry payload
  validated : worker.validateReturned = c.host.validateResult
  rendered : ∀ error, (worker.formatPayloadErrorDetail error).isOk =
    (c.host.formatPayloadErrorDetail error).isOk
  built : c.host.buildIdentityDocument = parent.buildIdentityDocument
  unordered : ∀ v : Json, parent.buildIdentityDocument envelopeSchema envelopeSchemaVersion
    v.normalize = parent.buildIdentityDocument envelopeSchema envelopeSchemaVersion v
  member : ∀ v frame, worker.resultFrame v = .ok frame →
    ∃ document, parent.buildIdentityDocument envelopeSchema envelopeSchemaVersion v = .ok document
  answers : ReadsAnswers worker parent

section Worker

variable {c : Course C Module Object} {worker : Worker Object} {parent : Parent C}
  {request : WrittenRequest worker} {callableEntry : Object} {payload : Json}

/-- The frame of the request. -/
def requestFrame (request : WrittenRequest worker) : Bytes :=
  request.bytes ++ [WorkerFrames.workerFrameTerminator]

/-- The worker reads the request and calls the entry point. -/
theorem SameJob.answer_handle (h : SameJob c worker parent request callableEntry payload) (k : ℕ) :
    (worker.handle k (requestFrame request)).answer =
      worker.answer (c.host.call callableEntry payload) := by
  obtain ⟨henvelope, hvalid⟩ := payload_of_dispatch h.dispatched
  have hterminator : Utf8.decodeStrict [WorkerFrames.workerFrameTerminator] = some [10] := rfl
  have hloads : JsonLoads.loads (request.text ++ [(10 : CodePoint)]) = some request.loaded := by
    refine JsonLoads.loads_append_blanks request.loads request.begins fun c hc => ?_
    rw [List.mem_singleton.mp hc]
    rfl
  have hschema : ¬(request.document.schema ≠ WorkerFrames.envelopeSchema ∨
      request.document.schemaVersion ≠ WorkerFrames.envelopeSchemaVersion) := by
    have hfields : c.request.schema = envelopeSchema ∧
        c.request.schemaVersion = envelopeSchemaVersion := by
      simpa [isImportableJsonEnvelope] using henvelope
    rw [h.document, not_or, not_not, not_not]
    exact hfields
  have hdecode : worker.decodeRequest (requestFrame request) = .ok request.document := by
    rw [requestFrame, worker.decodeRequest_eq (Utf8.decodeStrict_append request.decodes hterminator),
      Worker.jsonLoads, hloads]
    simp only [h.shallow]
    change (worker.decodeLoaded request.loaded) = _
    rw [Worker.decodeLoaded, request.validates]
    exact if_neg hschema
  rw [← h.document] at hvalid
  rw [Worker.handle, hdecode, h.strict]
  simp only [hvalid, h.called]

/-- A reply that is a frame, interpreted, agrees with what is completed in process. -/
theorem SameJob.agree_of_answer (h : SameJob c worker parent request callableEntry payload)
    (hquiet : Quiet c) (execution : PooledExecution) {finish : Finish execution.toJobExecution}
    (hsteady : finish.steady = true) {frame : Bytes}
    (hframe : worker.answer (c.host.call callableEntry payload) = .ok frame) :
    ∃ a b, c.runAttempt = some a ∧ execution.interpret finish parent frame = .ok b ∧
      Agree parent a b := by
  have hbody := hquiet.runBody h.dispatched
  rw [callEntry] at hbody
  rcases hcall : c.host.call callableEntry payload with raised | returned
  · -- the entry point raises
    rw [hcall] at hbody hframe
    simp only [Worker.answer] at hframe
    split_ifs at hframe with hexception
    rcases hdetail : worker.formatPayloadErrorDetail raised with error | detail
    · rw [hdetail] at hframe
      cases hframe
    rw [hdetail] at hframe
    replace hframe : worker.statusFrame .payloadRaised detail = .ok frame := hframe
    have hrendered := h.rendered raised
    rw [hdetail] at hrendered
    rcases hown : c.host.formatPayloadErrorDetail raised with error | ownDetail
    · rw [hown] at hrendered
      cases hrendered
    obtain ⟨a, ha, htellsA⟩ := gives_completed hquiet.bodySteady
      (show OutputCountMatches (.exited 1) ([] : List (IdentityDocumentField C)) from trivial)
      (some ownDetail) none
    obtain ⟨b, hb, htellsB⟩ := gives_pooled hsteady
      (show OutputCountMatches (.exited 1) ([] : List (IdentityDocumentField C)) from trivial)
      (some detail) none
    refine ⟨a, b, hquiet.runAttempt ?_, ?_, Agree.of_says htellsA htellsB rfl⟩
    · rw [hbody, ← ha]
      simp only [tryExcept, hexception, if_true, hown]
      rfl
    · rw [interpret_statusFrame h.answers execution finish hframe nofun]
      exact hb
  · rcases hresult : c.host.validateResult returned with raised | result
    · -- it returns what is no strict JSON
      rw [hcall] at hbody hframe
      simp only [Worker.answer, h.validated, hresult] at hframe
      split_ifs at hframe with hstrict
      rcases hmessage : worker.str raised with error | message
      · rw [hmessage] at hframe
        cases hframe
      rw [hmessage] at hframe
      replace hframe : worker.statusFrame .payloadResultInvalid message = .ok frame := hframe
      obtain ⟨a, ha, htellsA⟩ := gives_completed hquiet.bodySteady
        (show OutputCountMatches (malformedFrameOutcome (Text.lit
          "the importable JSON entry point returned non-strict JSON"))
            ([] : List (IdentityDocumentField C)) from rfl) none none
      obtain ⟨b, hb, htellsB⟩ := gives_pooled hsteady
        (show OutputCountMatches (malformedFrameOutcome message)
          ([] : List (IdentityDocumentField C)) from rfl) none none
      refine ⟨a, b, hquiet.runAttempt ?_, ?_, Agree.of_says htellsA htellsB rfl⟩
      · rw [hbody, ← ha]
        simp only [tryExcept, bind, Except.bind, hresult, hstrict, if_true]
        rfl
      · rw [interpret_statusFrame h.answers execution finish hframe nofun]
        exact hb
    · -- it returns a result
      rw [hcall] at hbody hframe
      simp only [Worker.answer, h.validated, hresult] at hframe
      obtain ⟨document, hdocument⟩ := h.member result frame hframe
      obtain ⟨a, ha, htellsA⟩ := gives_completed hquiet.bodySteady
        (show OutputCountMatches (.exited 0) [document] from trivial) none none
      obtain ⟨b, hb, htellsB⟩ := gives_pooled hsteady
        (show OutputCountMatches (.exited 0) [document] from trivial) none none
      refine ⟨a, b, hquiet.runAttempt ?_, ?_, Agree.of_says htellsA htellsB rfl⟩
      · rw [hbody, ← ha]
        simp only [tryExcept, bind, Except.bind, hresult, bodyOf, h.built, hdocument]
      · rw [interpret_resultFrame h.answers execution finish hframe, h.unordered, hdocument]
        exact hb

end Worker

/-! ### Agreement -/

/-- An object that inserts no key twice is one level above its values. -/
theorem depth_answer (result : Json) : (Json.obj [(text "status",
    .str (text WorkerFrameStatus.ok.value)), (text "result", result)]).depth = result.depth + 1 := by
  simp [depth, depthMembers]

section Agreement

variable {c : Course C Module Object} {worker : Worker Object} {parent : Parent C}
  {request : WrittenRequest worker} {callableEntry : Object} {payload : Json}

/-- **The two modes of a job agree exactly when the worker answers.** With no stop and no clock that
steps back, whatever the entry point returns or raises: if the worker has a frame to answer with and
writes it, both modes complete the job, with the same kind of outcome, the same owner and the same
parsed result; if something escapes its handler or the writing, the call is told of its death, and no
completion in process agrees with that. A dr_serialize that writes what nests within its bound writes
the answer of a result within it two levels deeper. -/
theorem modes_agree_iff (h : SameJob c worker parent request callableEntry payload)
    (hquiet : Quiet c) (execution : PooledExecution) {finish : Finish execution.toJobExecution}
    (hsteady : finish.steady = true) (k : ℕ) :
    ((∃ a b, c.runAttempt = some a ∧
        execution.exchange finish parent (replyTo worker k (requestFrame request)) = .ok b ∧
        Agree parent a b) ↔
      (worker.turn k (requestFrame request)).ended.isOk = true) ∧
    ∀ maxDepth returned result,
      (∀ answer, (worker.canonicalIdentityJsonBytes WorkerFrames.envelopeSchema
        WorkerFrames.envelopeSchemaVersion answer).isOk = decide (answer.depth + 1 ≤ maxDepth)) →
      c.host.call callableEntry payload = .ok returned →
      c.host.validateResult returned = .ok result →
      ((worker.handle k (requestFrame request)).answer.isOk = true ↔
        result.depth + 2 ≤ maxDepth) := by
  have hanswer := h.answer_handle k
  refine ⟨?_, fun maxDepth returned result hwrites hcall hresult => ?_⟩
  · rw [replyTo, Worker.turn, hanswer]
    -- the death of the worker is no completion in process
    have hdied : ¬ ∃ a b, c.runAttempt = some a ∧
        execution.exchange finish parent (.died killedBySelf) = .ok b ∧ Agree parent a b := by
      rintro ⟨a, b, ha, hb, hagree⟩
      obtain ⟨done, hdone, htells, -, -⟩ := gives_pooled hsteady
        (show OutputCountMatches (death killedBySelf) ([] : List (IdentityDocumentField C)) from
          trivial) (some (Text.lit "the worker died while running the payload")) none
      obtain rfl : done = b := Except.ok.inj (hdone.symm.trans hb)
      have hsignal : withoutTexts a.result.outcome = .signaled 9 := by
        rw [hagree.outcome, htells]
        rfl
      refine hquiet.not_signaled h.dispatched ha 9 ?_
      revert hsignal
      cases a.result.outcome <;> simp [withoutTexts]
    rcases hframe : worker.answer (c.host.call callableEntry payload) with error | frame
    · exact iff_of_false hdied (fun h => by cases h)
    dsimp only [Except.bind]
    rcases worker.write k frame with error | _
    · exact iff_of_false hdied (fun h => by cases h)
    · exact iff_of_true (h.agree_of_answer hquiet execution hsteady hframe) rfl
  · rw [hanswer, hcall, Worker.answer, h.validated]
    simp only [hresult, Worker.resultFrame, Worker.envelopeFrame]
    have hdepth := hwrites (.obj [(text "status", .str (text WorkerFrameStatus.ok.value)),
      (text "result", result)])
    rw [depth_answer] at hdepth
    rcases hbytes : worker.canonicalIdentityJsonBytes WorkerFrames.envelopeSchema
      WorkerFrames.envelopeSchemaVersion _ with error | bytes
    · rw [hbytes] at hdepth
      refine iff_of_false (fun h => by cases h) fun hle => ?_
      rw [decide_eq_true (by omega : result.depth + 1 + 1 ≤ maxDepth)] at hdepth
      cases hdepth
    · rw [hbytes] at hdepth
      exact iff_of_true rfl (of_decide_eq_true hdepth.symm)

end Agreement

/-! ### An entry point that returns `null` -/

/-- The answer that carries `null`. -/
def nullAnswer : Json :=
  .obj [(text "status", .str (text WorkerFrameStatus.ok.value)), (text "result", .null)]

/-- Its document, as it is read. -/
def nullAnswerDocument : IdentityDocument where
  schema := envelopeSchema
  schemaVersion := envelopeSchemaVersion
  payload := nullAnswer.normalize
  normal := normal_normalize _

def nullField : IdentityDocumentField plainCodec :=
  ⟨WorkerFrames.nullDocument, by decide +kernel⟩

/-- The worker of `WorkerFrames` over a dr_serialize that writes this answer. -/
def answeringWorker : Worker Unit :=
  { WorkerFrames.returningWorker with
    canonicalIdentityJsonBytes := fun _ _ answer =>
      if answer.scalar = true ∧ dumps answer = dumps nullAnswer then
        .ok (dumps nullAnswerDocument.toJsonDict)
      else .error { message := Text.lit "" } }

def answeredRequest : WrittenRequest answeringWorker where
  document := WorkerFrames.nullDocument
  bytes := WorkerFrames.nullBytes
  text := WorkerFrames.nullRequest.text
  loaded := WorkerFrames.nullRequest.loaded
  decodes := WorkerFrames.nullRequest.decodes
  loads := WorkerFrames.nullRequest.loads
  validates := WorkerFrames.nullRequest.validates
  begins := WorkerFrames.nullRequest.begins
  ends := WorkerFrames.nullRequest.ends
  line := WorkerFrames.nullRequest.line

/-- The parent, over the same dr_serialize. -/
def answeringParent : Parent plainCodec where
  recursionError _ := none
  validateIdentityDocument _ := .ok nullAnswerDocument
  buildIdentityDocument _ _ payload :=
    if dumps payload = dumps .null then .ok nullField else .error { message := Text.lit "" }
  validateStrictJson := .ok
  str _ := Text.lit "None"

def answeringHost : Host plainCodec Unit Unit :=
  { hostOf (.ok ()) (.ok ()) with
    buildIdentityDocument := answeringParent.buildIdentityDocument }

def pooledAttempt : PooledExecution where
  executionId := ⟨nilUuid, nilUuid⟩
  startedAt := ⟨2026, 8, 5, 12, 0, 0, 0, validTime_noon⟩
  startedNs := 0
  inputBytes := WorkerFrames.nullBytes.length
  transport := WorkerFrames.nullBytes
  inputBytes_eq := rfl

def pooledFinish : Finish pooledAttempt.toJobExecution :=
  ⟨⟨2026, 8, 5, 12, 0, 1, 0, validTime_later⟩, 1000, by decide⟩

/-- What is written of an answer tells its value. -/
theorem normalize_of_written {answer : Json} {bytes : Bytes}
    (h : answeringWorker.canonicalIdentityJsonBytes WorkerFrames.envelopeSchema
      WorkerFrames.envelopeSchemaVersion answer = .ok bytes) :
    answer.normalize = nullAnswer.normalize ∧ bytes = dumps nullAnswerDocument.toJsonDict := by
  unfold answeringWorker at h
  dsimp only at h
  split_ifs at h with hwritten
  obtain ⟨hscalar, hdumps⟩ := hwritten
  have hreads : ∀ v : Json, v.scalar = true → Json.loads (dumps v) = some v.normalize := by
    intro v hv
    have hloads := loads_dumps (normal_normalize v) (scalar_normalize hv)
    rwa [dumps_normalize] at hloads
  have hanswer := hreads answer hscalar
  rw [hdumps, hreads nullAnswer (by decide +kernel)] at hanswer
  exact ⟨(Option.some.inj hanswer).symm, (Except.ok.inj h).symm⟩

theorem answeringWorker_answers : ReadsAnswers answeringWorker answeringParent where
  read answer bytes h := by
    obtain ⟨hnormal, rfl⟩ := normalize_of_written h
    exact ⟨(dumps nullAnswerDocument.toJsonDict).map fun b => Fin.ofNat _ b.toNat, _,
      nullAnswerDocument, by decide +kernel, rfl, by decide +kernel, rfl, rfl, by decide +kernel,
      hnormal.symm⟩

/-- The job of this entry point, in both modes. -/
theorem answeringWorker_sameJob :
    SameJob (attemptOf answeringHost none) answeringWorker answeringParent answeredRequest () .null where
  document := rfl
  shallow := rfl
  dispatched := rfl
  strict := rfl
  called _ := rfl
  validated := rfl
  rendered _ := rfl
  built := rfl
  unordered v := by
    simp only [answeringParent, dumps_normalize]
  member v frame h := by
    obtain ⟨bytes, hbytes, -⟩ := written_envelopeFrame h
    have hnodup : ∀ result : Json, ([(text "status", Json.str (text WorkerFrameStatus.ok.value)),
        (text "result", result)].map Prod.fst).Nodup := fun result => by
      simpa using answerKeys_ne.1.symm
    have hmembers := (normalize_of_written hbytes).1
    rw [nullAnswer, normalize_obj, normalize_obj] at hmembers
    have hlookup := congrArg (List.lookup (text "result")) (Json.obj.inj hmembers)
    rw [lookup_normalize (hnodup v), lookup_normalize (hnodup .null)] at hlookup
    have hfound : ∀ result : Json, List.lookup (text "result") [(text "status",
        Json.str (text WorkerFrameStatus.ok.value)), (text "result", result)] = some result := by
      intro result
      rw [List.lookup_cons, show (text "result" == text "status") = false by decide +kernel]
      exact List.lookup_cons_self
    rw [hfound, hfound] at hlookup
    have hnull : dumps v = dumps .null := by
      rw [← dumps_normalize v, Option.some.inj hlookup, dumps_normalize]
    exact ⟨nullField, if_pos hnull⟩
  answers := answeringWorker_answers

/-- Both modes complete the job, and agree. -/
theorem nullJob_agrees :
    ∃ a b, (attemptOf answeringHost none).runAttempt = some a ∧
      pooledAttempt.exchange pooledFinish answeringParent
        (replyTo answeringWorker 0 (requestFrame answeredRequest)) = .ok b ∧
      Agree answeringParent a b := by
  have hquiet : Quiet (attemptOf answeringHost none) := ⟨rfl, rfl, by decide⟩
  refine (modes_agree_iff answeringWorker_sameJob hquiet pooledAttempt (by decide) 0).1.mpr ?_
  rw [Worker.turn, answeringWorker_sameJob.answer_handle]
  rfl

end DrExec.Execution.Modes
