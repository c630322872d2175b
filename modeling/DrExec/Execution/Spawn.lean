import DrExec.Lib.JsonText
import DrExec.Recording.Outcomes

/-! # The setup handshake

The bootstrap process of `execution/spawn.py` and what the engine concludes from its status pipe.
The process makes its calls in order until `execv`; a call returns, raises an `OSError`, raises
another exception, or the process is killed in it. Only an `OSError` of a guarded call is reported,
by one line on the status pipe, as long as the process has not put another descriptor in its place.
The parent reads the pipe to its end, or to an error, or to its deadline, and takes an empty pipe for
a payload that was reached. -/

namespace DrExec.Execution.Spawn

open DrExec.Core.Model DrExec.Lib DrExec.Lib.Json DrExec.Recording.Outcomes

/-! ### The bootstrap process -/

inductive SetupStage
  | session
  | chdir
  | descriptors
  | exec
  deriving DecidableEq, Repr

def SetupStage.spelling : SetupStage → Text
  | session => .lit "session"
  | chdir => .lit "chdir"
  | descriptors => .lit "descriptors"
  | exec => .lit "exec"

def SetupStage.value (stage : SetupStage) : Str := stage.spelling.value

/-- How a call of the bootstrap process ends. -/
inductive CallResult
  | returns
  | osError (errno : Option ℤ)
  | raises
  | killed
  deriving DecidableEq, Repr

/-- A call of the descriptor stage: how it ends, and whether it is a `dup2` onto the number of the
status descriptor. -/
structure DescriptorCall where
  result : CallResult := .returns
  onStatus : Bool := false
  deriving DecidableEq, Repr

/-- What the calls of `_dr_exec_setup` meet, with those before it (`start`), and the write of
`_dr_exec_fail`. The descriptor stage makes as many calls as its sources and targets need. -/
structure Bootstrap where
  start : CallResult := .returns
  setInheritable : CallResult := .returns
  setsid : CallResult := .returns
  chdir : CallResult := .returns
  descriptors : List DescriptorCall := []
  execv : CallResult := .returns
  write : CallResult := .returns
  deriving DecidableEq, Repr

/-- How the setup ends. -/
inductive Setup
  | reached
  | failed (stage : SetupStage) (errno : Option ℤ)
  | raised
  | killed
  deriving DecidableEq, Repr

/-- Calls in order, each with the stage whose handler guards it. -/
def runCalls : List (Option SetupStage × CallResult) → Setup
  | [] => .reached
  | (_, .returns) :: rest => runCalls rest
  | (some stage, .osError errno) :: _ => .failed stage errno
  | (none, .osError _) :: _ => .raised
  | (_, .raises) :: _ => .raised
  | (_, .killed) :: _ => .killed

/-- `_dr_exec_setup` up to the descriptor stage. -/
def Bootstrap.before (b : Bootstrap) : List (Option SetupStage × CallResult) :=
  [(none, b.start), (none, b.setInheritable), (some .session, b.setsid), (some .chdir, b.chdir)]

/-- `_dr_exec_setup` up to `execv`. -/
def Bootstrap.calls (b : Bootstrap) : List (Option SetupStage × CallResult) :=
  b.before ++ b.descriptors.map fun call => (some .descriptors, call.result)

/-- `_dr_exec_setup` -/
def Bootstrap.setup (b : Bootstrap) : Setup := runCalls (b.calls ++ [(some .exec, b.execv)])

/-- The line of `_dr_exec_fail`. -/
def statusLine (stage : SetupStage) (errno : Option ℤ) : Bytes :=
  dumps (.obj [(text "stage", .str stage.value), (text "errno", errno.elim .null .int)]) ++ [10]

/-- A `dup2` has put another descriptor in the place of the status descriptor. -/
def Bootstrap.replaced (b : Bootstrap) : Bool :=
  runCalls b.before = .reached ∧
    (b.descriptors.takeWhile fun call => call.result = .returns).any (·.onStatus)

/-- What the process has written to the status pipe when it has no end of it open any more. -/
def Bootstrap.status (b : Bootstrap) : Bytes :=
  match b.setup, b.write, b.replaced with
  | .failed stage errno, .returns, false => statusLine stage errno
  | _, _, _ => []

/-! ### The parent -/

/-- `SetupFailure` -/
structure SetupFailure where
  stage : Str
  errno : Option PyInt
  deriving DecidableEq

/-- `isinstance(stage, str)`, else the exec stage. -/
def reportedStage : Option Json → Str
  | some (.str stage) => stage
  | _ => SetupStage.exec.value

/-- `isinstance(reported, int)`. -/
def reportedErrno : Option Json → Option PyInt
  | some (.int errno) => some (.int errno)
  | some (.bool b) => some (.bool b)
  | _ => none

/-- `parse_setup_status`; `jsonLoads` is `json.loads` of the decoded line, `none` its error. -/
def parseSetupStatus (jsonLoads : Bytes → Option Json) (line : Bytes) : Option SetupFailure :=
  if line = [] then none
  else
    match jsonLoads line with
    | some (.obj members) =>
      some ⟨reportedStage (members.lookup (text "stage")),
        reportedErrno (members.lookup (text "errno"))⟩
    | _ => some ⟨SetupStage.exec.value, none⟩

/-- What one round of the loop in `_read_setup_status` meets: its deadline, or an `os.read` that
returns a nonempty chunk, returns nothing at the end of the pipe, or raises an `OSError`; or another
exception leaves it, as an `OverflowError` of a deadline that no timer takes or the `OSError` of a
selector that cannot be made. -/
inductive ReadEvent
  | chunk (bytes : Bytes)
  | endOfFile
  | error
  | timeout
  | raises
  deriving DecidableEq, Repr

/-- `ExecutorFailureCode`, as far as an attempt raises it. -/
inductive ExecutorFailureCode
  | bootstrapStartFailed
  | bootstrapTimeout
  | transportWorkerFailed
  | transportJoinTimeout
  deriving DecidableEq, Repr

/-- What an attempt raises. -/
inductive AttemptError
  | executorFailure (code : ExecutorFailureCode)
  | validationError
  | other
  deriving DecidableEq, Repr

/-- `_read_setup_status` from what it has collected; `none` while it waits. -/
def readSetupStatus (collected : Bytes) : List ReadEvent → Option (Except AttemptError Bytes)
  | [] => none
  | .chunk bytes :: rest => readSetupStatus (collected ++ bytes) rest
  | .endOfFile :: _ => some (.ok collected)
  | .error :: _ => some (.ok collected)
  | .timeout :: _ => some (.error (.executorFailure .bootstrapTimeout))
  | .raises :: _ => some (.error .other)

/-- `_SetupFailed`, or `_ReachedPayload`. -/
inductive AttemptResult
  | setupFailed (failure : SetupFailure)
  | reachedPayload
  deriving DecidableEq

/-- `_observe_attempt` up to its decision. -/
def observeAttempt (jsonLoads : Bytes → Option Json) (events : List ReadEvent) :
    Option (Except AttemptError AttemptResult) :=
  (readSetupStatus [] events).map fun read => read.map fun line =>
    match parseSetupStatus jsonLoads line with
    | some failure => .setupFailed failure
    | none => .reachedPayload

def enoent : ℤ := 2

/-- `_spawn_outcome`; `none` is the `ValidationError` of its outcome model. -/
def spawnOutcome (failure : SetupFailure) (executable : Text) : Option ExecutionOutcome :=
  if failure.stage = SetupStage.exec.value ∧ failure.errno.map PyInt.toInt = some enoent then
    some (.spawnAbsent executable)
  else do
    let errno ← (failure.errno.getD (.int 0)).strict
    return .spawnFailed errno ⟨failure.stage⟩

/-- `_exit_outcome` -/
def exitOutcome (returncode : ℤ) : ExecutionOutcome :=
  if h : returncode < 0 then .signaled ⟨(-returncode).toNat, by omega⟩ else .exited returncode

/-- Why `_await_child` stopped the child. -/
structure StopReason where
  axis : Option BudgetAxis
  cancelled : Bool
  deriving DecidableEq

/-- What the rest of an attempt that reached its payload sees: a failure of its transports, the
output retention, the stop, the protocol stream, and the status of the process. -/
structure Carried where
  failure : Option ExecutorFailureCode := none
  overflowed : Bool := false
  stop : Option StopReason := none
  protocolFailure : Option (Runtime.Protocol.ProtocolFailureCode × Text × ℕ) := none
  returncode : ℤ

/-- `_outcome_of` -/
def Carried.outcome (carried : Carried) : ExecutionOutcome :=
  if carried.overflowed then .budgetExceeded .payloadOutput
  else if carried.stop.any fun stop => stop.axis = some .wallTime then .budgetExceeded .wallTime
  else if carried.stop.any StopReason.cancelled then .cancelled true
  else
    match carried.protocolFailure with
    | some (code, detail, accepted) => .protocolFailed code detail accepted
    | none => exitOutcome carried.returncode

/-- What an attempt meets once it was observed: whether `_tear_down` returns, whether the wall clock
has not stepped back at the completion, and whether what follows raises nothing, which is finalizing
the record, closing the transports and removing a scratch directory. -/
structure Ending where
  tornDown : Bool := true
  steady : Bool := true
  closed : Bool := true
  deriving DecidableEq, Repr

/-- `_complete`, as far as it may be refused. -/
def Ending.complete (ending : Ending) (outcome : ExecutionOutcome) :
    Except AttemptError ExecutionOutcome :=
  if ending.steady then .ok outcome else .error .validationError

/-- `_carry_attempt`, its teardown done: what the observed attempt comes to. -/
def concludeAttempt (executable : Text) (carried : Carried) (ending : Ending) :
    Except AttemptError AttemptResult → Except AttemptError ExecutionOutcome
  | .error error => .error error
  | .ok (.setupFailed failure) =>
    (spawnOutcome failure executable).elim (.error .validationError) ending.complete
  | .ok .reachedPayload =>
    match carried.failure with
    | some code => .error (.executorFailure code)
    | none => ending.complete carried.outcome

/-- `_carry_attempt` in `_run_spawned`: the outcome of an attempt, or what it raises. -/
def carryAttempt (jsonLoads : Bytes → Option Json) (executable : Text) (events : List ReadEvent)
    (carried : Carried) (ending : Ending) : Option (Except AttemptError ExecutionOutcome) :=
  (observeAttempt jsonLoads events).map fun observed =>
    if ending.tornDown = false ∨ ending.closed = false then .error .other
    else concludeAttempt executable carried ending observed

/-! ### What is delivered -/

/-- The rounds in which the bytes `status` arrive: nonempty chunks of it in order, then the end of
the pipe when all of it has been read, or an error, the deadline or another exception at any point. -/
inductive Delivers : Bytes → List ReadEvent → Prop
  | waiting (status : Bytes) : Delivers status []
  | chunk {bytes rest : Bytes} {events : List ReadEvent} (nonempty : bytes ≠ [])
      (delivers : Delivers rest events) : Delivers (bytes ++ rest) (.chunk bytes :: events)
  | endOfFile (events : List ReadEvent) : Delivers [] (.endOfFile :: events)
  | error (status : Bytes) (events : List ReadEvent) : Delivers status (.error :: events)
  | timeout (status : Bytes) (events : List ReadEvent) : Delivers status (.timeout :: events)
  | raises (status : Bytes) (events : List ReadEvent) : Delivers status (.raises :: events)

/-- The process says how its setup failed: the failing call raised an `OSError` under a handler, the
handler's write succeeded, and it went to the status pipe. -/
def Bootstrap.Reports (b : Bootstrap) : Prop :=
  (∃ stage errno, b.setup = .failed stage errno) ∧ b.write = .returns ∧ b.replaced = false

theorem statusLine_ne_nil (stage : SetupStage) (errno : Option ℤ) : statusLine stage errno ≠ [] := by
  simp [statusLine]

theorem Bootstrap.status_ne_nil_iff (b : Bootstrap) : b.status ≠ [] ↔ b.Reports := by
  unfold Bootstrap.status Bootstrap.Reports
  split
  · next stage errno hsetup hwrite hreplaced => simp [hsetup, hwrite, hreplaced, statusLine_ne_nil]
  · next hno =>
    simp only [ne_eq, not_true_eq_false, false_iff]
    rintro ⟨⟨stage, errno, hsetup⟩, hwrite, hreplaced⟩
    exact hno stage errno hsetup hwrite hreplaced

theorem parseSetupStatus_eq_none_iff (jsonLoads : Bytes → Option Json) (line : Bytes) :
    parseSetupStatus jsonLoads line = none ↔ line = [] := by
  unfold parseSetupStatus
  split
  · next h => simp [h]
  · next h =>
    simp only [h, iff_false]
    split <;> simp

/-- What has been collected only grows, so a read that ends without an error holds it. -/
theorem prefix_of_readSetupStatus {collected line : Bytes} {events : List ReadEvent}
    (h : readSetupStatus collected events = some (.ok line)) : collected <+: line := by
  induction events generalizing collected with
  | nil => simp [readSetupStatus] at h
  | cons event rest ih =>
    cases event with
    | chunk bytes => exact (List.prefix_append _ _).trans (ih h)
    | endOfFile =>
      obtain rfl : collected = line := by simpa [readSetupStatus] using h
      exact List.prefix_rfl
    | error =>
      obtain rfl : collected = line := by simpa [readSetupStatus] using h
      exact List.prefix_rfl
    | timeout | raises => simp [readSetupStatus] at h

/-- **The parent takes the payload for reached exactly when the first round meets the end of the
pipe or an error.** -/
theorem observeAttempt_eq_reachedPayload_iff {jsonLoads : Bytes → Option Json} {status : Bytes}
    {events : List ReadEvent} (hdelivers : Delivers status events) :
    observeAttempt jsonLoads events = some (.ok .reachedPayload) ↔
      events.head? = some .endOfFile ∨ events.head? = some .error := by
  have hempty : ∀ line : Bytes,
      (match parseSetupStatus jsonLoads line with
        | some failure => AttemptResult.setupFailed failure
        | none => .reachedPayload) = .reachedPayload ↔ line = [] := by
    intro line
    rw [← parseSetupStatus_eq_none_iff jsonLoads line]
    cases parseSetupStatus jsonLoads line <;> simp
  cases hdelivers with
  | waiting => simp [observeAttempt, readSetupStatus]
  | @chunk bytes rest events hbytes hrest =>
    simp only [List.head?_cons, Option.some.injEq, reduceCtorEq, or_self, iff_false]
    intro h
    unfold observeAttempt at h
    cases hread : readSetupStatus [] (.chunk bytes :: events) with
    | none => simp [hread] at h
    | some read =>
      cases read with
      | error code => simp [hread, Except.map] at h
      | ok line =>
        have hpre : [] ++ bytes <+: line := prefix_of_readSetupStatus hread
        have hline : line = [] := by
          rw [← hempty line]
          simpa [hread, Except.map] using h
        exact hbytes (by simpa [hline] using hpre)
  | endOfFile => simp [observeAttempt, readSetupStatus, parseSetupStatus, Except.map]
  | error => simp [observeAttempt, readSetupStatus, parseSetupStatus, Except.map]
  | timeout | raises => simp [observeAttempt, readSetupStatus, Except.map]

/-- Rounds without an error, a deadline or another exception. -/
def CalmRounds (events : List ReadEvent) : Prop :=
  .error ∉ events ∧ .timeout ∉ events ∧ .raises ∉ events

/-- A read in calm rounds has, when it ends, everything that was written. -/
theorem readSetupStatus_eq_of_delivers {collected status : Bytes} {events : List ReadEvent}
    {read : Except AttemptError Bytes} (hdelivers : Delivers status events)
    (hcalm : CalmRounds events)
    (h : readSetupStatus collected events = some read) : read = .ok (collected ++ status) := by
  induction hdelivers generalizing collected with
  | waiting => simp [readSetupStatus] at h
  | @chunk bytes rest events hbytes hrest ih =>
    rw [← List.append_assoc]
    refine ih ?_ h
    simpa [CalmRounds] using hcalm
  | endOfFile events => simpa [readSetupStatus] using h.symm
  | error | timeout | raises => simp [CalmRounds] at hcalm

/-- A read that ends without the deadline has a part of what was written. -/
theorem prefix_of_readSetupStatus_delivers {collected status line : Bytes} {events : List ReadEvent}
    (hdelivers : Delivers status events) (h : readSetupStatus collected events = some (.ok line)) :
    line <+: collected ++ status := by
  induction hdelivers generalizing collected with
  | waiting => simp [readSetupStatus] at h
  | @chunk bytes rest events hbytes hrest ih =>
    rw [← List.append_assoc]
    exact ih h
  | endOfFile events =>
    obtain rfl : collected = line := by simpa [readSetupStatus] using h
    simp
  | error =>
    obtain rfl : collected = line := by simpa [readSetupStatus] using h
    exact List.prefix_append _ _
  | timeout | raises => simp [readSetupStatus] at h

theorem prefix_of_delivers {status line : Bytes} {events : List ReadEvent}
    (hdelivers : Delivers status events) (h : readSetupStatus [] events = some (.ok line)) :
    line <+: status := by
  simpa using prefix_of_readSetupStatus_delivers hdelivers h

theorem parse_of_observeAttempt {jsonLoads : Bytes → Option Json} {events : List ReadEvent}
    {failure : SetupFailure} (h : observeAttempt jsonLoads events = some (.ok (.setupFailed failure))) :
    ∃ line, readSetupStatus [] events = some (.ok line) ∧
      parseSetupStatus jsonLoads line = some failure := by
  obtain ⟨read, hread, hobserved⟩ := Option.map_eq_some_iff.mp h
  cases read with
  | error code => cases hobserved
  | ok line =>
    refine ⟨line, hread, ?_⟩
    simp only [Except.map, Except.ok.injEq] at hobserved
    split at hobserved
    · next hparse =>
      obtain rfl := AttemptResult.setupFailed.inj hobserved
      exact hparse
    · cases hobserved

theorem Bootstrap.exists_statusLine (b : Bootstrap) (h : b.status ≠ []) :
    ∃ stage errno, b.status = statusLine stage errno := by
  obtain ⟨⟨stage, errno, hsetup⟩, hwrite, hreplaced⟩ := b.status_ne_nil_iff.mp h
  exact ⟨stage, errno, by simp [Bootstrap.status, hsetup, hwrite, hreplaced]⟩

/-! ### Reading a status line -/

/-- The value of the line, its keys sorted. -/
def statusValue (stage : SetupStage) (errno : Option ℤ) : Json :=
  .obj [(text "errno", errno.elim .null .int), (text "stage", .str stage.value)]

theorem normalize_status (stage : SetupStage) (errno : Option ℤ) :
    Json.normalize (.obj
        [(text "stage", .str stage.value), (text "errno", errno.elim .null .int)]) =
      statusValue stage errno := by
  have hlt : text "errno" < text "stage" := by decide +kernel
  have herrno : Json.normalize (errno.elim .null .int) = errno.elim .null .int := by
    cases errno <;> rfl
  rw [normalize_obj]
  simp [statusValue, sortKeys, insertKey, mapValues, hlt, herrno, Json.normalize]

theorem statusLine_eq (stage : SetupStage) (errno : Option ℤ) :
    statusLine stage errno = dumps (statusValue stage errno) ++ [10] := by
  rw [statusLine, ← dumps_normalize, normalize_status]

theorem normal_statusValue (stage : SetupStage) (errno : Option ℤ) :
    (statusValue stage errno).Normal := by
  rw [← normalize_status]
  exact normal_normalize _

theorem scalar_statusValue (stage : SetupStage) (errno : Option ℤ) :
    (statusValue stage errno).scalar = true := by
  have hstage : Json.scalar (.str stage.value) = true := by cases stage <;> decide +kernel
  have herrno : Json.scalar (errno.elim .null .int) = true := by cases errno <;> rfl
  have hkeys : ((text "errno").all fun c => IsScalar c) = true ∧
      ((text "stage").all fun c => IsScalar c) = true := by decide +kernel
  simp only [statusValue, scalar, scalarMembers, hkeys.1, hkeys.2, herrno, Bool.true_and, Bool.and_true]
  exact hstage

/-- The stage and the error number of the object are the ones written. -/
theorem reported_statusValue (stage : SetupStage) (errno : Option ℤ) :
    (⟨reportedStage ([(text "errno", errno.elim .null .int),
          (text "stage", Json.str stage.value)].lookup (text "stage")),
        reportedErrno ([(text "errno", errno.elim .null .int),
          (text "stage", Json.str stage.value)].lookup (text "errno"))⟩ : SetupFailure) =
      ⟨stage.value, errno.map .int⟩ := by
  have hkey : (text "stage" == text "errno") = false := by decide +kernel
  cases errno <;> simp [List.lookup_cons, hkey, reportedStage, reportedErrno]

/-- What the parent relies on of `json.loads`: it gives back an object that `json.dumps` wrote with
its keys sorted, a line feed after it, and takes no part of such a line for another value. -/
structure ReadsDumpedObjects (jsonLoads : Bytes → Option Json) : Prop where
  whole : ∀ members, (Json.obj members).Normal → (Json.obj members).scalar = true →
    jsonLoads (dumps (.obj members) ++ [10]) = some (.obj members)
  part : ∀ members, (Json.obj members).Normal → (Json.obj members).scalar = true →
    ∀ line, line <+: dumps (.obj members) ++ [10] → ∀ value, jsonLoads line = some value →
      value = .obj members

/-- A reader of whole lines. -/
def loadsLine (line : Bytes) : Option Json :=
  if line.getLast? = some 10 then loads line.dropLast else none

theorem readsDumpedObjects_loadsLine : ReadsDumpedObjects loadsLine where
  whole members hnormal hscalar := by simpa [loadsLine] using loads_dumps hnormal hscalar
  part members hnormal hscalar line hline value hvalue := by
    obtain ⟨hlast, hloads⟩ : line.getLast? = some 10 ∧ loads line.dropLast = some value := by
      simpa [loadsLine] using hvalue
    rcases List.prefix_concat_iff.mp hline with rfl | hshort
    · rw [List.dropLast_concat, loads_dumps hnormal hscalar] at hloads
      exact (Option.some.inj hloads).symm
    · -- the text itself holds no line feed
      exact absurd (hshort.subset (List.mem_of_getLast? hlast)) (lineFeed_not_mem_dumps _)

variable {jsonLoads : Bytes → Option Json}

theorem parseSetupStatus_statusLine (hloads : ReadsDumpedObjects jsonLoads) (stage : SetupStage)
    (errno : Option ℤ) :
    parseSetupStatus jsonLoads (statusLine stage errno) = some ⟨stage.value, errno.map .int⟩ := by
  have hread : jsonLoads (statusLine stage errno) = some (statusValue stage errno) := by
    rw [statusLine_eq]
    exact hloads.whole _ (normal_statusValue stage errno) (scalar_statusValue stage errno)
  unfold parseSetupStatus
  rw [if_neg (statusLine_ne_nil stage errno), hread]
  exact congrArg some (reported_statusValue stage errno)

/-- Part of a status line says what the whole line says, or nothing about an error number. -/
theorem parseSetupStatus_part (hloads : ReadsDumpedObjects jsonLoads) {stage : SetupStage}
    {errno : Option ℤ} {line : Bytes} (hline : line <+: statusLine stage errno)
    {failure : SetupFailure} (h : parseSetupStatus jsonLoads line = some failure) :
    failure = ⟨stage.value, errno.map .int⟩ ∨ failure = ⟨SetupStage.exec.value, none⟩ := by
  unfold parseSetupStatus at h
  split at h
  · cases h
  split at h
  · next members hread =>
    have hmembers := hloads.part _ (normal_statusValue stage errno) (scalar_statusValue stage errno)
      line (by rwa [← statusValue, ← statusLine_eq]) _ hread
    obtain rfl := Json.obj.inj hmembers
    rw [← Option.some.inj h]
    exact .inl (reported_statusValue stage errno)
  · exact .inr (Option.some.inj h).symm

/-! ### Soundness of the handshake -/

/-- An outcome, or failure, that says the payload never ran. -/
def NeverRan : Except AttemptError ExecutionOutcome → Prop
  | .ok (.spawnAbsent _) => True
  | .ok (.spawnFailed _ _) => True
  | .error (.executorFailure _) => True
  | _ => False

/-- What the handshake promises: an attempt counts as having reached its payload only if `execv`
succeeded, and one whose `execv` did not succeed ends as one that never ran. -/
structure Sound (jsonLoads : Bytes → Option Json) (b : Bootstrap) (events : List ReadEvent)
    (ending : Ending) : Prop where
  reached : observeAttempt jsonLoads events = some (.ok .reachedPayload) → b.setup = .reached
  never_ran : b.setup ≠ .reached → ∀ executable carried result,
    carryAttempt jsonLoads executable events carried ending = some result → NeverRan result

/-- The round that ends the read. -/
def lastRound : List ReadEvent → Option ReadEvent
  | [] => none
  | .chunk _ :: rest => lastRound rest
  | event :: _ => some event

/-- No exception leaves the teardown or what follows the completion. -/
def Ending.Quiet (ending : Ending) : Prop := ending.tornDown = true ∧ ending.closed = true

/-- The pipe is read to its end, or to an error that is not the first round; and the ending is quiet
and its clock steady. -/
structure Completes (events : List ReadEvent) (ending : Ending) : Prop where
  last : lastRound events = some .endOfFile ∨ lastRound events = some .error
  first : events.head? ≠ some .error
  quiet : ending.Quiet
  steady : ending.steady = true

/-- When the parent is told: the payload was reached; or no round has ended the read; or the deadline
has, and the ending is quiet; or the process reports, and the attempt completes. -/
def Told (b : Bootstrap) (events : List ReadEvent) (ending : Ending) : Prop :=
  b.setup = .reached ∨ lastRound events = none ∨
    (lastRound events = some .timeout ∧ ending.Quiet) ∨ b.Reports ∧ Completes events ending

/-- A read ends as its last round does. -/
theorem readSetupStatus_cases (collected : Bytes) (events : List ReadEvent) :
    (lastRound events = none ∧ readSetupStatus collected events = none) ∨
      (lastRound events = some .timeout ∧
        readSetupStatus collected events = some (.error (.executorFailure .bootstrapTimeout))) ∨
      (lastRound events = some .raises ∧ readSetupStatus collected events = some (.error .other)) ∨
      (lastRound events = some .endOfFile ∨ lastRound events = some .error) ∧
        ∃ line, readSetupStatus collected events = some (.ok line) := by
  induction events generalizing collected with
  | nil => exact .inl ⟨rfl, rfl⟩
  | cons event rest ih =>
    cases event with
    | chunk bytes => exact ih (collected ++ bytes)
    | endOfFile => exact .inr (.inr (.inr ⟨.inl rfl, collected, rfl⟩))
    | error => exact .inr (.inr (.inr ⟨.inr rfl, collected, rfl⟩))
    | timeout => exact .inr (.inl ⟨rfl, rfl⟩)
    | raises => exact .inr (.inr (.inl ⟨rfl, rfl⟩))

/-- A failure that names a stage and a number makes an outcome. -/
theorem spawnOutcome_stage (stage : SetupStage) (errno : Option ℤ) (executable : Text) :
    ∃ outcome, spawnOutcome ⟨stage.value, errno.map .int⟩ executable = some outcome ∧
      NeverRan (.ok outcome) := by
  unfold spawnOutcome
  split
  · exact ⟨.spawnAbsent executable, rfl, trivial⟩
  · refine ⟨.spawnFailed (errno.getD 0) ⟨stage.value⟩, ?_, trivial⟩
    cases errno <;> rfl

/-- A failure that was observed makes an outcome. -/
theorem spawnOutcome_observed (hloads : ReadsDumpedObjects jsonLoads) {b : Bootstrap}
    {events : List ReadEvent} (hdelivers : Delivers b.status events) {failure : SetupFailure}
    (hobs : observeAttempt jsonLoads events = some (.ok (.setupFailed failure)))
    (executable : Text) :
    ∃ outcome, spawnOutcome failure executable = some outcome ∧ NeverRan (.ok outcome) := by
  obtain ⟨line, hread, hparse⟩ := parse_of_observeAttempt hobs
  have hsplit : line <+: b.status := prefix_of_delivers hdelivers hread
  obtain ⟨stage, errno, hstatus⟩ : ∃ stage errno, b.status = statusLine stage errno := by
    refine b.exists_statusLine fun hnil => ?_
    rw [hnil, List.prefix_nil] at hsplit
    rw [hsplit, (parseSetupStatus_eq_none_iff jsonLoads []).mpr rfl] at hparse
    cases hparse
  rw [hstatus] at hsplit
  rcases parseSetupStatus_part hloads hsplit hparse with rfl | rfl
  · exact spawnOutcome_stage stage errno executable
  · exact spawnOutcome_stage .exec none executable

/-- The end of the pipe comes first only when nothing was written. -/
theorem head?_ne_endOfFile {status : Bytes} {events : List ReadEvent}
    (hdelivers : Delivers status events) (hstatus : status ≠ []) : events.head? ≠ some .endOfFile := by
  cases hdelivers with
  | endOfFile => exact absurd rfl hstatus
  | waiting => exact fun h => by cases h
  | chunk | error | timeout | raises => exact fun h => by cases h

/-- A told parent counts an attempt as having reached its payload only if it did. -/
theorem reached_of_told {b : Bootstrap} {events : List ReadEvent} {ending : Ending}
    (hdelivers : Delivers b.status events) (htold : Told b events ending)
    (hobs : observeAttempt jsonLoads events = some (.ok .reachedPayload)) : b.setup = .reached := by
  have hfirst := (observeAttempt_eq_reachedPayload_iff hdelivers).mp hobs
  have hlast : lastRound events = events.head? := by
    obtain ⟨rest, hrest⟩ | ⟨rest, hrest⟩ :=
      hfirst.imp List.head?_eq_some_iff.mp List.head?_eq_some_iff.mp
    · rw [hrest]
      rfl
    · rw [hrest]
      rfl
  rcases htold with hsetup | hnone | ⟨htimeout, -⟩ | ⟨hreports, hcompletes⟩
  · exact hsetup
  · rw [← hlast, hnone] at hfirst
    rcases hfirst with h | h <;> cases h
  · rw [← hlast, htimeout] at hfirst
    rcases hfirst with h | h <;> cases h
  · rcases hfirst with heof | herr
    · exact absurd heof (head?_ne_endOfFile hdelivers (b.status_ne_nil_iff.mpr hreports))
    · exact absurd herr hcompletes.first

/-- What an attempt comes to whose ending is quiet. -/
theorem carryAttempt_of_quiet {events : List ReadEvent} {ending : Ending} (hquiet : ending.Quiet)
    (executable : Text) (carried : Carried) {observed : Except AttemptError AttemptResult}
    (hobs : observeAttempt jsonLoads events = some observed) :
    carryAttempt jsonLoads executable events carried ending =
      some (concludeAttempt executable carried ending observed) := by
  have hnot : ¬ (ending.tornDown = false ∨ ending.closed = false) := by
    simp [hquiet.1, hquiet.2]
  rw [carryAttempt, hobs, Option.map_some, if_neg hnot]

theorem carryAttempt_of_not_quiet {events : List ReadEvent} {ending : Ending}
    (hquiet : ¬ ending.Quiet) (executable : Text) (carried : Carried)
    {observed : Except AttemptError AttemptResult}
    (hobs : observeAttempt jsonLoads events = some observed) :
    carryAttempt jsonLoads executable events carried ending = some (.error .other) := by
  have hnot : ending.tornDown = false ∨ ending.closed = false := by
    simpa [Ending.Quiet, Classical.or_iff_not_imp_left] using hquiet
  rw [carryAttempt, hobs, Option.map_some, if_pos hnot]

theorem carryAttempt_of_waiting {events : List ReadEvent} (hwaiting : lastRound events = none)
    {executable : Text} {carried : Carried} {ending : Ending} :
    carryAttempt jsonLoads executable events carried ending = none := by
  rcases readSetupStatus_cases [] events with ⟨-, hread⟩ | ⟨h, -⟩ | ⟨h, -⟩ | ⟨h | h, -⟩
  · simp [carryAttempt, observeAttempt, hread]
  all_goals cases hwaiting.symm.trans h

theorem carryAttempt_of_timeout {events : List ReadEvent} {ending : Ending}
    (htimeout : lastRound events = some .timeout) (hquiet : ending.Quiet) (executable : Text)
    (carried : Carried) :
    carryAttempt jsonLoads executable events carried ending =
      some (.error (.executorFailure .bootstrapTimeout)) := by
  rcases readSetupStatus_cases [] events with ⟨h, -⟩ | ⟨-, hread⟩ | ⟨h, -⟩ | ⟨h | h, -⟩
  · cases htimeout.symm.trans h
  · have hobs : observeAttempt jsonLoads events =
        some (.error (.executorFailure .bootstrapTimeout)) := by
      simp [observeAttempt, hread, Except.map]
    exact carryAttempt_of_quiet hquiet executable carried hobs
  all_goals cases htimeout.symm.trans h

/-- An attempt that is reported and completes has an outcome that says it never ran. -/
theorem carryAttempt_of_completes (hloads : ReadsDumpedObjects jsonLoads) {b : Bootstrap}
    {events : List ReadEvent} {ending : Ending} (hdelivers : Delivers b.status events)
    (hreports : b.Reports) (hcompletes : Completes events ending) (executable : Text)
    (carried : Carried) :
    ∃ outcome, carryAttempt jsonLoads executable events carried ending = some (.ok outcome) ∧
      NeverRan (.ok outcome) := by
  obtain ⟨line, hread⟩ : ∃ line, readSetupStatus [] events = some (.ok line) := by
    have hlast := hcompletes.last
    rcases readSetupStatus_cases [] events with ⟨h, -⟩ | ⟨h, -⟩ | ⟨h, -⟩ | ⟨-, hline⟩
    · simp [h] at hlast
    · simp [h] at hlast
    · simp [h] at hlast
    · exact hline
  have hnot : observeAttempt jsonLoads events ≠ some (.ok .reachedPayload) := by
    rw [ne_eq, observeAttempt_eq_reachedPayload_iff hdelivers, not_or]
    exact ⟨head?_ne_endOfFile hdelivers (b.status_ne_nil_iff.mpr hreports), hcompletes.first⟩
  cases hparse : parseSetupStatus jsonLoads line with
  | none => exact absurd (by simp [observeAttempt, hread, Except.map, hparse]) hnot
  | some failure =>
    have hobs : observeAttempt jsonLoads events = some (.ok (.setupFailed failure)) := by
      simp [observeAttempt, hread, Except.map, hparse]
    obtain ⟨outcome, houtcome, hnever⟩ := spawnOutcome_observed hloads hdelivers hobs executable
    refine ⟨outcome, ?_, hnever⟩
    rw [carryAttempt_of_quiet hcompletes.quiet executable carried hobs]
    simp [concludeAttempt, houtcome, Ending.complete, hcompletes.steady]

theorem sound_of_told (hloads : ReadsDumpedObjects jsonLoads) {b : Bootstrap}
    {events : List ReadEvent} {ending : Ending} (hdelivers : Delivers b.status events)
    (htold : Told b events ending) : Sound jsonLoads b events ending := by
  refine ⟨reached_of_told hdelivers htold, fun hsetup executable carried result hresult => ?_⟩
  rcases htold with h | hnone | ⟨htimeout, hquiet⟩ | ⟨hreports, hcompletes⟩
  · exact absurd h hsetup
  · rw [carryAttempt_of_waiting hnone] at hresult
    cases hresult
  · rw [carryAttempt_of_timeout htimeout hquiet] at hresult
    rw [← Option.some.inj hresult]
    trivial
  · obtain ⟨outcome, houtcome, hnever⟩ :=
      carryAttempt_of_completes hloads hdelivers hreports hcompletes executable carried
    rw [houtcome] at hresult
    rwa [← Option.some.inj hresult]

/-- A parent that is not told takes the attempt for one that ran, or another exception leaves it. -/
theorem told_of_attempt {b : Bootstrap} {events : List ReadEvent} {ending : Ending}
    {executable : Text} (hdelivers : Delivers b.status events)
    (hnever : ∀ result, carryAttempt jsonLoads executable events { returncode := 1 } ending =
      some result → NeverRan result) : Told b events ending := by
  have hquiet : ∀ observed, observeAttempt jsonLoads events = some observed → ending.Quiet := by
    intro observed hobs
    by_contra hnot
    exact hnever _ (carryAttempt_of_not_quiet hnot _ _ hobs)
  rcases readSetupStatus_cases [] events with
    ⟨hlast, -⟩ | ⟨hlast, hread⟩ | ⟨-, hread⟩ | ⟨hlast, line, hread⟩
  · exact .inr (.inl hlast)
  · refine .inr (.inr (.inl ⟨hlast, hquiet (.error (.executorFailure .bootstrapTimeout)) ?_⟩))
    simp [observeAttempt, hread, Except.map]
  · have hobs : observeAttempt jsonLoads events = some (.error .other) := by
      simp [observeAttempt, hread, Except.map]
    exact (hnever _ (carryAttempt_of_quiet (hquiet _ hobs) _ _ hobs)).elim
  · have hnot : observeAttempt jsonLoads events ≠ some (.ok .reachedPayload) := by
      intro hobs
      have hresult := hnever _ (carryAttempt_of_quiet (hquiet _ hobs) _ _ hobs)
      rcases hsteady : ending.steady with _ | _
      · simp [concludeAttempt, Ending.complete, hsteady, NeverRan] at hresult
      · simp [concludeAttempt, Ending.complete, hsteady, Carried.outcome, exitOutcome, NeverRan]
          at hresult
    cases hparse : parseSetupStatus jsonLoads line with
    | none => exact absurd (by simp [observeAttempt, hread, Except.map, hparse]) hnot
    | some failure =>
      have hobs : observeAttempt jsonLoads events = some (.ok (.setupFailed failure)) := by
        simp [observeAttempt, hread, Except.map, hparse]
      have hstatus : b.status ≠ [] := by
        intro hnil
        have hempty := prefix_of_delivers hdelivers hread
        rw [hnil, List.prefix_nil] at hempty
        rw [hempty, (parseSetupStatus_eq_none_iff jsonLoads []).mpr rfl] at hparse
        cases hparse
      have hfirst := fun h => hnot ((observeAttempt_eq_reachedPayload_iff hdelivers).mpr (.inr h))
      refine .inr (.inr (.inr ⟨b.status_ne_nil_iff.mp hstatus, hlast, hfirst, hquiet _ hobs, ?_⟩))
      by_contra hsteady
      have hresult := hnever _ (carryAttempt_of_quiet (hquiet _ hobs) _ _ hobs)
      rcases houtcome : spawnOutcome failure executable with _ | outcome
      · simp [concludeAttempt, houtcome, NeverRan] at hresult
      · simp [concludeAttempt, houtcome, Ending.complete, hsteady, NeverRan] at hresult

/-- **Soundness of the setup handshake**: it holds exactly when the parent is told. -/
theorem handshake_sound_iff (hloads : ReadsDumpedObjects jsonLoads) (b : Bootstrap)
    (events : List ReadEvent) (ending : Ending) (hdelivers : Delivers b.status events) :
    Sound jsonLoads b events ending ↔ Told b events ending := by
  refine ⟨fun hsound => ?_, sound_of_told hloads hdelivers⟩
  by_cases hsetup : b.setup = .reached
  · exact .inl hsetup
  · exact told_of_attempt hdelivers fun result => hsound.never_ran hsetup (.lit "") _ result

/-- A directory that is gone, reported. -/
def goneDirectory : Bootstrap := { chdir := .osError (some 2) }

theorem goneDirectory_sound :
    Sound loadsLine goneDirectory [.chunk goneDirectory.status, .endOfFile] {} ↔
      Told goneDirectory [.chunk goneDirectory.status, .endOfFile] {} :=
  handshake_sound_iff readsDumpedObjects_loadsLine _ _ _ <| by
    have hne : goneDirectory.status ≠ [] :=
      goneDirectory.status_ne_nil_iff.mpr ⟨⟨_, _, rfl⟩, rfl, rfl⟩
    have h := Delivers.chunk hne (.endOfFile [])
    rwa [List.append_nil] at h

/-- A process killed in `setsid`, and one whose `set_inheritable` raises, leave an empty pipe: both
count as payloads that ran, the first as one that died on a signal, the second as one that exited
nonzero. -/
theorem handshake_unsound :
    (let killed : Bootstrap := { setsid := .killed }
     Delivers killed.status [.endOfFile] ∧ killed.setup = .killed ∧
       carryAttempt loadsLine (.lit "payload") [.endOfFile] { returncode := -9 } {} =
         some (.ok (.signaled 9)) ∧
       ¬ Sound loadsLine killed [.endOfFile] {}) ∧
    (let raised : Bootstrap := { setInheritable := .osError (some 9) }
     Delivers raised.status [.endOfFile] ∧ raised.setup = .raised ∧
       carryAttempt loadsLine (.lit "payload") [.endOfFile] { returncode := 1 } {} =
         some (.ok (.exited 1)) ∧
       ¬ Sound loadsLine raised [.endOfFile] {}) := by
  refine ⟨⟨.endOfFile [], rfl, rfl, fun h => ?_⟩, ⟨.endOfFile [], rfl, rfl, fun h => ?_⟩⟩
  · exact absurd (h.reached rfl) (by decide)
  · exact absurd (h.reached rfl) (by decide)

/-- **A reported failure is read as it was written**, in whatever chunks it comes. -/
theorem observeAttempt_reported (hloads : ReadsDumpedObjects jsonLoads) {b : Bootstrap}
    {stage : SetupStage} {errno : Option ℤ} (hsetup : b.setup = .failed stage errno)
    (hwrite : b.write = .returns) (hreplaced : b.replaced = false) {events : List ReadEvent}
    (hdelivers : Delivers b.status events) (hcalm : CalmRounds events)
    {observed : Except AttemptError AttemptResult}
    (h : observeAttempt jsonLoads events = some observed) :
    observed = .ok (.setupFailed ⟨stage.value, errno.map .int⟩) := by
  obtain ⟨read, hread, rfl⟩ := Option.map_eq_some_iff.mp h
  obtain rfl := readSetupStatus_eq_of_delivers hdelivers hcalm hread
  have hstatus : b.status = statusLine stage errno := by
    simp [Bootstrap.status, hsetup, hwrite, hreplaced]
  simp [Except.map, hstatus, parseSetupStatus_statusLine hloads]

end DrExec.Execution.Spawn
