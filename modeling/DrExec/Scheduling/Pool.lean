import DrExec.Scheduling.Scheduler

/-! # The execution pool

`ExecutionPool` of `scheduling/pool.py`: streams of one event loop over one scheduler. A stream is a
coroutine in `_drive_stream`; its `Phase` is the place in the body it is at, and a step takes it to
its next call on the scheduler or its next suspension, so a worker thread may run between any two
calls. The event loop runs one coroutine at a time: a coroutine starts or resumes only while every
stream is suspended. The pull of a stream's source is a task of its own, and
`_notify_scheduler_change` queues a callback for the loop.

What the pool does not decide is part of the action: what a source answers, when a consumer asks
again, stops early or is cancelled, and when the pool is closed. -/

namespace DrExec.Scheduling.Pool

open DrExec.Lib.Transition Scheduler

/-- A driver's context: a plain stream's, or an `_OwnedContext` with the `_StreamOwner` of a map
stream, which is its position among the streams. -/
inductive Context (C : Type)
  | bare (context : C)
  | owned (owner : ℕ) (context : C)
  deriving DecidableEq, Repr

/-- `_StreamOwner.owns` -/
def owns {C : Type} (owner : ℕ) : Context C → Bool
  | .owned submitter _ => submitter = owner
  | .bare _ => false

/-- `_unowned` -/
def unowned {C : Type} : Context C → Bool
  | .bare _ => true
  | .owned _ _ => false

inductive ExecutionPoolState
  | running
  | draining
  | closed
  | broken
  deriving DecidableEq, Repr

structure ExecutionSubmission (Job C : Type) where
  job : Job
  context : C
  deriving DecidableEq, Repr

/-- The task `source_pull`: in `gate.acquire()`, waiting for the caller's source, or done. An
exception of the source is `SchedulerBroken` or another. -/
inductive Pull (Job C : Type)
  | acquiring
  | asking
  | done (submission : Option (ExecutionSubmission Job (Context C)))
  | raised (schedulerBroken : Bool)
  | cancelled
  deriving DecidableEq, Repr

/-- How a caller's source ends one `anext`. -/
inductive Answer (Job C : Type)
  | submission (submission : ExecutionSubmission Job C)
  | stop
  | raised (schedulerBroken : Bool)
  | cancelled
  deriving DecidableEq, Repr

/-- How a stream ends: its loop returned, an exception left it, or its consumer closed it. -/
inductive Ending
  | returned
  | raised
  | closed
  deriving DecidableEq, Repr

/-- Where a stream is in `_drive_stream`. The suspended phases are `emptying` and `finalizing`,
which await a cancelled pull, `yielded`, `parked`, `settling`, which awaits `changed`, `abandoned`,
where the consumer closed the stream and its inner generator is not finalized yet, and `ended`. -/
inductive Phase (C Done : Type)
  | top
  | emptying
  | take
  | took (completion : Completion (Context C) Done)
  | yielded
  | checkEnd
  | admitCarried
  | collect
  | pull
  | parked
  | settling (cancelled : Bool)
  | finalizing (ending : Ending)
  | bookkeeping (ending : Ending)
  | departing (ending : Ending)
  | abandoned
  | ended (ending : Ending)
  deriving DecidableEq, Repr

def Phase.suspended {C Done : Type} : Phase C Done → Bool
  | emptying | yielded | parked | settling _ | finalizing _ | abandoned | ended _ => true
  | _ => false

/-- The locals of `_drive_stream`, the permits of the gate of a `map_stream`, and below them the
submissions its source has given, whether the source stopped, and the completions its consumer has
received. -/
structure Stream (Job C Done : Type) where
  endsOnOwnWork : Bool
  permits : ℕ
  exhausted : Bool := false
  carried : Option (ExecutionSubmission Job (Context C)) := none
  sourcePull : Option (Pull Job C) := none
  wakeup : Bool := false
  outstanding : ℤ := 0
  phase : Phase C Done := .top
  pulled : List (ExecutionSubmission Job C) := []
  sourceStopped : Bool := false
  received : List (Completion (Context C) Done) := []
  deriving DecidableEq, Repr

/-- Where `_finish_close` is. -/
inductive Closing
  | open
  | quiescing
  | joining
  | joined
  | finished
  deriving DecidableEq, Repr

/-- The pool's fields under their source names, its streams, and the number of `_wake_streams`
callbacks the loop has run. A stream's wakeup is in `_stream_wakeups` while the stream is in
`registered`. -/
structure ExecutionPool (Job C Done Fault : Type) where
  scheduler : ExecutionScheduler Job (Context C) Done Fault
  state : ExecutionPoolState := .running
  closed : Bool := false
  activeStreams : ℤ := 0
  shutdownComplete : Bool := false
  closing : Closing := .open
  streams : List (Stream Job C Done) := []
  registered : List ℕ := []
  woken : ℕ := 0
  deriving DecidableEq, Repr

variable {Job C Done Fault : Type}

namespace Stream

variable (stream : Stream Job C Done) (owner : ℕ)

/-- `owned_by` of the stream at position `owner`. -/
def ownedBy : Context C → Bool := if stream.endsOnOwnWork then owns owner else unowned

/-- The context a submission gets: `_gated` tags it. -/
def tag (context : C) : Context C := if stream.endsOnOwnWork then .owned owner context else .bare context

/-- `asyncio.create_task(_next_submission(source))` -/
def startPull : Stream Job C Done :=
  { stream with sourcePull := some (if stream.endsOnOwnWork then .acquiring else .asking) }

/-- The condition under which a pull is started, with what `can_admit` returned. -/
def mayPull (canAdmit : Bool) : Bool :=
  !stream.exhausted && stream.carried.isNone && stream.sourcePull.isNone && canAdmit

/-- An exception left the `finally` block before its bookkeeping. -/
def leaveFinally (ending : Ending) : Stream Job C Done :=
  { stream with phase := if ending = .closed then .ended .closed else .departing .raised }

/-- The `finally` block up to the end of `_cancel_source_pull`. -/
def enterFinally (ending : Ending) : Stream Job C Done :=
  match stream.sourcePull with
  | none | some (.done _) | some .cancelled => { stream with phase := .bookkeeping ending }
  | some (.raised _) => stream.leaveFinally ending
  | some .acquiring | some .asking => { stream with phase := .finalizing ending }

/-- `_cancel_source_pull` at the head of the loop, of a pool that has left `RUNNING`. -/
def emptyPull : Stream Job C Done :=
  match stream.sourcePull with
  | none | some (.done _) | some .cancelled => { stream with sourcePull := none, phase := .take }
  | some (.raised _) => stream.enterFinally .raised
  | some .acquiring | some .asking => { stream with phase := .emptying }

/-- The head of the loop, up to the take. -/
def loopHead (state : ExecutionPoolState) : Stream Job C Done :=
  let stream := { stream with wakeup := false }
  if state ≠ .running then { stream with exhausted := true, carried := none }.emptyPull
  else { stream with phase := .take }

/-- After a completion was taken: the next pull, and the `yield`, at which a `map_stream` releases a
permit of its gate. -/
def yieldTaken (canAdmit : Bool) (completion : Completion (Context C) Done) : Stream Job C Done :=
  let stream := if stream.mayPull canAdmit then stream.startPull else stream
  { stream with
    phase := .yielded
    permits := if stream.endsOnOwnWork then stream.permits + 1 else stream.permits
    received := stream.received ++ [completion] }

/-- The end condition, with what `has_residents` returned. -/
def atEnd (hasResidents : Bool) : Bool :=
  stream.exhausted && stream.carried.isNone &&
    (if stream.endsOnOwnWork then stream.outstanding == 0 else !hasResidents)

/-- A finished pull is read. -/
def collectPull (state : ExecutionPoolState) : Stream Job C Done :=
  match stream.sourcePull with
  | some (.done none) => { stream with sourcePull := none, exhausted := true, phase := .top }
  | some (.done (some submission)) =>
    { stream with
      sourcePull := none
      carried := if state = .running then some submission else stream.carried
      phase := .top }
  | some (.raised _) | some .cancelled => stream.enterFinally .raised
  | _ => { stream with phase := .pull }

/-- The source raised `SchedulerBroken`: it is a stream of a pool that broke, say. -/
def sourceBroke : Bool :=
  match stream.sourcePull with
  | some (.raised schedulerBroken) => schedulerBroken
  | _ => false

/-- The next pull is started, and the stream waits. -/
def park (canAdmit : Bool) : Stream Job C Done :=
  let stream := if stream.mayPull canAdmit then stream.startPull else stream
  { stream with phase := .parked }

/-- The pull task is done: `asyncio.wait` returns, or a cancellation that awaits it goes on. -/
def pullDone (pull : Pull Job C) : Stream Job C Done :=
  let stream := { stream with sourcePull := some pull }
  match stream.phase with
  | .emptying => stream.emptyPull
  | .finalizing ending => stream.enterFinally ending
  | _ => stream

/-- The task `source_pull` when the source answers: `_next_submission`, behind `_gated` in a
`map_stream`. -/
def answer : Answer Job C → Stream Job C Done
  | .submission submission =>
    { stream with pulled := stream.pulled ++ [submission] }.pullDone
      (.done (some ⟨submission.job, stream.tag owner submission.context⟩))
  | .stop =>
    { stream with
      permits := if stream.endsOnOwnWork then stream.permits + 1 else stream.permits
      sourceStopped := true }.pullDone (.done none)
  | .raised schedulerBroken => stream.pullDone (.raised schedulerBroken)
  | .cancelled => stream.pullDone .cancelled

/-- The pull of this stream was cancelled and awaits that. -/
def cancelling : Bool :=
  match stream.phase with
  | .emptying | .finalizing _ => true
  | _ => false

end Stream

inductive PoolAction (Job C Done Fault : Type)
  | takeAdmitted (worker : ℕ)
  | finish (worker : ℕ) (result : Except Fault Done)
  | runStream
  | mapStream (concurrency : Option ℤ)
  | drive (stream : ℕ) (start : Option Fault)
  | anext (stream : ℕ)
  | aclose (stream : ℕ)
  | finalize (stream : ℕ)
  | cancel (stream : ℕ)
  | acquire (stream : ℕ)
  | answer (stream : ℕ) (answer : Answer Job C)
  | wakeStreams
  | drain
  | cancelAll
  | quiesced
  | joined
  | closed

namespace ExecutionPool

/-- `__aenter__` with a capacity that is resolved. -/
def open? (capacity : ℤ) : Option (ExecutionPool Job C Done Fault) :=
  (ExecutionScheduler.init capacity).map fun scheduler => { scheduler := scheduler }

variable (w : ExecutionPool Job C Done Fault)

/-- Every stream is suspended, so the event loop may run another task. -/
def loopFree : Bool := w.streams.all fun stream => stream.phase.suspended

/-- Every stream but `i` is suspended. -/
def othersSuspended (i : ℕ) : Bool :=
  w.streams.zipIdx.all fun (stream, j) => j == i || stream.phase.suspended

def put (i : ℕ) (stream : Stream Job C Done) : ExecutionPool Job C Done Fault :=
  { w with streams := w.streams.set i stream }

/-- `_wake_streams` -/
def wakeAll : ExecutionPool Job C Done Fault :=
  { w with streams := w.streams.mapIdx fun j stream =>
      if j ∈ w.registered then { stream with wakeup := true } else stream }

/-- `run_stream` and `map_stream` up to the loop of `_drive_stream`. -/
def openStream (endsOnOwnWork : Bool) (width : ℕ) : ExecutionPool Job C Done Fault :=
  { w with
    streams := w.streams ++ [{ endsOnOwnWork := endsOnOwnWork, permits := width }]
    registered := w.registered ++ [w.streams.length]
    activeStreams := w.activeStreams + 1 }

/-- `take_completion_nowait` in the loop. -/
def driveTake (i : ℕ) (stream : Stream Job C Done) : ExecutionPool Job C Done Fault :=
  let (taken, scheduler) := w.scheduler.takeCompletionNowait (some (stream.ownedBy i))
  let w := { w with scheduler := ExecutionScheduler.recordTaken i taken scheduler }
  match taken with
  | .error _ =>
    let state := if w.state = .running then .broken else w.state
    { w with state := state }.put i (stream.enterFinally .raised)
  | .ok (some completion) =>
    w.put i { stream with outstanding := stream.outstanding - 1, phase := .took completion }
  | .ok none => w.put i { stream with phase := .checkEnd }

/-- `admit` in the loop. -/
def driveAdmit (i : ℕ) (stream : Stream Job C Done) (start : Option Fault) :
    ExecutionPool Job C Done Fault :=
  match stream.carried with
  | none => w.put i { stream with phase := .collect }
  | some submission =>
    let (result, scheduler) := w.scheduler.admitJob submission.job submission.context start
    let w := { w with scheduler := scheduler }
    match result with
    | .admitted =>
      w.put i { stream with carried := none, outstanding := stream.outstanding + 1, phase := .top }
    | .intakeClosed => w.put i { stream with carried := none, exhausted := true, phase := .top }
    | .noRoom => w.put i { stream with phase := .collect }

/-- A finished pull is read in the loop, whose handler takes the `SchedulerBroken` of a source for one
of the scheduler; it wakes no other stream. -/
def driveCollect (i : ℕ) (stream : Stream Job C Done) : ExecutionPool Job C Done Fault :=
  let state := if stream.sourceBroke ∧ w.state = .running then .broken else w.state
  { w with state := state }.put i (stream.collectPull w.state)

/-- The `finally` block after `_cancel_source_pull`. -/
def driveBookkeeping (i : ℕ) (stream : Stream Job C Done) (ending : Ending) :
    ExecutionPool Job C Done Fault :=
  let w := { w with
    registered := w.registered.filter fun j => j ≠ i
    activeStreams := w.activeStreams - 1 }
  let w := if w.activeStreams = 0 ∧ w.shutdownComplete then
      { w with scheduler := w.scheduler.discardCompletions } else w
  w.put i { stream with phase := if ending = .closed then .ended .closed else .departing ending }

/-- The `finally` block of `map_stream`. -/
def releaseOwned (i : ℕ) (stream : Stream Job C Done) : ExecutionPool Job C Done Fault :=
  if stream.endsOnOwnWork then { w with scheduler := w.scheduler.releaseOwned (owns i) } else w

/-- A coroutine runs to its next call on the scheduler or its next suspension. -/
def drive (i : ℕ) (stream : Stream Job C Done) (start : Option Fault) :
    Option (ExecutionPool Job C Done Fault) :=
  match stream.phase with
  | .top => some (w.put i (stream.loopHead w.state))
  | .take => some (w.driveTake i stream)
  | .took completion => some (w.put i (stream.yieldTaken w.scheduler.canAdmit completion))
  | .checkEnd =>
    some (w.put i (if stream.atEnd w.scheduler.hasResidents then stream.enterFinally .returned
      else { stream with phase := .admitCarried }))
  | .admitCarried => some (w.driveAdmit i stream start)
  | .collect => some (w.driveCollect i stream)
  | .pull => some (w.put i (stream.park w.scheduler.canAdmit))
  | .bookkeeping ending => some (w.driveBookkeeping i stream ending)
  | .departing ending => some ((w.releaseOwned i stream).put i { stream with phase := .ended ending })
  | _ => none

/-- `_close`: the first caller closes the intake and starts `_finish_close`. -/
def close : ExecutionPool Job C Done Fault :=
  { { w with state := .draining, scheduler := w.scheduler.closeIntake }.wakeAll with
    closing := .quiescing }

/-- `_finish_close` after its two calls on threads. -/
def finishClose : ExecutionPool Job C Done Fault :=
  let w := { w with
    shutdownComplete := true
    closed := true
    state := if w.scheduler.isBroken then .broken else .closed }.wakeAll
  let w := if w.activeStreams = 0 then
      { w with scheduler := w.scheduler.discardCompletions } else w
  { w with closing := .finished }

/-- Runs `f` on stream `i` if it exists. -/
def onStream (i : ℕ) (f : Stream Job C Done → Option (ExecutionPool Job C Done Fault)) :
    Option (ExecutionPool Job C Done Fault) :=
  (w.streams[i]?).bind f

/-- What a task of the event loop does when no coroutine is running. -/
def loopStep : PoolAction Job C Done Fault → Option (ExecutionPool Job C Done Fault)
  | .runStream => if w.state = .running then some (w.openStream false 0) else none
  | .mapStream concurrency =>
    let width := concurrency.getD w.scheduler.capacity
    if w.state = .running ∧ 1 ≤ width then some (w.openStream true width.toNat) else none
  | .anext i => w.onStream i fun stream =>
    match stream.phase with
    | .yielded => some (w.put i { stream with phase := .top })
    | .parked =>
      let pulled := match stream.sourcePull with
        | some (.done _) | some (.raised _) | some .cancelled => true
        | _ => false
      if stream.wakeup || pulled then some (w.put i { stream with phase := .settling false })
      else none
    | .settling false => some (w.put i { stream with phase := .top })
    | .settling true => some (w.put i (stream.enterFinally .raised))
    | _ => none
  | .aclose i => w.onStream i fun stream =>
    match stream.phase with
    | .yielded => some ((w.releaseOwned i stream).put i { stream with phase := .abandoned })
    | _ => none
  | .finalize i => w.onStream i fun stream =>
    match stream.phase with
    | .abandoned => some (w.put i (stream.enterFinally .closed))
    | _ => none
  | .cancel i => w.onStream i fun stream =>
    match stream.phase with
    | .parked => some (w.put i { stream with phase := .settling true })
    -- The `suppress` around the awaited task takes the consumer's cancellation too.
    | .settling _ | .emptying | .finalizing _ => some w
    | _ => none
  | .acquire i => w.onStream i fun stream =>
    match stream.sourcePull with
    | some .acquiring =>
      if 0 < stream.permits && !stream.cancelling then
        some (w.put i { stream with permits := stream.permits - 1, sourcePull := some .asking })
      else none
    | _ => none
  | .answer i answer => w.onStream i fun stream =>
    match stream.sourcePull with
    | some .asking => some (w.put i (stream.answer i answer))
    | some .acquiring =>
      if stream.cancelling && answer matches .cancelled then
        some (w.put i (stream.answer i answer))
      else none
    | _ => none
  | .wakeStreams =>
    if w.woken < w.scheduler.announced then some { w.wakeAll with woken := w.woken + 1 } else none
  | .drain => if w.closing = .open then some w.close else none
  | .cancelAll =>
    if w.closing ≠ .open ∧ w.closed = false then
      some { w with scheduler := w.scheduler.cancelAll } else none
  | .closed => if w.closing = .joined then some w.finishClose else none
  | _ => none

/-- The pool after a step; `none` where the step cannot happen now. -/
def step : PoolAction Job C Done Fault → ExecutionPool Job C Done Fault →
    Option (ExecutionPool Job C Done Fault)
  | .takeAdmitted worker, w =>
    (ExecutionScheduler.step (.takeAdmitted worker) w.scheduler).map fun scheduler =>
      { w with scheduler := scheduler }
  | .finish worker result, w =>
    (ExecutionScheduler.step (.finish worker result) w.scheduler).map fun scheduler =>
      { w with scheduler := scheduler }
  | .quiesced, w =>
    if w.closing = .quiescing ∧ w.scheduler.quiescent then
      some { w with scheduler := w.scheduler.shutdownBegin true, closing := .joining }
    else none
  | .joined, w =>
    if w.closing = .joining then
      (ExecutionScheduler.step (.shutdownEnd 0) w.scheduler).map fun scheduler =>
        { w with scheduler := scheduler, closing := .joined }
    else none
  | .drive i start, w =>
    if w.othersSuspended i then w.onStream i fun stream => w.drive i stream start else none
  | action, w => if w.loopFree then w.loopStep action else none

end ExecutionPool

end DrExec.Scheduling.Pool
