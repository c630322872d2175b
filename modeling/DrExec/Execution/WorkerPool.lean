import DrExec.Declarations.Models
import DrExec.Lib.Transition
import Mathlib.Data.Int.Notation

/-! # The worker set

`_WorkerSet` of `execution/worker_pool.py` with the calls of `run_blocking` and `close_blocking`
that use it. A call is in a `Phase`, a place between two operations on what it shares with others:
the slot queue, the closed flag, the set `_live` under its lock, and a worker's process, pipes and
frames. A section under the lock is one step, except where it waits for a worker's reader, with the
lock. What a call does not decide is part of its action: how its `_spawn_worker` fares, whether its
write meets a broken pipe, when a stop condition fires, and what the clocks read. The workers answer
and die at any time, and hand the end of their result pipe that they write to to other processes. -/

namespace DrExec.Execution.WorkerPool

open DrExec.Declarations.Models (floatOverflow)
open DrExec.Lib.Transition

/-! ### Workers -/

/-- A frame on a result pipe: `READY_FRAME` or another. -/
inductive Frame (F : Type)
  | ready
  | other (frame : F)
  deriving DecidableEq, Repr

/-- `_Worker`: the frames its reader thread published, `none` at the end of the pipe, and below its
fields whether another process has the end of the result pipe that is written to, and the state of
its process. -/
structure Worker (F : Type) where
  ready : Bool := false
  frames : List (Option (Frame F)) := []
  requestsOpen : Bool := true
  readerDone : Bool := false
  shared : Bool := false
  exitCode : Option ℤ := none
  terminated : Bool := false
  deriving DecidableEq, Repr

namespace Worker

variable {F : Type} (worker : Worker F)

/-- The reader thread publishes the end of the result pipe, once. -/
def endOfFile : Worker F :=
  if worker.readerDone then worker
  else { worker with frames := worker.frames ++ [none], readerDone := true }

/-- The reader thread of a worker that was killed comes to its end by itself. -/
def joinable : Bool := worker.readerDone || !worker.shared

/-- The process is killed unless it has ended. -/
def kill : Worker F :=
  { worker with exitCode := some (worker.exitCode.getD (-9)), terminated := true }

/-- `terminate`: the process is killed, the reader is joined, and the request pipe is closed. Where
it has to wait for the reader, the kill before that is a death of the worker. -/
def terminate : Worker F := { worker.kill.endOfFile with requestsOpen := false }

end Worker

/-- An exception of a system call or a thread. -/
inductive Raised
  | osError (errno : Option ℤ) (message : String)
  | other
  deriving DecidableEq, Repr

/-- What the steps of `_spawn_worker` raise, if they raise. -/
structure SpawnScript where
  requestPipe : Option Raised := none
  resultPipe : Option Raised := none
  popen : Option Raised := none
  openResults : Option Raised := none
  startReader : Option Raised := none
  openRequests : Option Raised := none
  deriving DecidableEq, Repr

/-- How `_spawn_worker` ends: with a worker, with `_SpawnFailure`, or with another exception, and
then maybe with a process started. -/
inductive Spawned
  | worker
  | spawnFailure (errno : ℤ) (message : String)
  | raised (error : Raised) (started : Bool)
  deriving DecidableEq, Repr

/-- `_spawn_worker` -/
def spawnWorker (script : SpawnScript) : Spawned :=
  match script.requestPipe, script.resultPipe, script.popen with
  | some error, _, _ => .raised error false
  | none, some error, _ => .raised error false
  | none, none, some (.osError errno message) => .spawnFailure (errno.getD 0) message
  | none, none, some .other => .raised .other false
  | none, none, none =>
    match script.openResults <|> script.startReader <|> script.openRequests with
    | some error => .raised error true
    | none => .worker

/-! ### Calls of `run_blocking` -/

/-- Why a `_StopWatch` stops a job. -/
inductive StopReason
  | cancelled
  | wallTime
  deriving DecidableEq, Repr

/-- What a completion reports. `died` has the exit status that `death` reads, and `interpreted` the
frame given to `interpret`. -/
inductive Completion (F : Type)
  | stopped (reason : StopReason) (started : Bool)
  | spawnFailed (errno : ℤ) (message : String)
  | protocolFailed (detail : String)
  | died (exitCode : ℤ)
  | interpreted (frame : Frame F)
  deriving DecidableEq, Repr

/-- What leaves `run_blocking` in place of a completion: the `OverflowError` of `poll_seconds`, what
`_spawn_worker` raised, the `ValueError` of a closed request pipe, or the `ValidationError` of
`finished_must_not_precede_started`. -/
inductive Escaped
  | overflow
  | spawn (error : Raised)
  | closedPipe
  | measurements
  deriving DecidableEq, Repr

abbrev Result (F : Type) := Except Escaped (Completion F)

instance {F : Type} [DecidableEq F] : DecidableEq (Result F) := fun a b =>
  match a, b with
  | .ok x, .ok y => decidable_of_iff (x = y) ⟨fun h => h ▸ rfl, fun h => Except.ok.inj h⟩
  | .error x, .error y => decidable_of_iff (x = y) ⟨fun h => h ▸ rfl, fun h => Except.error.inj h⟩
  | .ok _, .error _ => isFalse fun h => nomatch h
  | .error _, .ok _ => isFalse fun h => nomatch h

def closedDetail : String := "the worker pool closed while this job was starting a worker"

def startupDetail : String := "the worker failed its entry-point import at startup"

/-- What the end of a worker is followed by: `raise _WorkerSetClosed` in `lease`, for a worker just
spawned under the lock, or the end of a lease. -/
inductive After (F : Type)
  | refused (locked : Bool)
  | exited (result : Result F)
  deriving DecidableEq

/-- Where a call of `run_blocking` is. `completing` builds the completion, outside a lease or inside
one, which then may be discarded; `leaving` is the exit of a lease. -/
inductive Phase (F : Type)
  | begun
  | entering
  | waiting
  | taken (worker : ℕ)
  | spawning
  | unspawned (errno : ℤ) (message : String)
  | spawned (worker : ℕ)
  | leased (worker : ℕ)
  | sending (worker : ℕ)
  | flushing (worker : ℕ)
  | receiving (worker : ℕ)
  | dying (worker : ℕ)
  | completing (lease : Option (ℕ × Bool)) (completion : Completion F)
  | leaving (worker : ℕ) (discarded : Bool) (result : Result F)
  | returning (worker : ℕ) (result : Result F)
  | retiring (worker : ℕ) (after : After F)
  | terminating (worker : ℕ) (after : After F)
  | freeing (after : After F)
  | ended (result : Result F)
  deriving DecidableEq

def After.phase {F : Type} : After F → Phase F
  | refused _ => .completing none (.protocolFailed closedDetail)
  | exited result => .ended result

/-- The call has the lock of the set. -/
def Phase.locks {F : Type} : Phase F → Bool
  | .terminating _ (.refused locked) | .freeing (.refused locked) => locked
  | _ => false

/-- A call, with the wall time its job declared and whether it was given a cancel token, the time it
started, and the numbers of entries it took out of the slot queue and put back. -/
structure Job (F : Type) where
  deadlineNs : Option ℕ
  cancellable : Bool
  startedAt : ℤ
  phase : Phase F := .begun
  took : ℕ := 0
  gave : ℕ := 0
  deriving DecidableEq

/-- The `_StopWatch` of the call may stop it so. -/
def Job.watches {F : Type} (job : Job F) : StopReason → Bool
  | .cancelled => job.cancellable
  | .wallTime => job.deadlineNs.isSome

/-- What lies outside a call, at its next step; `poll` has the nanoseconds since its start. -/
inductive Choice
  | go
  | poll (elapsed : ℕ)
  | stop (reason : StopReason)
  | spawn (script : SpawnScript)
  | write (broken : Bool)
  | clock (now : ℤ)
  deriving DecidableEq, Repr

/-- Where a call of `close` is. -/
inductive Closer
  | checking
  | setting
  | snapshotting
  | killing (live : List ℕ)
  | draining (pending : List (Option ℕ))
  | refilling (pending : List (Option ℕ))
  | returned
  deriving DecidableEq, Repr

/-- The fields of `_WorkerSet`, every worker that was spawned, the number of processes that no
worker stands for, and the calls. -/
structure WorkerSet (F : Type) where
  width : ℕ
  slots : List (Option ℕ)
  closed : Bool := false
  live : List ℕ := []
  workers : List (Worker F) := []
  orphans : ℕ := 0
  jobs : List (Job F) := []
  closers : List Closer := []
  deriving DecidableEq

inductive Action (F : Type)
  | runBlocking (deadlineNs : Option ℕ) (cancellable : Bool) (startedAt : ℤ)
  | job (i : ℕ) (choice : Choice)
  | close
  | closer (j : ℕ)
  | answer (i : ℕ) (frame : Frame F)
  | die (i : ℕ) (exitCode : ℤ)
  | share (i : ℕ) (shared : Bool)
  | endOfFile (i : ℕ)

variable {F : Type}

namespace WorkerSet

/-- `__init__` -/
def init (width : ℕ) : WorkerSet F := { width := width, slots := List.replicate width none }

variable (w : WorkerSet F)

/-- `self._slots.put(entry)` -/
def put (entry : Option ℕ) : WorkerSet F := { w with slots := w.slots ++ [entry] }

/-- Replaces worker `i`. -/
def setWorker (i : ℕ) (worker : Worker F) : WorkerSet F :=
  { w with workers := w.workers.set i worker }

/-- Some call has the lock. -/
def locked : Bool := w.jobs.any fun job => job.phase.locks

/-- `terminate` of worker `i` need not wait for its reader. -/
def joinable (i : ℕ) : Bool := (w.workers[i]?).all Worker.joinable

/-- Worker `i` after `f`. -/
def alter (i : ℕ) (f : Worker F → Worker F) : WorkerSet F :=
  match w.workers[i]? with
  | some worker => w.setWorker i (f worker)
  | none => w

abbrev kill (i : ℕ) : WorkerSet F := w.alter i Worker.kill

abbrev terminate (i : ℕ) : WorkerSet F := w.alter i Worker.terminate

/-- `wait_for_ready`, when the worker is ready or a frame is there. -/
def waitForReady (i : ℕ) (worker : Worker F) : Option (WorkerSet F × Phase F) :=
  if worker.ready then some (w, .sending i)
  else
    match worker.frames with
    | [] => none
    | some .ready :: rest =>
      some (w.setWorker i { worker with ready := true, frames := rest }, .sending i)
    | _ :: rest =>
      some (w.setWorker i { worker with frames := rest },
        .completing (some (i, true)) (.protocolFailed startupDetail))

/-- `receive`, when a frame is there. -/
def receive (i : ℕ) (worker : Worker F) : Option (WorkerSet F × Phase F) :=
  match worker.frames with
  | [] => none
  | some frame :: rest =>
    some (w.setWorker i { worker with frames := rest },
      .completing (some (i, false)) (.interpreted frame))
  | none :: rest => some (w.setWorker i { worker with frames := rest }, .dying i)

/-- The end of `completed_execution`. -/
def complete (startedAt now : ℤ) (completion : Completion F) : Result F :=
  if now < startedAt then .error .measurements else .ok completion

/-- The step of a call, from its phase; `none` where it has to wait. -/
def stepJob (job : Job F) (choice : Choice) : Option (WorkerSet F × Job F) :=
  let goes (phase : Phase F) : Option (WorkerSet F × Job F) := some (w, { job with phase := phase })
  let gives (entry : Option ℕ) (phase : Phase F) : Option (WorkerSet F × Job F) :=
    some (w.put entry, { job with phase := phase, gave := job.gave + 1 })
  match job.phase, choice with
  | .begun, .go => goes .entering
  | .begun, .stop .cancelled =>
    if job.cancellable then goes (.completing none (.stopped .cancelled false)) else none
  -- `lease`; the polls after the first have less time left to convert
  | .entering, .go =>
    if w.closed then goes (.completing none (.protocolFailed closedDetail))
    else if job.deadlineNs.isNone then goes .waiting
    else none
  | .entering, .poll elapsed =>
    job.deadlineNs.bind fun deadlineNs =>
      if w.closed then none
      else if floatOverflow ≤ deadlineNs - elapsed then goes (.ended (.error .overflow))
      else goes .waiting
  | .waiting, .go =>
    match w.slots with
    | [] => none
    | none :: rest =>
      some ({ w with slots := rest }, { job with phase := .spawning, took := job.took + 1 })
    | some i :: rest =>
      some ({ w with slots := rest }, { job with phase := .taken i, took := job.took + 1 })
  | .waiting, .stop reason =>
    if job.watches reason then goes (.completing none (.stopped reason false)) else none
  | .taken i, .go => if w.closed then goes (.retiring i (.refused false)) else goes (.leased i)
  | .spawning, .spawn script =>
    match spawnWorker script with
    | .worker =>
      some ({ w with workers := w.workers ++ [{}] },
        { job with phase := .spawned w.workers.length })
    | .spawnFailure errno message => goes (.unspawned errno message)
    | .raised error started =>
      some ({ w with orphans := w.orphans + started.toNat },
        { job with phase := .ended (.error (.spawn error)) })
  | .unspawned errno message, .go => gives none (.completing none (.spawnFailed errno message))
  | .spawned i, .go =>
    if w.locked then none
    else if w.closed then some (w.kill i, { job with phase := .terminating i (.refused true) })
    else some ({ w with live := i :: w.live }, { job with phase := .leased i })
  -- `_dispatch` and `_exchange` in the lease
  | .leased i, .go =>
    (w.workers[i]?).bind fun worker =>
      (w.waitForReady i worker).map fun (w, phase) => (w, { job with phase := phase })
  | .leased i, .stop reason =>
    (w.workers[i]?).bind fun worker =>
      if job.watches reason && !worker.ready then
        goes (.completing (some (i, true)) (.stopped reason true))
      else none
  | .sending i, .write broken =>
    (w.workers[i]?).bind fun worker =>
      if !worker.requestsOpen then goes (.leaving i false (.error .closedPipe))
      else if broken then goes (.dying i)
      else goes (.flushing i)
  | .flushing i, .go =>
    (w.workers[i]?).bind fun worker =>
      if !worker.requestsOpen then goes (.leaving i false (.error .closedPipe))
      else goes (.receiving i)
  | .receiving i, .go =>
    (w.workers[i]?).bind fun worker =>
      (w.receive i worker).map fun (w, phase) => (w, { job with phase := phase })
  | .receiving i, .stop reason =>
    if job.watches reason then goes (.completing (some (i, true)) (.stopped reason true)) else none
  | .dying i, .go =>
    (w.workers[i]?).bind fun worker =>
      worker.exitCode.bind fun code => goes (.completing (some (i, true)) (.died code))
  | .completing none completion, .clock now =>
    goes (.ended (complete job.startedAt now completion))
  | .completing (some (i, discarded)) completion, .clock now =>
    goes (.leaving i discarded (complete job.startedAt now completion))
  -- `__exit__`, with `release`, and `retire_and_free`
  | .leaving i discarded result, .go =>
    if discarded || w.closed then goes (.retiring i (.exited result)) else goes (.returning i result)
  | .returning i result, .go => gives (some i) (.ended result)
  | .retiring i after, .go =>
    if w.locked then none
    else some ({ w with live := w.live.filter fun j => j ≠ i },
      { job with phase := if i ∈ w.live then .terminating i after else .freeing after })
  | .terminating i after, .go =>
    if w.joinable i then some (w.terminate i, { job with phase := .freeing after }) else none
  | .freeing after, .go => gives none after.phase
  | _, _ => none

/-- The step of a call of `close`; `none` where it has to wait. -/
def stepCloser : Closer → Option (WorkerSet F × Closer)
  | .checking => some (w, if w.closed then .returned else .setting)
  | .setting => some ({ w with closed := true }, .snapshotting)
  | .snapshotting => if w.locked then none else some ({ w with live := [] }, .killing w.live)
  | .killing [] => some (w, .draining [])
  | .killing (i :: rest) => if w.joinable i then some (w.terminate i, .killing rest) else none
  | .draining pending =>
    match w.slots with
    | [] => some (w, .refilling pending)
    | entry :: rest => some ({ w with slots := rest }, .draining (pending ++ [entry]))
  | .refilling [] => some (w, .returned)
  | .refilling (none :: rest) => some (w.put none, .refilling rest)
  | .refilling (some i :: rest) =>
    if w.joinable i then some (w.terminate i, .refilling (none :: rest)) else none
  | .returned => none

/-- The set after a step; `none` where the step cannot happen now. -/
def step : Action F → WorkerSet F → Option (WorkerSet F)
  | .runBlocking deadlineNs cancellable startedAt, w =>
    let job := { deadlineNs := deadlineNs, cancellable := cancellable, startedAt := startedAt }
    some { w with jobs := w.jobs ++ [job] }
  | .job i choice, w =>
    (w.jobs[i]?).bind fun job =>
      (w.stepJob job choice).map fun (w', job') => { w' with jobs := w'.jobs.set i job' }
  | .close, w => some { w with closers := w.closers ++ [.checking] }
  | .closer j, w =>
    (w.closers[j]?).bind fun closer =>
      (w.stepCloser closer).map fun (w', closer') => { w' with closers := w'.closers.set j closer' }
  | .answer i frame, w =>
    (w.workers[i]?).bind fun worker =>
      if worker.exitCode.isNone && !worker.readerDone then
        some (w.setWorker i { worker with frames := worker.frames ++ [some frame] })
      else none
  | .die i exitCode, w =>
    (w.workers[i]?).bind fun worker =>
      if worker.exitCode.isNone then
        some (w.setWorker i { worker with exitCode := some exitCode })
      else none
  | .share i shared, w =>
    (w.workers[i]?).bind fun worker =>
      if worker.exitCode.isNone && !worker.readerDone || worker.shared then
        some (w.setWorker i { worker with shared := shared })
      else none
  | .endOfFile i, w =>
    (w.workers[i]?).bind fun worker =>
      if worker.shared then none else some (w.setWorker i worker.endOfFile)

end WorkerSet

end DrExec.Execution.WorkerPool
