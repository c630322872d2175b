import DrExec.Lib.Transition
import DrExec.Lib.Lists
import Mathlib.Data.Int.Notation

/-! # The execution scheduler

`ExecutionScheduler` of `scheduling/scheduler.py`: one resident bound and one completion queue
shared by worker threads and drivers. Every method holds the one condition for its whole body, or
for the two parts of its body around a `join` (`shutdown`), so a step of the system is one such
section. Worker threads are in `_work`: waiting for an admitted job, inside `run_blocking`, or
returned.

`Job`, `Ctx`, `Done` and `Fault` are the types of jobs, of driver contexts, of completed executions
and of the exceptions that break the scheduler. What the scheduler does not decide is part of the
action: whether a thread starts, and what `run_blocking` returns or raises. -/

namespace DrExec.Scheduling.Scheduler

open DrExec.Lib.Transition DrExec.Lib.Lists

/-- A `CancelToken`, by identity. -/
structure CancelToken where
  serial : ℕ
  deriving DecidableEq, Repr

inductive AdmissionResult
  | admitted
  | intakeClosed
  | noRoom
  deriving DecidableEq, Repr

structure Admitted (Job Ctx : Type) where
  ticket : ℕ
  job : Job
  context : Ctx
  cancellation : CancelToken
  deriving DecidableEq, Repr

structure Completion (Ctx Done : Type) where
  ticket : ℕ
  completedExecution : Done
  context : Ctx
  deriving DecidableEq, Repr

/-- Where a worker thread is in `_work`. -/
inductive Worker (Job Ctx : Type)
  | waiting
  | calling (admitted : Admitted Job Ctx)
  | returned
  deriving DecidableEq, Repr

/-- The job a worker thread is inside `run_blocking` with. -/
def Worker.call? {Job Ctx : Type} : Worker Job Ctx → Option (Admitted Job Ctx)
  | calling admitted => some admitted
  | _ => none

/-- A `shutdown` call between its two sections: the threads it joins, and its argument. -/
structure Shutdown where
  workers : List ℕ
  preserveCompletions : Bool
  deriving DecidableEq, Repr

/-- What has happened to tickets so far. Taking a completion records the driver that took it. -/
inductive Event (Job Ctx Done : Type)
  | admitted (ticket : ℕ) (job : Job) (context : Ctx)
  | called (ticket : ℕ) (job : Job)
  | returned (ticket : ℕ) (completedExecution : Done)
  | raised (ticket : ℕ)
  | delivered (driver : ℕ) (completion : Completion Ctx Done)
  | released (ticket : ℕ)
  | discarded (ticket : ℕ)
  | dropped (ticket : ℕ)
  deriving DecidableEq, Repr

/-- The scheduler's fields under their source names, and below them what lies outside the object:
the cancel tokens that are set, the number of notifications, the worker threads by the order in
which they started, the `shutdown` calls in progress, and the history. `_residents` and `_running`
are integers, as in the source: that they stay nonnegative is proved. -/
structure ExecutionScheduler (Job Ctx Done Fault : Type) where
  capacity : ℤ
  pending : List (Admitted Job Ctx) := []
  ready : List (Completion Ctx Done) := []
  tokens : List (ℕ × CancelToken) := []
  workers : List ℕ := []
  nextTicket : ℕ := 0
  residents : ℤ := 0
  running : ℤ := 0
  intakeClosed : Bool := false
  expired : Bool := false
  broken : Option Fault := none
  cancelled : List CancelToken := []
  announced : ℕ := 0
  threads : List (Worker Job Ctx) := []
  joining : List Shutdown := []
  shutdownReturned : Bool := false
  history : List (Event Job Ctx Done) := []
  deriving DecidableEq, Repr

variable {Job Ctx Done Fault : Type}

namespace ExecutionScheduler

/-- `__init__`; `none` is the `ValueError`. -/
def init (capacity : ℤ) : Option (ExecutionScheduler Job Ctx Done Fault) :=
  if capacity < 1 then none else some { capacity := capacity }

variable (s : ExecutionScheduler Job Ctx Done Fault)

/-- The jobs worker threads are inside `run_blocking` with. -/
def calls : List (Admitted Job Ctx) := s.threads.filterMap Worker.call?

def record (event : Event Job Ctx Done) : ExecutionScheduler Job Ctx Done Fault :=
  { s with history := s.history ++ [event] }

/-- `_tokens.pop(ticket, None)` -/
def popToken (ticket : ℕ) : ExecutionScheduler Job Ctx Done Fault :=
  { s with tokens := s.tokens.filter fun entry => entry.1 ≠ ticket }

/-- `token.cancel()` -/
def cancelToken (token : CancelToken) : ExecutionScheduler Job Ctx Done Fault :=
  { s with cancelled := token :: s.cancelled }

/-- `_announce_change` -/
def announceChange : ExecutionScheduler Job Ctx Done Fault := { s with announced := s.announced + 1 }

/-- The body of the loop in `_break`. -/
def dropQueued (queued : Admitted Job Ctx) : ExecutionScheduler Job Ctx Done Fault :=
  ((s.cancelToken queued.cancellation).popToken queued.ticket).record (.dropped queued.ticket)

/-- `_break` -/
def breakWith (failure : Fault) : ExecutionScheduler Job Ctx Done Fault :=
  if s.broken.isSome then s
  else
    { s.pending.foldl dropQueued { s with broken := some failure, intakeClosed := true } with
      pending := [] }

/-- `_ensure_worker`; `start` is what `worker.start()` raises, if it raises. -/
def ensureWorker (start : Option Fault) : ExecutionScheduler Job Ctx Done Fault :=
  let idle := s.workers.length - s.running
  if idle ≥ s.pending.length ∨ s.workers.length ≥ s.capacity then s
  else
    match start with
    | some failure => (s.breakWith failure).announceChange
    | none => { s with threads := s.threads ++ [.waiting], workers := s.workers ++ [s.threads.length] }

def canAdmit : Bool := s.residents < s.capacity && !s.intakeClosed

/-- The part of `admit` after its two early returns. -/
def enqueue (job : Job) (context : Ctx) : ExecutionScheduler Job Ctx Done Fault :=
  let ticket := s.nextTicket
  let token : CancelToken := ⟨ticket⟩
  let s := { s with nextTicket := s.nextTicket + 1 }
  let s := if s.expired then s.cancelToken token else s
  let s := { s with tokens := s.tokens ++ [(ticket, token)] }
  let admitted : Admitted Job Ctx := ⟨ticket, job, context, token⟩
  let s := { s with pending := s.pending ++ [admitted] }
  { s with residents := s.residents + 1 }.record (.admitted ticket job context)

/-- `admit` -/
def admitJob (job : Job) (context : Ctx) (start : Option Fault) :
    AdmissionResult × ExecutionScheduler Job Ctx Done Fault :=
  if s.intakeClosed then (.intakeClosed, s)
  else if s.residents ≥ s.capacity then (.noRoom, s)
  else
    let s := ((s.enqueue job context).ensureWorker start).announceChange
    if s.broken.isSome then (.intakeClosed, s) else (.admitted, s)

def closeIntake : ExecutionScheduler Job Ctx Done Fault :=
  { s with intakeClosed := true }.announceChange

def hasResidents : Bool := s.residents > 0

def isBroken : Bool := s.broken.isSome

/-- The part of `_take_ready` and of `_take_ready_owned` after the completion left `_ready`. -/
def handOver (completion : Completion Ctx Done) (rest : List (Completion Ctx Done)) :
    ExecutionScheduler Job Ctx Done Fault :=
  let s := { s with ready := rest }.popToken completion.ticket
  { s with residents := s.residents - 1 }.announceChange

/-- `_take_ready_owned`; `_take_ready` is the case of a predicate that is always true. -/
def takeReadyOwned (ownedBy : Ctx → Bool) :
    Option (Completion Ctx Done) × ExecutionScheduler Job Ctx Done Fault :=
  match takeFirst (fun completion => ownedBy completion.context) s.ready with
  | some (completion, rest) => (some completion, s.handOver completion rest)
  | none => (none, s)

/-- What a taking method ends with: a completion or `None`, or `SchedulerBroken`. -/
abbrev Taken (Ctx Done Fault : Type) := Except Fault (Option (Completion Ctx Done))

/-- `_raise_if_broken` before `return None` -/
def noneUnlessBroken : Taken Ctx Done Fault :=
  match s.broken with
  | some failure => .error failure
  | none => .ok none

/-- `take_completion_nowait`; `ownedBy` is `none` where the caller gives no predicate. -/
def takeCompletionNowait (ownedBy : Option (Ctx → Bool)) :
    Taken Ctx Done Fault × ExecutionScheduler Job Ctx Done Fault :=
  match s.ready, ownedBy with
  | [], _ => (s.noneUnlessBroken, s)
  | completion :: rest, none => (.ok (some completion), s.handOver completion rest)
  | _ :: _, some owned =>
    match s.takeReadyOwned owned with
    | (some completion, s') => (.ok (some completion), s')
    | (none, s') => (s.noneUnlessBroken, s')

/-- What `take_completion` waits for. -/
def takeWait : Bool := !s.ready.isEmpty || s.broken.isSome || (s.running == 0 && s.pending.isEmpty)

/-- `take_completion` after its wait. -/
def takeCompletion : Taken Ctx Done Fault × ExecutionScheduler Job Ctx Done Fault :=
  s.takeCompletionNowait none

/-- The loop that cancels every live token. -/
def cancelTokens : ExecutionScheduler Job Ctx Done Fault :=
  (s.tokens.map Prod.snd).foldl cancelToken s

def cancelAll : ExecutionScheduler Job Ctx Done Fault := s.cancelTokens.announceChange

def expire : ExecutionScheduler Job Ctx Done Fault :=
  { s with expired := true }.cancelTokens.announceChange

/-- What `wait_for_quiescence` waits for. -/
def quiescent : Bool := s.running == 0 && s.pending.isEmpty

/-- `_discard_completions` -/
def dropCompletions : ExecutionScheduler Job Ctx Done Fault :=
  { s with
    ready := []
    tokens := []
    residents := 0
    history := s.history ++ s.ready.map fun completion => .discarded completion.ticket }

def discardCompletions : ExecutionScheduler Job Ctx Done Fault := s.dropCompletions.announceChange

/-- The body of the loop in `release_owned`. -/
def releaseOne (completion : Completion Ctx Done) : ExecutionScheduler Job Ctx Done Fault :=
  let s := s.popToken completion.ticket
  { s with residents := s.residents - 1 }.record (.released completion.ticket)

def releaseOwned (ownedBy : Ctx → Bool) : ExecutionScheduler Job Ctx Done Fault :=
  let kept := s.ready.filter fun completion => !ownedBy completion.context
  let s := (s.ready.filter fun completion => ownedBy completion.context).foldl releaseOne s
  { s with ready := kept }.announceChange

/-- What `_take_admitted` waits for. -/
def takeAdmittedWait : Bool := !s.pending.isEmpty || s.intakeClosed || s.broken.isSome

/-- `_take_admitted` after its wait: the job to call `run_blocking` with, or `None`. -/
def takeAdmitted : Option (Admitted Job Ctx) × ExecutionScheduler Job Ctx Done Fault :=
  match s.broken, s.pending with
  | none, admitted :: rest => (some admitted, { s with running := s.running + 1, pending := rest })
  | _, _ => (none, s)

/-- `_finish`, after `run_blocking` returned or raised. -/
def finish (admitted : Admitted Job Ctx) (result : Except Fault Done) :
    ExecutionScheduler Job Ctx Done Fault :=
  let s := { s with running := s.running - 1 }
  match result with
  | .ok completed =>
    let completion : Completion Ctx Done := ⟨admitted.ticket, completed, admitted.context⟩
    { s with ready := s.ready ++ [completion] }
      |>.record (.returned admitted.ticket completed) |>.announceChange
  | .error failure =>
    ((s.popToken admitted.ticket).record (.raised admitted.ticket)).breakWith failure
      |>.announceChange

/-- The first section of `shutdown`. -/
def shutdownBegin (preserveCompletions : Bool) : ExecutionScheduler Job Ctx Done Fault :=
  let s := { s with intakeClosed := true }.announceChange
  { s with joining := s.joining ++ [⟨s.workers, preserveCompletions⟩] }

/-- The threads a `shutdown` call joins have returned. -/
def joined (call : Shutdown) : Bool :=
  call.workers.all fun worker => (s.threads[worker]?).all fun
    | .returned => true
    | _ => false

/-- The second section of `shutdown`. -/
def shutdownEnd (call : Shutdown) : ExecutionScheduler Job Ctx Done Fault :=
  let s := { s with workers := [], pending := [] }
  let s := if call.preserveCompletions then s else s.dropCompletions
  { s with shutdownReturned := true }.announceChange

end ExecutionScheduler

/-- One section of the scheduler, with what its surroundings decide. -/
inductive Action (Job Ctx Done Fault : Type)
  | admitJob (job : Job) (context : Ctx) (start : Option Fault)
  | takeAdmitted (worker : ℕ)
  | finish (worker : ℕ) (result : Except Fault Done)
  | takeCompletionNowait (driver : ℕ) (ownedBy : Option (Ctx → Bool))
  | takeCompletion (driver : ℕ)
  | releaseOwned (ownedBy : Ctx → Bool)
  | cancelAll
  | expire
  | closeIntake
  | shutdownBegin (preserveCompletions : Bool)
  | shutdownEnd (call : ℕ)
  | discardCompletions

namespace ExecutionScheduler

/-- What a taking method hands to a driver goes into the history. -/
def recordTaken (driver : ℕ) (taken : Taken Ctx Done Fault) (s : ExecutionScheduler Job Ctx Done Fault) :
    ExecutionScheduler Job Ctx Done Fault :=
  match taken with
  | .ok (some completion) => s.record (.delivered driver completion)
  | _ => s

/-- A worker thread leaves its wait in `_work`: it goes into `run_blocking`, or returns. -/
def workerTakes (s : ExecutionScheduler Job Ctx Done Fault) (worker : ℕ) :
    ExecutionScheduler Job Ctx Done Fault :=
  match s.takeAdmitted with
  | (some admitted, s') =>
    { s' with threads := s.threads.set worker (.calling admitted) }
      |>.record (.called admitted.ticket admitted.job)
  | (none, s') => { s' with threads := s.threads.set worker .returned }

/-- A worker thread comes back from `run_blocking` and waits again. -/
def workerFinishes (s : ExecutionScheduler Job Ctx Done Fault) (worker : ℕ)
    (admitted : Admitted Job Ctx) (result : Except Fault Done) :
    ExecutionScheduler Job Ctx Done Fault :=
  { s.finish admitted result with threads := s.threads.set worker .waiting }

/-- The scheduler after a section; `none` where the section cannot run now: its wait still holds,
its thread is elsewhere, or (`discard_completions`) no `shutdown` call has returned yet. -/
def step : Action Job Ctx Done Fault → ExecutionScheduler Job Ctx Done Fault →
    Option (ExecutionScheduler Job Ctx Done Fault)
  | .admitJob job context start, s => some (s.admitJob job context start).2
  | .takeAdmitted worker, s =>
    match s.threads[worker]? with
    | some .waiting => if s.takeAdmittedWait then some (s.workerTakes worker) else none
    | _ => none
  | .finish worker result, s =>
    match s.threads[worker]? with
    | some (.calling admitted) => some (s.workerFinishes worker admitted result)
    | _ => none
  | .takeCompletionNowait driver ownedBy, s =>
    let (taken, s') := s.takeCompletionNowait ownedBy
    some (recordTaken driver taken s')
  | .takeCompletion driver, s =>
    if s.takeWait then
      let (taken, s') := s.takeCompletion
      some (recordTaken driver taken s')
    else none
  | .releaseOwned ownedBy, s => some (s.releaseOwned ownedBy)
  | .cancelAll, s => some s.cancelAll
  | .expire, s => some s.expire
  | .closeIntake, s => some s.closeIntake
  | .shutdownBegin preserveCompletions, s => some (s.shutdownBegin preserveCompletions)
  | .shutdownEnd call, s =>
    match s.joining[call]? with
    | some shutdown =>
      if s.joined shutdown then
        some { s.shutdownEnd shutdown with joining := s.joining.eraseIdx call }
      else none
    | none => none
  | .discardCompletions, s => if s.shutdownReturned then some s.discardCompletions else none

end ExecutionScheduler

end DrExec.Scheduling.Scheduler
