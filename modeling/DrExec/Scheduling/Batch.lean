import DrExec.Scheduling.Scheduler

/-! # A batch

`run_batch` of `scheduling/scheduler.py`: one generator drives a private scheduler over a finite
source. Its thread runs to its next call on the scheduler or to its `yield`, so worker threads and
the deadline thread of `_watch_batch_deadline` may run between any two calls. The `finally` block is
the phases from `closing` on. -/

namespace DrExec.Scheduling.Batch

open DrExec.Lib.Transition Scheduler

/-- How the generator ends: its loop returned, `SchedulerBroken` left it, or its consumer closed it.
-/
inductive BatchEnding (Fault : Type)
  | returned
  | broken (failure : Fault)
  | closed
  deriving DecidableEq, Repr

/-- Where the generator is: at the inner loop's condition, about to admit a job, about to ask
`has_residents`, in `take_completion`, at the `yield`, or before a call of its `finally` block. -/
inductive BatchPhase (Job Fault : Type)
  | intake
  | admitting (job : Job)
  | checkEnd
  | taking
  | yielded
  | closing (ending : BatchEnding Fault)
  | quiescing (ending : BatchEnding Fault)
  | shutting (ending : BatchEnding Fault)
  | joining (ending : BatchEnding Fault)
  | ended (ending : BatchEnding Fault)
  deriving DecidableEq, Repr

/-- The locals of `run_batch`, the jobs its source still has, whether the deadline thread has
neither expired the batch nor returned, and what has been pulled and yielded. -/
structure RunBatch (Job Done Fault : Type) where
  scheduler : ExecutionScheduler Job Unit Done Fault
  source : List Job
  exhausted : Bool := false
  carried : Option Job := none
  phase : BatchPhase Job Fault := .intake
  watching : Bool := false
  disarmed : Bool := false
  pulled : List Job := []
  yielded : List Done := []

inductive BatchAction (Done Fault : Type)
  | takeAdmitted (worker : ℕ)
  | finish (worker : ℕ) (result : Except Fault Done)
  | advance (start : Option Fault)
  | resume
  | close
  | expire
  | watcherReturns

variable {Job Done Fault : Type}

namespace RunBatch

/-- The head of `run_batch`; `wallTime` is whether a deadline is given. -/
def open? (capacity : ℤ) (jobs : List Job) (wallTime : Bool) : Option (RunBatch Job Done Fault) :=
  (ExecutionScheduler.init capacity).map fun scheduler =>
    { scheduler := scheduler, source := jobs, watching := wallTime }

variable (b : RunBatch Job Done Fault)

/-- The inner loop up to its call of `admit`: the carried job, or the next one of the source. -/
def pull : RunBatch Job Done Fault :=
  if !b.exhausted && b.scheduler.canAdmit then
    match b.carried, b.source with
    | some job, _ => { b with carried := none, phase := .admitting job }
    | none, job :: rest =>
      { b with source := rest, pulled := b.pulled ++ [job], phase := .admitting job }
    | none, [] => { b with exhausted := true, phase := .checkEnd }
  else { b with phase := .checkEnd }

/-- `admit` and what its result leads to. -/
def admitPulled (job : Job) (start : Option Fault) : RunBatch Job Done Fault :=
  let (result, scheduler) := b.scheduler.admitJob job () start
  let b := { b with scheduler := scheduler }
  match result with
  | .admitted => { b with phase := .intake }
  | .intakeClosed => { b with exhausted := true, phase := .checkEnd }
  | .noRoom => { b with carried := some job, phase := .checkEnd }

/-- The return between the two loops. -/
def checkEnd : RunBatch Job Done Fault :=
  if b.exhausted && b.carried.isNone && !b.scheduler.hasResidents then
    { b with phase := .closing .returned }
  else { b with phase := .taking }

/-- `take_completion` after its wait, and what it leads to. -/
def take : RunBatch Job Done Fault :=
  let (taken, scheduler) := b.scheduler.takeCompletion
  let b := { b with scheduler := ExecutionScheduler.recordTaken 0 taken scheduler }
  match taken with
  | .error failure => { b with phase := .closing (.broken failure) }
  | .ok none => { b with phase := .closing .returned }
  | .ok (some completion) =>
    { b with yielded := b.yielded ++ [completion.completedExecution], phase := .yielded }

/-- The generator's thread runs to its next call or its `yield`; `none` where it waits. -/
def advance (start : Option Fault) : Option (RunBatch Job Done Fault) :=
  match b.phase with
  | .intake => some b.pull
  | .admitting job => some (b.admitPulled job start)
  | .checkEnd => some b.checkEnd
  | .taking => if b.scheduler.takeWait then some b.take else none
  | .yielded => none
  | .closing ending =>
    some { b with scheduler := b.scheduler.closeIntake, phase := .quiescing ending }
  | .quiescing ending =>
    if b.scheduler.quiescent then some { b with disarmed := true, phase := .shutting ending }
    else none
  | .shutting ending =>
    some { b with scheduler := b.scheduler.shutdownBegin false, phase := .joining ending }
  | .joining ending =>
    (ExecutionScheduler.step (.shutdownEnd 0) b.scheduler).map fun scheduler =>
      { b with scheduler := scheduler, phase := .ended ending }
  | .ended _ => none

/-- The batch after a step; `none` where the step cannot happen now. -/
def step : BatchAction Done Fault → RunBatch Job Done Fault → Option (RunBatch Job Done Fault)
  | .takeAdmitted worker, b =>
    (ExecutionScheduler.step (.takeAdmitted worker) b.scheduler).map fun scheduler =>
      { b with scheduler := scheduler }
  | .finish worker result, b =>
    (ExecutionScheduler.step (.finish worker result) b.scheduler).map fun scheduler =>
      { b with scheduler := scheduler }
  | .advance start, b => b.advance start
  | .resume, b =>
    match b.phase with
    | .yielded => some { b with phase := .intake }
    | _ => none
  | .close, b =>
    match b.phase with
    | .yielded => some { b with phase := .closing .closed }
    | _ => none
  | .expire, b =>
    if b.watching then some { b with scheduler := b.scheduler.expire, watching := false } else none
  | .watcherReturns, b =>
    if b.watching && b.disarmed then some { b with watching := false } else none

end RunBatch

end DrExec.Scheduling.Batch
