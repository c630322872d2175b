import DrExec.Execution.InProcess
import DrExec.Lib.Transition

/-! # Awaiting an attempt in process

`ImportableJsonExecutor.run` over `offload_blocking_daemon` of `scheduling/offload.py`: the attempt
runs on a daemon thread, which posts what it gives to the event loop, and the coroutine awaits it.
A coroutine that is cancelled there does not wait for the thread: it cancels the token, asks the
handoff slot for the facts of the attempt, and completes with them, or with facts of its own where
the slot is empty. The thread, the loop, the coroutine and whoever holds the token take turns in any
order. Because the token is cancelled before the slot is read, an attempt whose facts are not in the
completion runs no code of its payload, then or later (`awaited_ends`). -/

namespace DrExec.Execution.InProcessAsync

open DrExec.Core.Model DrExec.Lib.Transition DrExec.Recording.Models DrExec.Recording.Outcomes
open DrExec.Runtime.Wire DrExec.Execution.InProcess

/-! ### The system -/

/-- What a call of `_attempt_job` gives. -/
abbrev Result (C : Codec) := Except Raised (CompletedExecution C)

/-- How `run` ends. -/
inductive Ending (C : Codec)
  /-- with the `CancelledError` of a task that was cancelled before its first step -/
  | neverRun
  /-- with what `Thread.start` raised -/
  | unstarted (error : Raised)
  /-- with what was delivered -/
  | delivered (result : Result C)
  /-- with a completion of these facts; `fresh` says that they are of `_interrupted_attempt` -/
  | interrupted (execution : JobExecution) (fresh : Bool) (finish : Finish execution)
  /-- with the `ValidationError` of that completion -/
  | uncompleted (execution : JobExecution) (fresh : Bool) (finish : Finish execution)
  /-- with what `_interrupted_attempt` raised -/
  | unstamped (error : Raised)

/-- The coroutine of `run`: not started, at its `await`, and in the handler of an interrupt before
each of its three steps. -/
inductive Awaiter (C : Codec)
  | created
  | waiting
  | cancelling
  | reading
  | completing (execution : JobExecution) (fresh : Bool)
  | ended (ending : Ending C)

/-- The daemon thread: `_attempt_job` before and after it hands its facts over, behind the look at
the stop that lets the payload be imported and called or does not, and past the call. -/
inductive Daemon (C : Codec)
  | absent
  | stamping
  | stamped
  | stopped
  | dispatched
  | called (result : Result C)
  | exited

inductive Future (C : Codec)
  | pending
  | done (result : Result C)
  | cancelled

/-- The state, with what `Thread.start` raised, whether a cancellation of the task was asked for before
`run` ended, whether the payload was dispatched, and what the call gave. -/
structure State (C : Codec) where
  awaiter : Awaiter C := .created
  mustCancel : Bool := false
  future : Future C := .pending
  posted : Option (Result C) := none
  token : Bool := false
  handoff : Option JobExecution := none
  daemon : Daemon C := .absent
  startRaised : Option Raised := none
  requested : Bool := false
  ran : Bool := false
  gave : Option (Result C) := none

/-- Who moves: whoever cancels the task or the token, the loop that runs the coroutine or a posted
callback, and the thread. -/
inductive Action (C : Codec)
  | cancelTask
  | cancelToken
  | start (failure : Option Raised) (begun : Bool)
  | resume
  | cancel
  | read (own : Except Raised JobExecution)
  | complete (finish : (execution : JobExecution) → Finish execution)
  | deliver
  | reject (error : Raised)
  | stamp (execution : JobExecution)
  | arm (error : Raised)
  | look (expired : Bool)
  | finish (result : Result C)
  | post (closed : Bool)

section Step

-- `held` is what `Future.set_exception` holds: asyncio replaces a `StopIteration`
variable {C : Codec} (isCancelledError : Raised → Bool) (held : Raised → Raised)

/-- `except (KeyboardInterrupt, asyncio.CancelledError)` -/
def interrupts (error : Raised) : Bool := error.isKeyboardInterrupt || isCancelledError error

/-- The loop runs the handler in one step of the task, and nothing else meanwhile. -/
def Awaiter.inHandler : Awaiter C → Bool
  | .cancelling | .reading | .completing _ _ => true
  | _ => false

/-- `Task.cancel`: the future that is awaited is cancelled, or else the next step of the task. -/
def cancelTask (s : State C) : Option (State C) :=
  match s.awaiter, s.future with
  | .created, _ => some { s with mustCancel := true, requested := true }
  | .waiting, .pending => some { s with future := .cancelled, requested := true }
  | .waiting, _ => some { s with mustCancel := true, requested := true }
  | .ended _, _ => some s
  | _, _ => none

/-- `_deliver_result` or `_deliver_exception`, the callback that the thread has posted. -/
def deliver (s : State C) : Option (State C) :=
  if s.awaiter.inHandler then none
  else
    match s.posted, s.future with
    | some result, .pending =>
      some { s with posted := none, future := .done (result.mapError held) }
    | some _, _ => some { s with posted := none }
    | none, _ => none

/-- The next step of the task, with what its future holds. -/
def resume (s : State C) : Option (State C) :=
  match s.awaiter, s.future with
  | .waiting, .pending => none
  | .waiting, .cancelled => some { s with awaiter := .cancelling, mustCancel := false }
  | .waiting, .done result =>
    if s.mustCancel then some { s with awaiter := .cancelling, mustCancel := false }
    else
      match result with
      | .ok _ => some { s with awaiter := .ended (.delivered result) }
      | .error error =>
        if interrupts isCancelledError error then some { s with awaiter := .cancelling }
        else some { s with awaiter := .ended (.delivered result) }
  | _, _ => none

/-- The first step of the task: a thread is started, and its future is awaited. `Thread.start` waits
until the thread has begun, and an interrupt may end that wait with the thread begun or not. -/
def start (failure : Option Raised) (begun : Bool) (s : State C) : Option (State C) :=
  match s.awaiter with
  | .created =>
    if s.mustCancel then some { s with awaiter := .ended .neverRun, mustCancel := false }
    else
      match failure with
      | some error =>
        some { s with
          awaiter := if interrupts isCancelledError error then .cancelling
            else .ended (.unstarted error)
          daemon := if begun then .stamping else s.daemon
          startRaised := some error }
      | none => some { s with awaiter := .waiting, daemon := .stamping }
  | _ => none

/-- `handoff.execution`, and `_interrupted_attempt` where there is none. -/
def read (own : Except Raised JobExecution) (s : State C) : Option (State C) :=
  match s.awaiter with
  | .reading =>
    match s.handoff, own with
    | some execution, _ => some { s with awaiter := .completing execution false }
    | none, .ok execution => some { s with awaiter := .completing execution true }
    | none, .error error => some { s with awaiter := .ended (.unstamped error) }
  | _ => none

/-- The completion of these facts, or the error of it where the wall clock stepped back. -/
def closing (execution : JobExecution) (fresh : Bool) (finish : Finish execution) : Ending C :=
  if finish.steady then .interrupted execution fresh finish
  else .uncompleted execution fresh finish

/-- One step of the system. -/
def step : Action C → State C → Option (State C)
  | .cancelTask, s => cancelTask s
  | .cancelToken, s => some { s with token := true }
  | .start failure begun, s => start isCancelledError failure begun s
  | .resume, s => resume isCancelledError s
  | .cancel, s =>
    match s.awaiter with
    | .cancelling => some { s with awaiter := .reading, token := true }
    | _ => none
  | .read own, s => read own s
  | .complete finish, s =>
    match s.awaiter with
    | .completing execution fresh =>
      some { s with awaiter := .ended (closing execution fresh (finish execution)) }
    | _ => none
  | .deliver, s => deliver held s
  | .reject error, s =>
    match s.daemon with
    | .stamping => some { s with daemon := .called (.error error), gave := some (.error error) }
    | _ => none
  | .stamp execution, s =>
    match s.daemon with
    | .stamping => some { s with daemon := .stamped, handoff := some execution }
    | _ => none
  | .arm error, s =>
    match s.daemon with
    | .stamped => some { s with daemon := .called (.error error), gave := some (.error error) }
    | _ => none
  | .look expired, s =>
    match s.daemon with
    | .stamped =>
      if s.token || expired then some { s with daemon := .stopped }
      else some { s with daemon := .dispatched, ran := true }
    | _ => none
  | .finish result, s =>
    match s.daemon with
    | .stopped | .dispatched => some { s with daemon := .called result, gave := some result }
    | _ => none
  | .post closed, s =>
    match s.daemon with
    | .called result =>
      some { s with daemon := .exited, posted := if closed then s.posted else some result }
    | _ => none

end Step

/-! ### What holds in every run -/

variable {C : Codec} {isCancelledError : Raised → Bool} {held : Raised → Raised} {s t u : State C}

/-- The thread has not handed its facts over. -/
def Daemon.early : Daemon C → Bool
  | .absent | .stamping => true
  | _ => false

/-- The call has given nothing. -/
def Daemon.running : Daemon C → Bool
  | .called _ | .exited => false
  | _ => true

/-- What the thread has handed over and given, and where it went. -/
structure Given (held : Raised → Raised) (s : State C) : Prop where
  early : s.daemon.early = true → s.handoff = none
  stamped : s.daemon = .stamped → s.handoff.isSome = true
  ran : s.ran = true → s.handoff.isSome = true
  running : s.daemon.running = true → s.gave = none
  called : ∀ r, s.daemon = .called r → s.gave = some r
  posted : ∀ r, s.posted = some r → s.gave = some r
  done : ∀ r, s.future = .done r → ∃ given, s.gave = some given ∧ given.mapError held = r

section Awaits

variable (isCancelledError held)

/-- Why the handler is entered: a cancellation, or an interrupt that `Thread.start` raised or that the
call gave. -/
def Cause (s : State C) : Prop :=
  s.requested = true ∨ ∃ error, interrupts isCancelledError error = true ∧
    (s.startRaised = some error ∨ ∃ given, s.gave = some (.error given) ∧ held given = error)

/-- The facts of a completion are those of the attempt, or no payload is run. -/
def Owns (s : State C) (execution : JobExecution) (fresh : Bool) : Prop :=
  s.token = true ∧ if fresh then s.ran = false else s.handoff = some execution

/-- What an ending tells. -/
def Ended (s : State C) : Ending C → Prop
  | .neverRun => s.requested = true ∧ s.daemon = .absent
  | .unstarted error => s.requested = false ∧ s.startRaised = some error
  | .delivered result =>
    s.requested = false ∧ ∃ given, s.gave = some given ∧ given.mapError held = result
  | .interrupted execution fresh finish =>
    finish.steady = true ∧ Cause isCancelledError held s ∧ Owns s execution fresh
  | .uncompleted execution fresh finish =>
    finish.steady = false ∧ Cause isCancelledError held s ∧ Owns s execution fresh
  | .unstamped _ => Cause isCancelledError held s ∧ s.token = true ∧ s.ran = false

/-- What holds at each place of the coroutine. -/
def Awaits (s : State C) : Awaiter C → Prop
  | .created => s.daemon = .absent ∧ s.future = .pending ∧ s.mustCancel = s.requested
  | .waiting => (s.requested = true ↔ s.mustCancel = true ∨ s.future = .cancelled) ∧
      (s.mustCancel = true → s.future ≠ .pending)
  | .cancelling => Cause isCancelledError held s
  | .reading => Cause isCancelledError held s ∧ s.token = true
  | .completing execution fresh => Cause isCancelledError held s ∧ Owns s execution fresh
  | .ended ending => Ended isCancelledError held s ending

end Awaits

/-! ### The thread -/

/-- A step of the thread. -/
inductive Works (s : State C) : State C → Prop
  | rejected (error : Raised) : s.daemon = .stamping →
      Works s { s with daemon := .called (.error error), gave := some (.error error) }
  | stamped (execution : JobExecution) : s.daemon = .stamping →
      Works s { s with daemon := .stamped, handoff := some execution }
  | unarmed (error : Raised) : s.daemon = .stamped →
      Works s { s with daemon := .called (.error error), gave := some (.error error) }
  | stopped : s.daemon = .stamped → Works s { s with daemon := .stopped }
  | dispatched : s.daemon = .stamped → s.token = false →
      Works s { s with daemon := .dispatched, ran := true }
  | finished (result : Result C) : s.daemon = .stopped ∨ s.daemon = .dispatched →
      Works s { s with daemon := .called result, gave := some result }
  | posted (result : Result C) : s.daemon = .called result →
      Works s { s with daemon := .exited, posted := some result }
  | dropped (result : Result C) : s.daemon = .called result → Works s { s with daemon := .exited }

/-- A step of the loop, of the coroutine or of whoever cancels: it leaves the thread alone but for
starting it. -/
structure Loops (held : Raised → Raised) (s t : State C) : Prop where
  handoff : t.handoff = s.handoff
  ran : t.ran = s.ran
  gave : t.gave = s.gave
  daemon : t.daemon = s.daemon ∨ s.daemon = .absent ∧ t.daemon = .stamping
  posted : ∀ r, t.posted = some r → s.posted = some r
  done : ∀ r, t.future = .done r →
    s.future = .done r ∨ ∃ given, s.posted = some given ∧ given.mapError held = r

theorem loops_cancelTask (h : cancelTask s = some t) : Loops held s t := by
  unfold cancelTask at h
  split at h
  · cases h
    exact ⟨rfl, rfl, rfl, .inl rfl, fun _ h => h, fun _ h => .inl h⟩
  · cases h
    exact ⟨rfl, rfl, rfl, .inl rfl, fun _ h => h, fun _ h => (nomatch h)⟩
  · cases h
    exact ⟨rfl, rfl, rfl, .inl rfl, fun _ h => h, fun _ h => .inl h⟩
  · cases h
    exact ⟨rfl, rfl, rfl, .inl rfl, fun _ h => h, fun _ h => .inl h⟩
  · cases h

theorem loops_start {failure : Option Raised} {begun : Bool}
    (hcreated : s.awaiter = .created → s.daemon = .absent)
    (h : start isCancelledError failure begun s = some t) : Loops held s t := by
  unfold start at h
  split at h
  next hawaiter =>
    by_cases hcancel : s.mustCancel = true
    · rw [if_pos hcancel] at h
      cases h
      exact ⟨rfl, rfl, rfl, .inl rfl, fun _ h => h, fun _ h => .inl h⟩
    · rw [if_neg hcancel] at h
      cases failure with
      | some error =>
        cases h
        refine ⟨rfl, rfl, rfl, ?_, fun _ h => h, fun _ h => .inl h⟩
        cases begun with
        | true => exact .inr ⟨hcreated hawaiter, rfl⟩
        | false => exact .inl rfl
      | none =>
        cases h
        exact ⟨rfl, rfl, rfl, .inr ⟨hcreated hawaiter, rfl⟩, fun _ h => h, fun _ h => .inl h⟩
  · cases h

theorem loops_resume (h : resume isCancelledError s = some t) : Loops held s t := by
  unfold resume at h
  split at h
  · cases h
  · cases h
    exact ⟨rfl, rfl, rfl, .inl rfl, fun _ h => h, fun _ h => .inl h⟩
  · split_ifs at h
    · cases h
      exact ⟨rfl, rfl, rfl, .inl rfl, fun _ h => h, fun _ h => .inl h⟩
    · split at h
      · cases h
        exact ⟨rfl, rfl, rfl, .inl rfl, fun _ h => h, fun _ h => .inl h⟩
      · split_ifs at h <;> cases h <;>
          exact ⟨rfl, rfl, rfl, .inl rfl, fun _ h => h, fun _ h => .inl h⟩
  · cases h

theorem loops_read {own : Except Raised JobExecution} (h : read own s = some t) :
    Loops held s t := by
  unfold read at h
  split at h
  · split at h <;> cases h <;>
      exact ⟨rfl, rfl, rfl, .inl rfl, fun _ h => h, fun _ h => .inl h⟩
  · cases h

theorem loops_deliver (h : deliver held s = some t) : Loops held s t := by
  unfold deliver at h
  split_ifs at h
  split at h
  next result hposted hfuture =>
    cases h
    refine ⟨rfl, rfl, rfl, .inl rfl, fun _ h => (nomatch h), fun r hr => .inr ?_⟩
    exact ⟨result, hposted, Future.done.inj hr⟩
  next hposted _ =>
    cases h
    exact ⟨rfl, rfl, rfl, .inl rfl, fun _ h => (nomatch h), fun _ h => .inl h⟩
  · cases h

/-- The thread's own actions. -/
def Action.ofThread : Action C → Bool
  | .reject _ | .stamp _ | .arm _ | .look _ | .finish _ | .post _ => true
  | _ => false

theorem loops_of_step {a : Action C} (ha : a.ofThread = false)
    (hcreated : s.awaiter = .created → s.daemon = .absent)
    (h : step isCancelledError held a s = some t) : Loops held s t := by
  cases a with
  | cancelTask => exact loops_cancelTask h
  | cancelToken =>
    cases h
    exact ⟨rfl, rfl, rfl, .inl rfl, fun _ h => h, fun _ h => .inl h⟩
  | start failure begun => exact loops_start hcreated h
  | resume => exact loops_resume h
  | read own => exact loops_read h
  | deliver => exact loops_deliver h
  | cancel | complete finish =>
    simp only [step] at h
    split at h <;> cases h
    exact ⟨rfl, rfl, rfl, .inl rfl, fun _ h => h, fun _ h => .inl h⟩
  | reject | stamp | arm | look | finish | post => cases ha

theorem works_of_step {a : Action C} (ha : a.ofThread = true)
    (h : step isCancelledError held a s = some t) : Works s t := by
  cases a with
  | cancelTask | cancelToken | start | resume | read | deliver | cancel | complete => cases ha
  | reject error =>
    simp only [step] at h
    split at h <;> cases h
    next hdaemon => exact .rejected error hdaemon
  | stamp execution =>
    simp only [step] at h
    split at h <;> cases h
    next hdaemon => exact .stamped execution hdaemon
  | arm error =>
    simp only [step] at h
    split at h <;> cases h
    next hdaemon => exact .unarmed error hdaemon
  | look expired =>
    simp only [step] at h
    split at h
    next hdaemon =>
      split_ifs at h with hstop <;> cases h
      · exact .stopped hdaemon
      · exact .dispatched hdaemon (by simp_all)
    · cases h
  | finish result =>
    simp only [step] at h
    split at h <;> cases h
    next hdaemon => exact .finished result (.inl hdaemon)
    next hdaemon => exact .finished result (.inr hdaemon)
  | post closed =>
    simp only [step] at h
    split at h <;> cases h
    next result hdaemon =>
      cases closed with
      | false => exact .posted result hdaemon
      | true => exact .dropped result hdaemon

/-- The thread is past its call, and has handed over what it handed over. -/
theorem Given.past (hs : Given held s) {daemon : Daemon C} {result : Result C}
    (hrunning : s.daemon.running = true) (hdaemon : daemon = .called result) :
    Given held { s with daemon, gave := some result } := by
  subst hdaemon
  have hnothing := hs.running hrunning
  refine ⟨fun h => (nomatch h), fun h => (nomatch h), hs.ran, fun h => (nomatch h), ?_, ?_, ?_⟩
  · intro r h
    exact congrArg some (Daemon.called.inj h)
  · intro r h
    cases hnothing.symm.trans (hs.posted r h)
  · intro r h
    obtain ⟨given, hgave, -⟩ := hs.done r h
    cases hnothing.symm.trans hgave

theorem Given.works (hs : Given held s) (h : Works s t) : Given held t := by
  cases h with
  | rejected error hdaemon | unarmed error hdaemon =>
    exact hs.past (by rw [hdaemon]; rfl) rfl
  | finished result hdaemon =>
    exact hs.past (by rcases hdaemon with h | h <;> rw [h] <;> rfl) rfl
  | stamped execution hdaemon =>
    exact ⟨fun h => (nomatch h), fun _ => rfl, fun _ => rfl,
      fun _ => hs.running (by rw [hdaemon]; rfl), fun _ h => (nomatch h), hs.posted, hs.done⟩
  | stopped hdaemon =>
    exact ⟨fun h => (nomatch h), fun h => (nomatch h), hs.ran,
      fun _ => hs.running (by rw [hdaemon]; rfl), fun _ h => (nomatch h), hs.posted, hs.done⟩
  | dispatched hdaemon _ =>
    exact ⟨fun h => (nomatch h), fun h => (nomatch h), fun _ => hs.stamped hdaemon,
      fun _ => hs.running (by rw [hdaemon]; rfl), fun _ h => (nomatch h), hs.posted, hs.done⟩
  | posted result hdaemon =>
    refine ⟨fun h => (nomatch h), fun h => (nomatch h), hs.ran, fun h => (nomatch h),
      fun _ h => (nomatch h), fun r h => ?_, hs.done⟩
    obtain rfl := Option.some.inj h
    exact hs.called _ hdaemon
  | dropped result hdaemon =>
    exact ⟨fun h => (nomatch h), fun h => (nomatch h), hs.ran, fun h => (nomatch h),
      fun _ h => (nomatch h), hs.posted, hs.done⟩

theorem Given.loops (hs : Given held s) (h : Loops held s t) : Given held t := by
  obtain ⟨hearly, hstamped, hran, hrunning, hover, hposted, hdone⟩ := hs
  obtain ⟨hhandoff, hran', hgave, hdaemon, hposted', hdone'⟩ := h
  have hgiven : ∀ r, t.future = .done r → ∃ given, t.gave = some given ∧ given.mapError held = r := by
    intro r hr
    rw [hgave]
    rcases hdone' r hr with hbefore | ⟨given, hwaits, hheld⟩
    · exact hdone r hbefore
    · exact ⟨given, hposted given hwaits, hheld⟩
  have hpost : ∀ r, t.posted = some r → t.gave = some r := fun r hr =>
    hgave ▸ hposted r (hposted' r hr)
  rcases hdaemon with hsame | ⟨habsent, hstamping⟩
  · refine ⟨?_, ?_, ?_, ?_, ?_, hpost, hgiven⟩ <;> simp only [hsame, hhandoff, hran', hgave]
    · exact hearly
    · exact hstamped
    · exact hran
    · exact hrunning
    · exact hover
  · have hnone := hearly (by rw [habsent]; rfl)
    have hnothing := hrunning (by rw [habsent]; rfl)
    refine ⟨fun _ => hhandoff.trans hnone, fun h => ?_, ?_, fun _ => hgave.trans hnothing,
      fun r h => ?_, hpost, hgiven⟩
    · cases hstamping.symm.trans h
    · rw [hran', hhandoff]
      exact hran
    · cases hstamping.symm.trans h

/-! ### The coroutine -/

/-- What no step takes back. -/
structure Onward (s t : State C) : Prop where
  token : s.token = true → t.token = true
  ran : s.token = true → s.ran = false → t.ran = false
  handoff : ∀ execution, s.handoff = some execution → t.handoff = some execution
  gave : ∀ result, s.gave = some result → t.gave = some result
  startRaised : t.startRaised = s.startRaised
  requested : s.requested = true → t.requested = true

theorem Cause.onward (h : Cause isCancelledError held s) (ho : Onward s t) :
    Cause isCancelledError held t := by
  refine h.imp ho.requested fun ⟨error, herror, hraised⟩ => ⟨error, herror, ?_⟩
  rw [ho.startRaised]
  exact hraised.imp_right fun ⟨given, hgave, hheld⟩ => ⟨given, ho.gave _ hgave, hheld⟩

theorem Owns.onward {execution : JobExecution} {fresh : Bool} (h : Owns s execution fresh)
    (ho : Onward s t) : Owns t execution fresh := by
  obtain ⟨htoken, hfacts⟩ := h
  refine ⟨ho.token htoken, ?_⟩
  cases fresh with
  | true => exact ho.ran htoken hfacts
  | false => exact ho.handoff _ hfacts

theorem Ended.onward {ending : Ending C} (h : Ended isCancelledError held s ending)
    (ho : Onward s t) (hrequested : t.requested = s.requested)
    (habsent : s.daemon = .absent → t.daemon = .absent) : Ended isCancelledError held t ending := by
  cases ending with
  | neverRun => exact ⟨hrequested.trans h.1, habsent h.2⟩
  | unstarted error => exact ⟨hrequested.trans h.1, ho.startRaised.trans h.2⟩
  | delivered result =>
    obtain ⟨hunrequested, given, hgave, hheld⟩ := h
    exact ⟨hrequested.trans hunrequested, given, ho.gave _ hgave, hheld⟩
  | interrupted execution fresh finish | uncompleted execution fresh finish =>
    exact ⟨h.1, Cause.onward h.2.1 ho, Owns.onward h.2.2 ho⟩
  | unstamped error => exact ⟨Cause.onward h.1 ho, ho.token h.2.1, ho.ran h.2.1 h.2.2⟩

/-- What the thread leaves alone, and that it runs. -/
structure Beside (s t : State C) : Prop extends Onward s t where
  awaiter : t.awaiter = s.awaiter
  mustCancel : t.mustCancel = s.mustCancel
  future : t.future = s.future
  unrequested : t.requested = s.requested
  started : s.daemon ≠ .absent

theorem Works.beside (hs : Given held s) (h : Works s t) : Beside s t := by
  have hpast : ∀ {daemon : Daemon C} {result : Result C}, s.daemon.running = true →
      s.daemon ≠ .absent → Beside s { s with daemon, gave := some result } := by
    intro daemon result hrunning hstarted
    refine ⟨⟨id, fun _ h => h, fun _ h => h, fun r h => ?_, rfl, id⟩, rfl, rfl, rfl, rfl, hstarted⟩
    cases (hs.running hrunning).symm.trans h
  cases h with
  | rejected error hdaemon | unarmed error hdaemon =>
    exact hpast (by rw [hdaemon]; rfl) (by rw [hdaemon]; simp)
  | finished result hdaemon =>
    rcases hdaemon with hdaemon | hdaemon <;>
      exact hpast (by rw [hdaemon]; rfl) (by rw [hdaemon]; simp)
  | stamped execution hdaemon =>
    refine ⟨⟨id, fun _ h => h, fun f h => ?_, fun _ h => h, rfl, id⟩, rfl, rfl, rfl, rfl, ?_⟩
    · cases (hs.early (by rw [hdaemon]; rfl)).symm.trans h
    · rw [hdaemon]
      simp
  | dispatched hdaemon htoken =>
    refine ⟨⟨id, fun h => ?_, fun _ h => h, fun _ h => h, rfl, id⟩, rfl, rfl, rfl, rfl, ?_⟩
    · cases htoken.symm.trans h
    · rw [hdaemon]
      simp
  | stopped hdaemon | posted result hdaemon | dropped result hdaemon =>
    refine ⟨⟨id, fun _ h => h, fun _ h => h, fun _ h => h, rfl, id⟩, rfl, rfl, rfl, rfl, ?_⟩
    rw [hdaemon]
    simp

theorem Awaits.beside (h : Awaits isCancelledError held s s.awaiter) (hb : Beside s t) :
    Awaits isCancelledError held t t.awaiter := by
  rw [hb.awaiter]
  generalize s.awaiter = awaiter at h
  cases awaiter with
  | created => exact absurd h.1 hb.started
  | waiting =>
    rw [Awaits, hb.unrequested, hb.mustCancel, hb.future]
    exact h
  | cancelling => exact Cause.onward h hb.toOnward
  | reading => exact ⟨Cause.onward h.1 hb.toOnward, hb.token h.2⟩
  | completing execution fresh => exact ⟨Cause.onward h.1 hb.toOnward, Owns.onward h.2 hb.toOnward⟩
  | ended ending =>
    exact Ended.onward h hb.toOnward hb.unrequested fun habsent => absurd habsent hb.started

/-- What holds where the coroutine is, whatever else does not change. -/
theorem Awaits.congr {awaiter : Awaiter C} (h : Awaits isCancelledError held s awaiter)
    (ho : Onward s t) (hrequested : t.requested = s.requested)
    (habsent : s.daemon = .absent → t.daemon = .absent) (hmustCancel : t.mustCancel = s.mustCancel)
    (hpending : awaiter = .created → s.future = .pending → t.future = .pending)
    (hcancelled : t.future = .cancelled ↔ s.future = .cancelled)
    (hsettled : s.future ≠ .pending → t.future ≠ .pending) :
    Awaits isCancelledError held t awaiter := by
  cases awaiter with
  | created => exact ⟨habsent h.1, hpending rfl h.2.1, by rw [hmustCancel, hrequested]; exact h.2.2⟩
  | waiting =>
    rw [Awaits, hrequested, hmustCancel, hcancelled]
    exact ⟨h.1, fun hmust => hsettled (h.2 hmust)⟩
  | cancelling => exact Cause.onward h ho
  | reading => exact ⟨Cause.onward h.1 ho, ho.token h.2⟩
  | completing execution fresh => exact ⟨Cause.onward h.1 ho, Owns.onward h.2 ho⟩
  | ended ending => exact Ended.onward h ho hrequested habsent

theorem awaits_cancelTask (hs : Awaits isCancelledError held s s.awaiter)
    (h : cancelTask s = some t) : Awaits isCancelledError held t t.awaiter := by
  unfold cancelTask at h
  split at h
  next hawaiter =>
    cases h
    rw [hawaiter] at hs
    change Awaits _ _ _ s.awaiter
    rw [hawaiter]
    exact ⟨hs.1, hs.2.1, rfl⟩
  next hawaiter _ =>
    cases h
    change Awaits _ _ _ s.awaiter
    rw [hawaiter]
    exact ⟨iff_of_true rfl (.inr rfl), fun _ h => (nomatch h)⟩
  next hawaiter hpending =>
    cases h
    change Awaits _ _ _ s.awaiter
    rw [hawaiter]
    exact ⟨iff_of_true rfl (.inl rfl), fun _ h => hpending h⟩
  · cases h
    exact hs
  · cases h

theorem awaits_start {failure : Option Raised} {begun : Bool}
    (hs : Awaits isCancelledError held s s.awaiter)
    (h : start isCancelledError failure begun s = some t) :
    Awaits isCancelledError held t t.awaiter := by
  unfold start at h
  split at h
  next hawaiter =>
    rw [hawaiter] at hs
    obtain ⟨habsent, hpending, hrequested⟩ := hs
    by_cases hcancel : s.mustCancel = true
    · rw [if_pos hcancel] at h
      cases h
      exact ⟨hrequested.symm.trans hcancel, habsent⟩
    · rw [if_neg hcancel] at h
      rw [Bool.not_eq_true] at hcancel
      cases failure with
      | some error =>
        cases h
        dsimp only
        by_cases hinterrupts : interrupts isCancelledError error = true
        · rw [if_pos hinterrupts]
          exact .inr ⟨error, hinterrupts, .inl rfl⟩
        · rw [if_neg hinterrupts]
          exact ⟨hrequested.symm.trans hcancel, rfl⟩
      | none =>
        cases h
        change (s.requested = true ↔ s.mustCancel = true ∨ s.future = .cancelled) ∧
          (s.mustCancel = true → s.future ≠ .pending)
        rw [← hrequested, hcancel, hpending]
        simp
  · cases h

theorem awaits_resume (hg : Given held s) (hs : Awaits isCancelledError held s s.awaiter)
    (h : resume isCancelledError s = some t) : Awaits isCancelledError held t t.awaiter := by
  unfold resume at h
  split at h
  · cases h
  next hawaiter hfuture =>
    cases h
    rw [hawaiter] at hs
    exact .inl (hs.1.mpr (.inr hfuture))
  next result hawaiter hfuture =>
    rw [hawaiter] at hs
    obtain ⟨given, hgave, hheld⟩ := hg.done result hfuture
    split_ifs at h with hcancel
    · cases h
      exact .inl (hs.1.mpr (.inl hcancel))
    have hunrequested : s.requested = false := by
      rw [Bool.eq_false_iff]
      intro hrequested
      rcases hs.1.mp hrequested with hmust | hcancelled
      · exact hcancel hmust
      · cases hfuture.symm.trans hcancelled
    split at h
    · cases h
      exact ⟨hunrequested, given, hgave, hheld⟩
    next error =>
      split_ifs at h with herror <;> cases h
      · rcases given with raised | completed
        · exact .inr ⟨error, herror, .inr ⟨raised, hgave, Except.error.inj hheld⟩⟩
        · cases hheld
      · exact ⟨hunrequested, given, hgave, hheld⟩
  · cases h

theorem awaits_read {own : Except Raised JobExecution} (hg : Given held s)
    (hs : Awaits isCancelledError held s s.awaiter) (h : read own s = some t) :
    Awaits isCancelledError held t t.awaiter := by
  unfold read at h
  split at h
  next hawaiter =>
    rw [hawaiter] at hs
    obtain ⟨hcause, htoken⟩ := hs
    -- with the slot empty, the payload was not dispatched
    have hidle : s.handoff = none → s.ran = false := by
      intro hnone
      rw [Bool.eq_false_iff]
      intro hran
      have hsome := hg.ran hran
      rw [hnone] at hsome
      cases hsome
    split at h <;> cases h
    next hhandoff => exact ⟨hcause, htoken, hhandoff⟩
    next hhandoff => exact ⟨hcause, htoken, hidle hhandoff⟩
    next hhandoff => exact ⟨hcause, htoken, hidle hhandoff⟩
  · cases h

theorem awaits_deliver (hg : Given held s) (hs : Awaits isCancelledError held s s.awaiter)
    (h : deliver held s = some t) : Awaits isCancelledError held t t.awaiter := by
  have hcreated : s.awaiter = .created → s.posted = none := by
    intro hawaiter
    rw [hawaiter] at hs
    refine Option.eq_none_iff_forall_ne_some.mpr fun result hposted => ?_
    cases (hg.running (by rw [hs.1]; rfl)).symm.trans (hg.posted result hposted)
  have honward : ∀ (posted : Option (Result C)) (future : Future C),
      Onward s { s with posted, future } :=
    fun _ _ => ⟨id, fun _ h => h, fun _ h => h, fun _ h => h, rfl, id⟩
  unfold deliver at h
  split_ifs at h
  split at h
  next result hposted hfuture =>
    cases h
    refine Awaits.congr hs (honward _ _) rfl id rfl (fun hawaiter _ => ?_) ?_ ?_
    · cases (hcreated hawaiter).symm.trans hposted
    · rw [hfuture]
      simp
    · exact fun h => absurd hfuture h
  next hposted _ =>
    cases h
    exact Awaits.congr hs (honward _ _) rfl id rfl (fun _ h => h) Iff.rfl id
  · cases h

/-- **One step** keeps what holds of the thread and of the coroutine. -/
theorem holds_step {a : Action C} (hg : Given held s)
    (hs : Awaits isCancelledError held s s.awaiter) (h : step isCancelledError held a s = some t) :
    Given held t ∧ Awaits isCancelledError held t t.awaiter := by
  have hcreated : s.awaiter = .created → s.daemon = .absent := by
    intro hawaiter
    rw [hawaiter] at hs
    exact hs.1
  rcases ha : a.ofThread with _ | _
  swap
  · have hworks := works_of_step ha h
    exact ⟨hg.works hworks, hs.beside (hworks.beside hg)⟩
  refine ⟨hg.loops (loops_of_step ha hcreated h), ?_⟩
  cases a with
  | cancelTask => exact awaits_cancelTask hs h
  | cancelToken =>
    cases h
    exact Awaits.congr hs ⟨fun _ => rfl, fun _ h => h, fun _ h => h, fun _ h => h, rfl, id⟩ rfl id rfl
      (fun _ h => h) Iff.rfl id
  | start failure begun => exact awaits_start hs h
  | resume => exact awaits_resume hg hs h
  | read own => exact awaits_read hg hs h
  | deliver => exact awaits_deliver hg hs h
  | cancel =>
    simp only [step] at h
    split at h <;> cases h
    next hawaiter =>
      rw [hawaiter] at hs
      exact ⟨hs, rfl⟩
  | complete finish =>
    simp only [step] at h
    split at h <;> cases h
    next execution fresh hawaiter =>
      rw [hawaiter] at hs
      dsimp only [Awaits, closing]
      rcases hsteady : (finish execution).steady with _ | _
      · exact ⟨hsteady, hs⟩
      · exact ⟨hsteady, hs⟩
  | reject | stamp | arm | look | finish | post => cases ha

/-- **In every run.** -/
theorem holds_of_reachable (h : Reachable (step isCancelledError held) ({} : State C) t) :
    Given held t ∧ Awaits isCancelledError held t t.awaiter := by
  refine h.invariant ⟨?_, rfl, rfl, rfl⟩ fun u a v _ hu _ hstep => holds_step hu.1 hu.2 hstep
  exact ⟨fun _ => rfl, fun h => (nomatch h), fun h => (nomatch h), fun _ => rfl,
    fun _ h => (nomatch h), fun _ h => (nomatch h), fun _ h => (nomatch h)⟩

/-! ### How a call ends -/

theorem ended_step {a : Action C} {ending : Ending C} (hg : Given held s)
    (hs : s.awaiter = .ended ending) (h : step isCancelledError held a s = some t) :
    t.awaiter = .ended ending := by
  rcases ha : a.ofThread with _ | _
  swap
  · exact ((works_of_step ha h).beside hg).awaiter.trans hs
  cases a with
  | cancelTask =>
    simp only [step, cancelTask, hs] at h
    exact Option.some.inj h ▸ hs
  | cancelToken =>
    cases h
    exact hs
  | deliver =>
    simp only [step, deliver, hs, Awaiter.inHandler, Bool.false_eq_true, if_false] at h
    split at h <;> cases h <;> rfl
  | start | resume | read | cancel | complete =>
    simp only [step, start, resume, read, hs] at h
    cases h
  | reject | stamp | arm | look | finish | post => cases ha

/-- **How an awaited attempt ends**, whatever the thread, the loop and whoever cancels do and in
whatever order. What `run` ended with stays true: what was delivered is what the call gave, and no
cancellation was asked for before; an interrupt cancelled the token, and its completion has the facts
of the attempt, or the payload is not run, then or later. And a cancellation that was asked for takes
the coroutine to its end without one step of the thread. -/
theorem awaited_ends (h : Reachable (step isCancelledError held) ({} : State C) t) :
    (∀ ending, t.awaiter = .ended ending → ∀ u, Reachable (step isCancelledError held) t u →
      u.awaiter = .ended ending ∧ Ended isCancelledError held u ending) ∧
    (t.awaiter = .waiting → t.requested = true → ∀ own finish, ∃ last u ending,
      exec (step isCancelledError held) ([.resume, .cancel, .read own] ++ last) t = some u ∧
        (last = [] ∨ last = [.complete finish]) ∧ u.awaiter = .ended ending ∧
        u.daemon = t.daemon) := by
  refine ⟨fun ending hending u hu => ?_, fun hwaiting hrequested own finish => ?_⟩
  · have hstays : u.awaiter = .ended ending := hu.invariant hending fun v a w hv hawaiter _ hstep =>
      ended_step (holds_of_reachable (h.trans hv)).1 hawaiter hstep
    have hholds := (holds_of_reachable (h.trans hu)).2
    rw [hstays] at hholds
    exact ⟨hstays, hholds⟩
  · have hawaits := (holds_of_reachable h).2
    rw [hwaiting] at hawaits
    have hresume : resume isCancelledError t =
        some { t with awaiter := .cancelling, mustCancel := false } := by
      unfold resume
      rcases hfuture : t.future with _ | result | _
      · rcases hawaits.1.mp hrequested with hmust | hcancelled
        · exact absurd hfuture (hawaits.2 hmust)
        · cases hfuture.symm.trans hcancelled
      · have hmust : t.mustCancel = true := by
          rcases hawaits.1.mp hrequested with hmust | hcancelled
          · exact hmust
          · cases hfuture.symm.trans hcancelled
        simp only [hwaiting, hmust, if_true]
      · simp only [hwaiting]
    have hread : ∀ last, exec (step isCancelledError held) ([.resume, .cancel, .read own] ++ last) t =
        (read own { t with awaiter := .reading, mustCancel := false, token := true }).bind
          (exec (step isCancelledError held) last) := by
      intro last
      simp only [List.cons_append, List.nil_append, exec, step, hresume, Option.bind_some]
    rcases hhandoff : t.handoff with _ | execution
    · rcases own with error | execution
      · refine ⟨[], { t with awaiter := .ended (.unstamped error), mustCancel := false, token := true },
          _, (hread []).trans ?_, .inl rfl, rfl, rfl⟩
        simp only [read, hhandoff, Option.bind_some, exec]
      · refine ⟨[.complete finish], { t with awaiter := .ended (closing execution true (finish execution))
                                             mustCancel := false, token := true },
          _, (hread _).trans ?_, .inr rfl, rfl, rfl⟩
        simp only [read, hhandoff, Option.bind_some, exec, step]
    · refine ⟨[.complete finish], { t with awaiter := .ended (closing execution false (finish execution))
                                           mustCancel := false, token := true },
        _, (hread _).trans ?_, .inr rfl, rfl, rfl⟩
      simp only [read, hhandoff, Option.bind_some, exec, step]

theorem startedNs_le (execution : JobExecution) : execution.startedNs ≤ execution.startedNs := le_rfl

/-- A task that is cancelled before its thread has stamped anything. -/
def interruptedEarly : List (Action plainCodec) :=
  [.start none true, .cancelTask, .resume, .cancel, .read (.ok (attemptOf (hostOf (.ok ()) (.ok ()))
    none).execution), .complete fun execution =>
      ⟨execution.startedAt, execution.startedNs, startedNs_le execution⟩]

theorem interruptedEarly_ends :
    ∃ t : State plainCodec, Reachable (step (fun _ => false) id) {} t ∧ t.daemon = .stamping ∧
      (∃ execution finish, t.awaiter = .ended (.interrupted execution true finish)) ∧
      ∀ u, Reachable (step (fun _ => false) id) t u → u.ran = false := by
  obtain ⟨t, ht⟩ : ∃ t : State plainCodec,
      exec (step (fun _ => false) id) interruptedEarly {} = some t := ⟨_, rfl⟩
  have hreach := Reach.of_exec interruptedEarly (fun _ _ => trivial) ht
  cases ht
  refine ⟨_, hreach, rfl, ⟨_, _, rfl⟩, fun u hu => ?_⟩
  exact ((awaited_ends hreach).1 _ rfl u hu).2.2.2.2

end DrExec.Execution.InProcessAsync
