import DrExec.Scheduling.Keeping

/-! # The callers of `drain` and `abort`

`_close` of `scheduling/pool.py`, over the pool: the first caller starts the close task, and each
caller awaits it behind a shield; a caller that is cancelled there awaits it once more, with no
shield, before it raises. So a second cancellation of that caller is passed on to the close task
(`close_survives`). A call that returned leaves nothing queued or running, in any later state, and
what was buffered for a stream that goes on is handed out (`close_settles`). -/

namespace DrExec.Scheduling.Pool

open DrExec.Lib.Transition Scheduler ExecutionScheduler

variable {Job C Done Fault : Type}

/-- Where a call of `drain` or `abort` is in `_close`: before `cancel_all`, in
`asyncio.shield(close_task)`, cancelled there, in the `await close_task` of the handler, or over. -/
inductive CloseCall
  | aborting
  | shielded
  | interrupted
  | awaiting
  | returned
  | raised
  deriving DecidableEq, Repr

namespace CloseCall

def suspended : CloseCall → Bool
  | aborting => false
  | _ => true

def ended : CloseCall → Bool
  | returned | raised => true
  | _ => false

end CloseCall

/-- A pool with the calls that close it. `handedOver` is set once `_finish_close` has handed
`shutdown` to a thread, `taskCancelled` once the close task was cancelled before its end. -/
structure ClosingPool (Job C Done Fault : Type) where
  pool : ExecutionPool Job C Done Fault
  calls : List CloseCall := []
  handedOver : Bool := false
  taskCancelled : Bool := false
  deriving DecidableEq, Repr

inductive ClosingAction (Job C Done Fault : Type)
  | pool (action : PoolAction Job C Done Fault)
  | close (abort : Bool)
  | cancelAll (call : ℕ)
  | cancel (call : ℕ)
  | resume (call : ℕ)
  | handOver

namespace ClosingPool

def open? (capacity : ℤ) : Option (ClosingPool Job C Done Fault) :=
  (ExecutionPool.open? capacity).map fun pool => { pool := pool }

variable (w : ClosingPool Job C Done Fault)

/-- Every stream and every call is suspended, so the event loop may run another task. -/
def loopFree : Bool := w.pool.loopFree && w.calls.all CloseCall.suspended

/-- `close_task.done()` -/
def taskDone : Bool := w.taskCancelled || decide (w.pool.closing = .finished)

/-- The pool may take the step now. Steps of threads need no event loop; the calls close the pool
and cancel its work; the close task goes on unless it was cancelled. -/
def allows : PoolAction Job C Done Fault → Bool
  | .takeAdmitted _ | .finish _ _ | .joined => true
  | .quiesced => w.handedOver
  | .drain | .cancelAll => false
  | .closed => !w.taskCancelled && w.calls.all CloseCall.suspended
  | _ => w.calls.all CloseCall.suspended

/-- `_close` up to its first call that may suspend it, or to `cancel_all`. -/
def close (abort : Bool) : ClosingPool Job C Done Fault :=
  if w.pool.closed then { w with calls := w.calls ++ [.returned] }
  else
    { w with
      pool := if w.pool.closing = .open then w.pool.close else w.pool
      calls := w.calls ++ [if abort then .aborting else .shielded] }

/-- `Task.cancel` of the task that runs call `call`. In the handler it is passed on to the close
task. -/
def cancel (call : ℕ) : Option (ClosingPool Job C Done Fault) :=
  match w.calls[call]? with
  | some .shielded => some { w with calls := w.calls.set call .interrupted }
  | some .interrupted => some w
  | some .awaiting => some { w with taskCancelled := !decide (w.pool.closing = .finished) }
  | _ => none

/-- Call `call` goes on after its await. -/
def resume (call : ℕ) : Option (ClosingPool Job C Done Fault) :=
  match w.calls[call]? with
  | some .shielded =>
    -- A shield raises `CancelledError` too where the task behind it was cancelled.
    if w.taskDone then
      some { w with calls := w.calls.set call (if w.taskCancelled then .raised else .returned) }
    else none
  | some .interrupted =>
    some { w with calls := w.calls.set call (if w.taskDone then .raised else .awaiting) }
  | some .awaiting =>
    if w.taskDone then some { w with calls := w.calls.set call .raised } else none
  | _ => none

def step : ClosingAction Job C Done Fault → ClosingPool Job C Done Fault →
    Option (ClosingPool Job C Done Fault)
  | .pool action, w =>
    if w.allows action then
      (ExecutionPool.step action w.pool).map fun pool => { w with pool := pool }
    else none
  | .close abort, w => if w.loopFree then some (w.close abort) else none
  | .cancelAll call, w =>
    if w.calls[call]? = some .aborting then
      (ExecutionPool.step .cancelAll w.pool).map fun pool =>
        { w with pool := pool, calls := w.calls.set call .shielded }
    else none
  | .cancel call, w => if w.loopFree then w.cancel call else none
  | .resume call, w => if w.loopFree then w.resume call else none
  | .handOver, w =>
    if w.loopFree ∧ w.taskCancelled = false ∧ w.pool.closing = .quiescing ∧
        w.pool.scheduler.quiescent = true then
      some { w with handedOver := true }
    else none

end ClosingPool

/-! ### A pool that is closed -/

variable {w w' : ExecutionPool Job C Done Fault}

/-- The pool is closed: no executor call is queued or running, and the state says whether the
scheduler broke. -/
structure Settled (w : ExecutionPool Job C Done Fault) : Prop where
  shut : w.scheduler.shutdownReturned = true
  closed : w.closed = true
  complete : w.shutdownComplete = true
  pending : w.scheduler.pending = []
  calls : w.scheduler.calls = []
  state : w.state = if w.scheduler.isBroken then .broken else .closed

/-- What the close task writes stays. -/
def StateKept (w : ExecutionPool Job C Done Fault) : Prop :=
  w.closing = .finished → w.state = if w.scheduler.isBroken then .broken else .closed

theorem StateKept.step (h : StateKept w) (hclosing : ClosingOk w) (hok : w.scheduler.WorkersOk)
    (heff : Effect w w') : StateKept w' := by
  intro hfinished
  -- A step of a pool that is closed keeps the state, and no break comes.
  have hkeep : w.closing = .finished → w'.state = w.state →
      w'.state = if w'.scheduler.isBroken then .broken else .closed := by
    intro hf hstate
    have hshut := hclosing.shut (.inr hf)
    have hbroken : w'.scheduler.broken = w.scheduler.broken := by
      rcases scheduler_step hclosing heff with he | ⟨action, hstep⟩
      · rw [he]
      · exact (shut_step hok hshut hstep).broken
    rw [hstate, h hf, isBroken, isBroken, hbroken]
  cases heff with
  | breaks i stream _ _ _ hrun =>
    have hleft : w.state ≠ .running := by
      rw [h hfinished]
      split_ifs <;> simp
    exact absurd hrun hleft
  | takes i stream =>
    have hf : w.closing = .finished := by
      unfold ExecutionPool.driveTake at hfinished
      dsimp only at hfinished
      split at hfinished <;> exact hfinished
    refine hkeep hf ?_
    have hrun : w.state ≠ .running := by
      rw [h hf]
      split_ifs <;> simp
    unfold ExecutionPool.driveTake
    dsimp only
    split
    · exact if_neg hrun
    · rfl
    · rfl
  | admits i stream submission start _ _ hc =>
    obtain ⟨stream', he, -⟩ := driveAdmit_cases w i hc start
    rw [he] at hfinished hkeep ⊢
    exact hkeep hfinished rfl
  | keepsBooks i stream ending =>
    have hsame : (w.driveBookkeeping i stream ending).closing = w.closing ∧
        (w.driveBookkeeping i stream ending).state = w.state := by
      unfold ExecutionPool.driveBookkeeping
      dsimp only
      split_ifs <;> exact ⟨rfl, rfl⟩
    exact hkeep (hsame.1 ▸ hfinished) hsame.2
  | departs i stream phase =>
    have hsame : (w.releaseOwned i stream).closing = w.closing ∧
        (w.releaseOwned i stream).state = w.state := by
      unfold ExecutionPool.releaseOwned
      split_ifs <;> exact ⟨rfl, rfl⟩
    exact hkeep (hsame.1 ▸ hfinished) hsame.2
  | finishes =>
    have hbroken : w.finishClose.scheduler.isBroken = w.scheduler.isBroken := by
      rcases scheduler_finishClose w with he | he <;> rw [he]
      rfl
    rw [hbroken]
    unfold ExecutionPool.finishClose ExecutionPool.wakeAll
    dsimp only
    split_ifs <;> rfl
  | closes | shutsDown | joins => cases hfinished
  | unchanged | worker | opened | moves | wakes | cancels => exact hkeep hfinished rfl

/-- **When the close task has finished**, the pool is closed. -/
theorem settled_of_finished {capacity : ℤ} {w₀ : ExecutionPool Job C Done Fault}
    (h0 : ExecutionPool.open? capacity = some w₀) (h : Reachable ExecutionPool.step w₀ w)
    (hf : w.closing = .finished) : Settled w := by
  have hok : ∀ {u : ExecutionPool Job C Done Fault}, Reachable ExecutionPool.step w₀ u →
      u.scheduler.WorkersOk := fun hu =>
    workersOk_of_reachable (init_of_open? h0) (scheduler_reachable h0 hu)
  have hflags := flagged_of_reach h0 h
  have hshut := (closingOk_of_reach h0 h).shut (.inr hf)
  have hself := shut_self (hok h) hshut
  refine ⟨hshut, hflags.closed.mpr hf, hflags.complete.mpr hf, hself.pending, hself.calls, ?_⟩
  refine h.invariant (I := StateKept) ?_ (fun u a v hu hkept _ hs => ?_) hf
  · obtain ⟨scheduler, -, rfl⟩ := open?_eq h0
    exact nofun
  · exact hkept.step (closingOk_of_reach h0 hu) (hok hu) (effect_of_step hs)

/-- The close task has finished for good. -/
theorem finished_step (h : w.closing = .finished) (heff : Effect w w') : w'.closing = .finished := by
  rcases closing_step heff with ⟨hc, -⟩ | ⟨hne, -⟩ | ⟨-, hc⟩
  · exact hc.trans h
  · exact absurd h hne
  · exact hc

/-- **After the close task**: no job starts, and no break comes. -/
theorem after_finished {capacity : ℤ} {w₀ : ExecutionPool Job C Done Fault}
    (h0 : ExecutionPool.open? capacity = some w₀) (h : Reachable ExecutionPool.step w₀ w)
    (hf : w.closing = .finished) (h' : Reachable ExecutionPool.step w w') :
    w'.closing = .finished ∧ w'.scheduler.broken = w.scheduler.broken ∧
      ∀ t job, .called t job ∈ w'.scheduler.history → .called t job ∈ w.scheduler.history := by
  refine h'.invariant (I := fun u => u.closing = .finished ∧
    u.scheduler.broken = w.scheduler.broken ∧
      ∀ t job, .called t job ∈ u.scheduler.history → .called t job ∈ w.scheduler.history)
    ⟨hf, rfl, fun _ _ hmem => hmem⟩ fun u a v hu ⟨huf, hub, hustart⟩ _ hs => ?_
  have hreach := h.trans hu
  have hclosing := closingOk_of_reach h0 hreach
  have hok := workersOk_of_reachable (init_of_open? h0) (scheduler_reachable h0 hreach)
  have hshut := hclosing.shut (.inr huf)
  have heff := effect_of_step hs
  have hnext : u.scheduler.Shut v.scheduler := by
    rcases scheduler_step hclosing heff with he | ⟨action, hstep⟩
    · rw [he]
      exact shut_self hok hshut
    · exact shut_step hok hshut hstep
  exact ⟨finished_step huf heff, hnext.broken.trans hub,
    fun t job hmem => hustart t job (hnext.started t job hmem)⟩

theorem closing_drive {i : ℕ} {stream : Stream Job C Done} {start : Option Fault}
    (h : w.drive i stream start = some w') : w'.closing = w.closing := by
  unfold ExecutionPool.drive at h
  split at h
  case h_2 =>
    cases h
    unfold ExecutionPool.driveTake
    dsimp only
    split <;> rfl
  case h_5 =>
    cases h
    unfold ExecutionPool.driveAdmit
    split
    · rfl
    · dsimp only
      split <;> rfl
  case h_8 =>
    cases h
    unfold ExecutionPool.driveBookkeeping
    dsimp only
    split_ifs <;> rfl
  case h_9 =>
    cases h
    unfold ExecutionPool.releaseOwned
    split_ifs <;> rfl
  case h_10 => cases h
  all_goals
    cases h
    rfl

/-- Only the close task finishes. -/
theorem finished_of_step {b : PoolAction Job C Done Fault}
    (hs : ExecutionPool.step b w = some w') (h : w'.closing = .finished) (hb : b ≠ .closed) :
    w.closing = .finished := by
  unfold ExecutionPool.step at hs
  split at hs
  case h_1 | h_2 =>
    obtain ⟨scheduler, -, rfl⟩ := Option.map_eq_some_iff.mp hs
    exact h
  case h_3 => split_ifs at hs; cases hs; cases h
  case h_4 =>
    split_ifs at hs
    obtain ⟨scheduler, -, rfl⟩ := Option.map_eq_some_iff.mp hs
    cases h
  case h_5 i start =>
    split_ifs at hs
    obtain ⟨stream, -, hd⟩ := Option.bind_eq_some_iff.mp hs
    exact (closing_drive hd).symm.trans h
  split_ifs at hs
  cases b <;> simp only [ExecutionPool.loopStep, ExecutionPool.onStream,
    Option.bind_eq_some_iff, reduceCtorEq] at hs
  case closed => exact absurd rfl hb
  case drain => split_ifs at hs; cases hs; cases h
  case runStream | mapStream | wakeStreams | cancelAll => split_ifs at hs; cases hs; exact h
  case anext =>
    obtain ⟨stream, -, hs⟩ := hs
    split at hs
    case h_2 => split_ifs at hs; cases hs; exact h
    all_goals
      cases hs
    all_goals exact h
  case aclose =>
    obtain ⟨stream, -, hs⟩ := hs
    split at hs <;> cases hs
    unfold ExecutionPool.releaseOwned at h
    split_ifs at h <;> exact h
  case finalize =>
    obtain ⟨stream, -, hs⟩ := hs
    split at hs <;> cases hs
    exact h
  case cancel =>
    obtain ⟨stream, -, hs⟩ := hs
    split at hs <;> cases hs
    all_goals exact h
  case acquire =>
    obtain ⟨stream, -, hs⟩ := hs
    split at hs
    · split_ifs at hs
      cases hs
      exact h
    · cases hs
  case answer =>
    obtain ⟨stream, -, hs⟩ := hs
    split at hs
    · cases hs
      exact h
    · split_ifs at hs
      cases hs
      exact h
    · cases hs

/-! ### The pool under its calls -/

namespace ClosingPool

variable {v v' : ClosingPool Job C Done Fault} {action : ClosingAction Job C Done Fault}

/-- A call finds the pool closed, or starts the close task, or finds it started. -/
theorem close_cases (v : ClosingPool Job C Done Fault) (abort : Bool) :
    (v.pool.closed = true ∧ v.close abort = { v with calls := v.calls ++ [.returned] }) ∨
      ∃ next : CloseCall, next.ended = false ∧
        ((v.pool.closing = .open ∧
          v.close abort = { v with pool := v.pool.close, calls := v.calls ++ [next] }) ∨
        v.close abort = { v with calls := v.calls ++ [next] }) := by
  have hnext : (if abort then .aborting else .shielded : CloseCall).ended = false := by
    split_ifs <;> rfl
  unfold close
  by_cases hclosed : v.pool.closed = true
  · exact .inl ⟨hclosed, if_pos hclosed⟩
  · refine .inr ⟨_, hnext, ?_⟩
    rw [if_neg hclosed]
    by_cases hopen : v.pool.closing = .open
    · rw [if_pos hopen]
      exact .inl ⟨hopen, rfl⟩
    · rw [if_neg hopen]
      exact .inr rfl

/-- The step of the pool that an action takes. -/
theorem pool_step (h : step action v = some v') : v'.pool = v.pool ∨
    ∃ b, (∀ a, action = .pool a → b = a) ∧ (action ≠ .pool b → b = .drain ∨ b = .cancelAll) ∧
      ExecutionPool.step b v.pool = some v'.pool := by
  cases action <;> simp only [step] at h
  case pool a =>
    split_ifs at h
    obtain ⟨pool, hs, rfl⟩ := Option.map_eq_some_iff.mp h
    exact .inr ⟨a, fun _ he => by cases he; rfl, fun hne => absurd rfl hne, hs⟩
  case close abort =>
    split_ifs at h with hfree
    cases h
    rcases v.close_cases abort with ⟨-, he⟩ | ⟨next, -, ⟨hopen, he⟩ | he⟩
    · rw [he]
      exact .inl rfl
    · rw [he]
      refine .inr ⟨.drain, (fun _ h => by cases h), fun _ => .inl rfl, ?_⟩
      have hpool : v.pool.loopFree = true := (Bool.and_eq_true _ _ ▸ hfree).1
      simp [ExecutionPool.step, ExecutionPool.loopStep, hpool, hopen]
    · rw [he]
      exact .inl rfl
  case cancelAll call =>
    split_ifs at h
    obtain ⟨pool, hs, rfl⟩ := Option.map_eq_some_iff.mp h
    exact .inr ⟨.cancelAll, (fun _ h => by cases h), fun _ => .inr rfl, hs⟩
  case cancel call =>
    split_ifs at h
    unfold cancel at h
    split at h <;> cases h <;> exact .inl rfl
  case resume call =>
    split_ifs at h
    unfold resume at h
    split at h
    · split_ifs at h <;> cases h <;> exact .inl rfl
    · cases h
      exact .inl rfl
    · split_ifs at h
      cases h
      exact .inl rfl
    · cases h
  case handOver =>
    split_ifs at h
    cases h
    exact .inl rfl

theorem open?_pool {capacity : ℤ} {v₀ : ClosingPool Job C Done Fault} (h0 : open? capacity = some v₀) :
    ExecutionPool.open? capacity = some v₀.pool ∧ v₀ = { pool := v₀.pool } := by
  obtain ⟨pool, hp, rfl⟩ := Option.map_eq_some_iff.mp h0
  exact ⟨hp, rfl⟩

/-- **The pool under its calls** runs as a pool. -/
theorem pool_reach {ok : ClosingAction Job C Done Fault → ClosingPool Job C Done Fault → Prop}
    (h : Reach step ok v v') : Reachable ExecutionPool.step v.pool v'.pool :=
  h.simulate ClosingPool.pool fun _ _ _ _ _ hs =>
    (pool_step hs).imp_right fun ⟨b, _, _, hstep⟩ => ⟨b, trivial, hstep⟩

/-- A call ends only when the close task is done, and returns only when it has finished; a close
task that was cancelled does not finish. -/
structure CallsOk (v : ClosingPool Job C Done Fault) : Prop where
  ended : ∀ call ∈ v.calls, call.ended = true → v.taskDone = true
  returned : .returned ∈ v.calls → v.pool.closing = .finished
  cancelled : v.taskCancelled = true → v.pool.closing ≠ .finished

/-- The close task is done for good. -/
theorem taskDone_step (h : step action v = some v') (hdone : v.pool.closing = .finished) :
    v'.pool.closing = .finished := by
  rcases pool_step h with he | ⟨b, -, -, hs⟩
  · rw [he]
    exact hdone
  · exact finished_step hdone (effect_of_step hs)

/-- One call changes, and the close task stays as it was. -/
theorem CallsOk.set (h : CallsOk v) (call : ℕ) {next : CloseCall}
    (hended : next.ended = true → v.taskDone = true)
    (hreturned : next = .returned → v.pool.closing = .finished) :
    CallsOk { v with calls := v.calls.set call next } := by
  refine ⟨fun other hmem he => ?_, fun hmem => ?_, h.cancelled⟩
  · rcases List.mem_or_eq_of_mem_set hmem with hmem | rfl
    · exact h.ended other hmem he
    · exact hended he
  · rcases List.mem_or_eq_of_mem_set hmem with hmem | he
    · exact h.returned hmem
    · exact hreturned he.symm

/-- A call comes in. -/
theorem CallsOk.append (h : CallsOk v) (next : CloseCall) (hended : next.ended = false) :
    CallsOk { v with calls := v.calls ++ [next] } := by
  refine ⟨fun call hmem he => ?_, fun hmem => ?_, h.cancelled⟩
  · rcases List.mem_append.mp hmem with hmem | hmem
    · exact h.ended call hmem he
    · rw [List.mem_singleton.mp hmem, hended] at he
      cases he
  · rcases List.mem_append.mp hmem with hmem | hmem
    · exact h.returned hmem
    · rw [← List.mem_singleton.mp hmem] at hended
      cases hended

/-- A step of the pool, or none, under calls that stay. -/
theorem CallsOk.pool (h : CallsOk v) {pool : ExecutionPool Job C Done Fault}
    (hkeep : v.pool.closing = .finished → pool.closing = .finished)
    (hcancelled : v.taskCancelled = true → pool.closing ≠ .finished) :
    CallsOk { v with pool := pool } := by
  refine ⟨fun call hmem he => ?_, fun hmem => hkeep (h.returned hmem), hcancelled⟩
  have hdone := h.ended call hmem he
  simp only [taskDone, Bool.or_eq_true, decide_eq_true_eq] at hdone ⊢
  exact hdone.imp_right hkeep

/-- A task that was cancelled has no step left that finishes it. -/
theorem not_finished_step {b : PoolAction Job C Done Fault} (hok : v.allows b = true)
    {pool : ExecutionPool Job C Done Fault} (hs : ExecutionPool.step b v.pool = some pool)
    (hcancelled : v.taskCancelled = true) (hf : v.pool.closing ≠ .finished) :
    pool.closing ≠ .finished := by
  intro hfinished
  refine hf (finished_of_step hs hfinished ?_)
  rintro rfl
  simp [allows, hcancelled] at hok

theorem CallsOk.step (h : CallsOk v) (hflags : Flagged v.pool)
    (hs : ClosingPool.step action v = some v') : CallsOk v' := by
  have hpool := @taskDone_step _ _ _ _ _ _ _ hs
  cases action <;> simp only [ClosingPool.step] at hs
  case pool a =>
    split_ifs at hs with hallows
    obtain ⟨pool, hstep, rfl⟩ := Option.map_eq_some_iff.mp hs
    exact h.pool hpool fun hc => not_finished_step hallows hstep hc (h.cancelled hc)
  case close abort =>
    split_ifs at hs
    cases hs
    rcases v.close_cases abort with ⟨hclosed, he⟩ | ⟨next, hnext, ⟨hopen, he⟩ | he⟩
    · have hfinished := hflags.closed.mp hclosed
      rw [he]
      exact ⟨fun _ _ _ => by simp [taskDone, hfinished], fun _ => hfinished, h.cancelled⟩
    · have hnone : v.pool.closing ≠ .finished := by simp [hopen]
      rw [he]
      exact (h.pool (fun hf => absurd hf hnone) fun _ => by simp).append
        next hnext
    · rw [he]
      exact h.append next hnext
  case cancelAll call =>
    split_ifs at hs with hcall
    obtain ⟨pool, hstep, rfl⟩ := Option.map_eq_some_iff.mp hs
    refine (h.pool hpool fun hc hf => h.cancelled hc ?_).set call nofun nofun
    exact finished_of_step hstep hf nofun
  case cancel call =>
    split_ifs at hs
    unfold cancel at hs
    split at hs
    · cases hs
      exact h.set call nofun nofun
    · cases hs
      exact h
    · cases hs
      refine ⟨fun other hmem he => ?_, h.returned, fun hc => by simpa using hc⟩
      have hdone := h.ended other hmem he
      simp only [taskDone, Bool.or_eq_true, decide_eq_true_eq, Bool.not_eq_true',
        decide_eq_false_iff_not] at hdone ⊢
      tauto
    · cases hs
  case resume call =>
    split_ifs at hs
    unfold resume at hs
    split at hs
    · split_ifs at hs with hdone hcancelled
      · cases hs
        exact h.set call (fun _ => hdone) nofun
      · cases hs
        refine h.set call (fun _ => hdone) fun _ => ?_
        simpa [taskDone, hcancelled] using hdone
    · cases hs
      split_ifs with hdone
      · exact h.set call (fun _ => hdone) nofun
      · exact h.set call nofun nofun
    · split_ifs at hs with hdone
      cases hs
      exact h.set call (fun _ => hdone) nofun
    · cases hs
  case handOver =>
    split_ifs at hs
    cases hs
    exact ⟨h.ended, h.returned, h.cancelled⟩

theorem callsOk_of_reach {ok : ClosingAction Job C Done Fault → ClosingPool Job C Done Fault → Prop}
    {capacity : ℤ} {v₀ : ClosingPool Job C Done Fault} (h0 : open? capacity = some v₀)
    (h : Reach step ok v₀ v) : CallsOk v := by
  obtain ⟨hp, hv⟩ := open?_pool h0
  refine h.invariant ?_ fun u a v' hu hcalls _ hs =>
    hcalls.step (flagged_of_reach hp (pool_reach hu)) hs
  rw [hv]
  exact ⟨by simp, by simp, nofun⟩

/-! ### Cancelled callers -/

/-- The action cancels the close task: a caller is cancelled that was cancelled before and awaits
the task in its handler. -/
def strikes (action : ClosingAction Job C Done Fault) (v : ClosingPool Job C Done Fault) : Bool :=
  match action with
  | .cancel call => decide (v.calls[call]? = some .awaiting) && !decide (v.pool.closing = .finished)
  | _ => false

/-- A caller that is cancelled under the shield leaves the close task alone. -/
theorem taskCancelled_step (h : step action v = some v') (hok : strikes action v = false)
    (hv : v.taskCancelled = false) : v'.taskCancelled = false := by
  cases action <;> simp only [step] at h
  case pool | cancelAll =>
    split_ifs at h
    obtain ⟨pool, -, rfl⟩ := Option.map_eq_some_iff.mp h
    exact hv
  case close abort =>
    split_ifs at h
    cases h
    rcases v.close_cases abort with ⟨-, he⟩ | ⟨next, -, ⟨-, he⟩ | he⟩ <;> rw [he] <;> exact hv
  case cancel call =>
    split_ifs at h
    unfold cancel at h
    split at h
    · cases h
      exact hv
    · cases h
      exact hv
    · next hcall =>
      cases h
      simpa [strikes, hcall] using hok
    · cases h
  case resume call =>
    split_ifs at h
    unfold resume at h
    split at h
    · split_ifs at h <;> cases h <;> exact hv
    · cases h
      exact hv
    · split_ifs at h
      cases h
      exact hv
    · cases h
  case handOver =>
    split_ifs at h
    cases h
    exact hv

/-- **Cancelled callers and the close task.** In a run in which no caller is cancelled again while
it awaits the close task in its handler, the task is never cancelled; once a call is over, the pool
is closed, in that state and in all later ones, and every later call returns at once. In a run in
which the task was cancelled the pool is not closed. -/
theorem close_survives {capacity : ℤ} {v₀ : ClosingPool Job C Done Fault}
    (h0 : open? capacity = some v₀) :
    (∀ v, Reach step (fun action u => strikes action u = false) v₀ v →
      v.taskCancelled = false ∧ ((∃ call ∈ v.calls, call.ended = true) →
        ∀ v', Reachable step v v' → Settled v'.pool ∧
          ∀ abort v'', step (.close abort) v' = some v'' →
            v'' = { v' with calls := v'.calls ++ [.returned] })) ∧
      ∀ v, Reachable step v₀ v → v.taskCancelled = true → v.pool.closed = false := by
  obtain ⟨hp, hv⟩ := open?_pool h0
  constructor
  · intro v h
    have hcancelled : v.taskCancelled = false := by
      refine h.invariant (I := fun u => u.taskCancelled = false) ?_
        fun u a u' _ hu hok hs => taskCancelled_step hs hok hu
      rw [hv]
    refine ⟨hcancelled, fun ⟨call, hmem, hended⟩ v' h' => ?_⟩
    have hdone := (callsOk_of_reach h0 h).ended call hmem hended
    have hfinished : v.pool.closing = .finished := by
      simpa [taskDone, hcancelled] using hdone
    have hsettled := settled_of_finished hp ((pool_reach h).trans (pool_reach h'))
      (after_finished hp (pool_reach h) hfinished (pool_reach h')).1
    refine ⟨hsettled, fun abort v'' hs => ?_⟩
    simp only [step] at hs
    split_ifs at hs
    cases hs
    exact if_pos hsettled.closed
  · intro v h hcancelled
    have hnot := (callsOk_of_reach h0 h).cancelled hcancelled
    have hflags := flagged_of_reach hp (pool_reach h)
    rw [← Bool.not_eq_true, hflags.closed]
    exact hnot

/-- A pool whose only closer was cancelled twice. -/
def struck : ClosingPool ℕ ℕ ℕ ℕ where
  pool :=
    { scheduler := { capacity := 1, intakeClosed := true, announced := 1 }
      state := .draining
      closing := .quiescing }
  calls := [.raised]
  taskCancelled := true

/-- **A caller that is cancelled twice cancels the close.** It raises with the pool not closed, and
a later call raises too. -/
theorem twice_cancelled :
    ∃ v₀ v : ClosingPool ℕ ℕ ℕ ℕ, open? 1 = some v₀ ∧ Reachable step v₀ struck ∧
      (∀ call ∈ struck.calls, call.ended = true) ∧
      struck.pool.scheduler.shutdownReturned = false ∧ struck.pool.closed = false ∧
      struck.pool.shutdownComplete = false ∧ struck.pool.state = .draining ∧
      exec step [.close false, .resume 1] struck = some v ∧ v.calls = [.raised, .raised] := by
  refine ⟨{ pool := { scheduler := { capacity := 1 } } },
    { struck with calls := [.raised, .raised] }, rfl, ?_, by decide, rfl, rfl, rfl, rfl, by decide,
    rfl⟩
  exact .of_exec [.close false, .cancel 0, .resume 0, .cancel 0, .resume 0] (fun _ _ => trivial)
    (by decide)

/-- A pool that was closed by a caller that was cancelled once. -/
def closedOnce : ClosingPool ℕ ℕ ℕ ℕ where
  pool :=
    { scheduler :=
        { capacity := 1, intakeClosed := true, announced := 4, shutdownReturned := true }
      state := .closed
      closed := true
      shutdownComplete := true
      closing := .finished }
  calls := [.raised]
  handedOver := true

/-- One cancellation leaves the close alone. -/
theorem once_cancelled : Settled closedOnce.pool := by
  have h0 : open? 1 =
      some ({ pool := { scheduler := { capacity := 1 } } } : ClosingPool ℕ ℕ ℕ ℕ) := rfl
  have hrun : Reach step (fun action u => strikes action u = false)
      { pool := { scheduler := { capacity := 1 } } } closedOnce :=
    .of_exec_checked [.close false, .cancel 0, .resume 0, .handOver, .pool .quiesced, .pool .joined,
      .pool .closed, .resume 0] (by decide)
  exact ((((close_survives h0).1 closedOnce hrun).2 ⟨.raised, by decide, rfl⟩) closedOnce .refl).1

/-! ### A call that returns -/

/-- A caller is cancelled. -/
def cancels : ClosingAction Job C Done Fault → Bool
  | .cancel _ => true
  | _ => false

/-- Stream `i` is left to go on. -/
def leaves (i : ℕ) (action : ClosingAction Job C Done Fault) (v : ClosingPool Job C Done Fault) :
    Bool :=
  match action with
  | .pool action => spares i action v.pool
  | _ => true

/-- **Closing a pool**, in any run in which no caller is cancelled. Once a call has returned no
executor call is queued or running, none starts in any later state, and the state is `BROKEN` if the
scheduler broke and `CLOSED` if not, for good. A buffered completion stays buffered in every step
that leaves a stream running, unless a stream takes it or the map stream that owns it departs; and a
stream that goes on leaves its loop only after each buffered completion that it may claim was
received. -/
theorem close_settles {capacity : ℤ} {v₀ v : ClosingPool Job C Done Fault}
    (h0 : open? capacity = some v₀) (h : Reach step (fun action _ => cancels action = false) v₀ v) :
    (.returned ∈ v.calls → ∀ v', Reachable step v v' → Settled v'.pool ∧
      v'.pool.state ≠ .running ∧ v'.pool.scheduler.broken = v.pool.scheduler.broken ∧
      ∀ t job, .called t job ∈ v'.pool.scheduler.history →
        .called t job ∈ v.pool.scheduler.history) ∧
    (∀ action v', step action v = some v' → ∀ completion ∈ v.pool.scheduler.ready,
      completion ∈ v'.pool.scheduler.ready ∨ Gone v'.pool completion) ∧
    ∀ (i : ℕ) (stream : Stream Job C Done), v.pool.streams[i]? = some stream →
      stream.consuming = true → ∀ completion ∈ v.pool.scheduler.ready,
      stream.ownedBy i completion.context = true → ∀ v',
      Reach step (fun action u => cancels action = false ∧ leaves i action u = true) v v' →
        (Consuming i v'.pool ∧ completion ∈ v'.pool.scheduler.ready) ∨
          Received v'.pool completion := by
  obtain ⟨hp, -⟩ := open?_pool h0
  have hreach := pool_reach h
  refine ⟨fun hreturned v' h' => ?_, fun action v' hs completion hmem => ?_, ?_⟩
  · have hfinished := (callsOk_of_reach h0 h).returned hreturned
    obtain ⟨hf, hbroken, hstarted⟩ := after_finished hp hreach hfinished (pool_reach h')
    have hsettled := settled_of_finished hp (hreach.trans (pool_reach h')) hf
    refine ⟨hsettled, ?_, hbroken, hstarted⟩
    rw [hsettled.state]
    split_ifs <;> simp
  · rcases pool_step hs with he | ⟨b, -, -, hstep⟩
    · rw [he]
      exact .inl hmem
    · exact ready_step (alarmed_of_reach hp hreach) (effect_of_step hstep) hmem
  · intro i stream hi hc completion hmem hown v' h'
    refine consumes hp hreach hi hc hmem hown (h'.simulate ClosingPool.pool ?_)
    intro u action u' _ hok hs
    refine (pool_step hs).imp_right fun ⟨b, hb, hother, hstep⟩ => ⟨b, ?_, hstep⟩
    by_cases he : action = .pool b
    · subst he
      exact hok.2
    · rcases hother he with rfl | rfl <;> rfl

/-- A pool drained around a plain stream whose consumer is at its first completion. -/
def drained : ClosingPool ℕ ℕ ℕ ℕ where
  pool :=
    { scheduler :=
        { capacity := 2
          ready := [⟨1, 2, .bare 10⟩]
          tokens := [(1, ⟨1⟩)]
          nextTicket := 2
          residents := 1
          intakeClosed := true
          announced := 8
          threads := [.returned, .returned]
          shutdownReturned := true
          history := [.admitted 0 7 (.bare 9), .admitted 1 8 (.bare 10), .called 0 7, .called 1 8,
            .returned 0 1, .returned 1 2, .delivered 0 ⟨0, 1, .bare 9⟩] }
      state := .closed
      closed := true
      activeStreams := 1
      shutdownComplete := true
      closing := .finished
      streams :=
        [{ endsOnOwnWork := false
           permits := 0
           sourcePull := some .asking
           wakeup := true
           outstanding := 1
           phase := .yielded
           pulled := [⟨7, 9⟩, ⟨8, 10⟩]
           received := [⟨0, 1, .bare 9⟩] }]
      registered := [0]
      woken := 1 }
  calls := [.returned]
  handedOver := true

/-- The drain returned, and the second completion is still there for the stream. -/
theorem drained_settles : Settled drained.pool ∧
    ((Consuming 0 drained.pool ∧ ⟨1, 2, .bare 10⟩ ∈ drained.pool.scheduler.ready) ∨
      Received drained.pool ⟨1, 2, .bare 10⟩) := by
  have h0 : open? 2 =
      some ({ pool := { scheduler := { capacity := 2 } } } : ClosingPool ℕ ℕ ℕ ℕ) := rfl
  have hrun : Reach step (fun action _ => cancels action = false)
      { pool := { scheduler := { capacity := 2 } } } drained :=
    .of_exec_checked [[.pool .runStream], List.replicate 6 (.pool (.drive 0 none)),
      [.pool (.answer 0 (.submission ⟨7, 9⟩)), .pool (.anext 0), .pool (.anext 0)],
      List.replicate 15 (.pool (.drive 0 none)),
      [.pool (.answer 0 (.submission ⟨8, 10⟩)), .pool (.anext 0), .pool (.anext 0)],
      List.replicate 15 (.pool (.drive 0 none)),
      [.pool (.takeAdmitted 0), .pool (.takeAdmitted 1), .pool (.finish 0 (.ok 1)),
        .pool (.finish 1 (.ok 2)), .pool .wakeStreams, .pool (.anext 0), .pool (.anext 0)],
      List.replicate 3 (.pool (.drive 0 none)),
      [.close false, .handOver, .pool .quiesced, .pool (.takeAdmitted 0), .pool (.takeAdmitted 1),
        .pool .joined, .pool .closed, .resume 0]].flatten (by decide +kernel)
  obtain ⟨hreturned, -, hconsumes⟩ := close_settles h0 hrun
  exact ⟨(hreturned (by decide) drained .refl).1,
    hconsumes 0 _ rfl rfl ⟨1, 2, .bare 10⟩ (by decide) rfl drained .refl⟩

end ClosingPool

end DrExec.Scheduling.Pool
