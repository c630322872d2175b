import DrExec.Scheduling.Ledger

/-! # The scheduler refines its ledger

`ledger` forgets the bound, the tokens and the threads. Every section of the scheduler is a sequence
of moves of its ledger (`ledger_step`), so every state reached keeps the ledger in order
(`ledger_ok_of_reachable`). -/

namespace DrExec.Scheduling.Scheduler.ExecutionScheduler

open DrExec.Lib.Transition DrExec.Lib.Lists Relation Ledger

variable {Job Ctx Done Fault : Type} {s s' : ExecutionScheduler Job Ctx Done Fault}

/-- The ledger of a scheduler. -/
def ledger (s : ExecutionScheduler Job Ctx Done Fault) : Ledger Job Ctx Done where
  queued := s.pending
  running := s.calls
  buffered := s.ready
  nextTicket := s.nextTicket
  history := s.history

/-- A section that leaves queue, calls, buffer and history alone leaves the ledger alone. -/
theorem ledger_congr (hp : s'.pending = s.pending) (hc : s'.calls = s.calls)
    (hy : s'.ready = s.ready) (hn : s'.nextTicket = s.nextTicket) (hh : s'.history = s.history) :
    s'.ledger = s.ledger := by
  simp only [ledger, hp, hc, hy, hn, hh]

/-- The calls after one thread moved on. -/
theorem coe_calls_set {threads : List (Worker Job Ctx)} {worker : ℕ} {old : Worker Job Ctx}
    (hw : threads[worker]? = some old) (new : Worker Job Ctx) :
    (old.call?.toList : Multiset (Admitted Job Ctx)) +
        ((threads.set worker new).filterMap Worker.call? : List (Admitted Job Ctx)) =
      (new.call?.toList : Multiset (Admitted Job Ctx)) +
        (threads.filterMap Worker.call? : List (Admitted Job Ctx)) :=
  Multiset.coe_eq_coe.mpr (filterMap_set_perm Worker.call? threads worker new old hw)

/-- A thread begins a call. -/
theorem coe_calls_call {threads : List (Worker Job Ctx)} {worker : ℕ}
    (hw : threads[worker]? = some .waiting) (admitted : Admitted Job Ctx) :
    ((threads.set worker (.calling admitted)).filterMap Worker.call? : Multiset _) =
      admitted ::ₘ (threads.filterMap Worker.call? : List (Admitted Job Ctx)) := by
  simpa [Worker.call?] using coe_calls_set hw (.calling admitted)

/-- A thread ends a call. -/
theorem coe_calls_end {threads : List (Worker Job Ctx)} {worker : ℕ} {admitted : Admitted Job Ctx}
    (hw : threads[worker]? = some (.calling admitted)) :
    (threads.filterMap Worker.call? : Multiset (Admitted Job Ctx)) =
      admitted ::ₘ ((threads.set worker .waiting).filterMap Worker.call? : List _) := by
  simpa [Worker.call?] using (coe_calls_set hw .waiting).symm

theorem enqueue_eq (s : ExecutionScheduler Job Ctx Done Fault) (job : Job) (context : Ctx) :
    ∃ cancelled, s.enqueue job context =
      { s with
        nextTicket := s.nextTicket + 1
        tokens := s.tokens ++ [(s.nextTicket, ⟨s.nextTicket⟩)]
        pending := s.pending ++ [⟨s.nextTicket, job, context, ⟨s.nextTicket⟩⟩]
        residents := s.residents + 1
        cancelled := cancelled
        history := s.history ++ [.admitted s.nextTicket job context] } := by
  unfold enqueue record cancelToken
  dsimp only
  split_ifs
  · exact ⟨_, rfl⟩
  · exact ⟨_, rfl⟩

/-! ### Each section is moves -/

theorem ledger_breakWith (s : ExecutionScheduler Job Ctx Done Fault) (failure : Fault) :
    ReflTransGen Move s.ledger (s.breakWith failure).ledger := by
  cases hb : s.broken with
  | some _ => rw [breakWith_of_broken s failure (by simp [hb])]
  | none =>
    rw [breakWith_of_unbroken s failure hb]
    exact .single (.drop s.ledger)

theorem ledger_ensureWorker (s : ExecutionScheduler Job Ctx Done Fault) (start : Option Fault) :
    ReflTransGen Move s.ledger (s.ensureWorker start).ledger := by
  rcases s.ensureWorker_cases start with ⟨-, he⟩ | ⟨failure, -, he⟩ | ⟨-, -, he⟩
  · rw [he]
  · rw [he]; exact s.ledger_breakWith failure
  · rw [he]
    have heq : ({ s with
        threads := s.threads ++ [.waiting]
        workers := s.workers ++ [s.threads.length] } :
          ExecutionScheduler Job Ctx Done Fault).ledger = s.ledger :=
      ledger_congr rfl (by simp [calls, Worker.call?]) rfl rfl rfl
    rw [heq]

theorem ledger_enqueue (s : ExecutionScheduler Job Ctx Done Fault) (job : Job) (context : Ctx) :
    Move s.ledger (s.enqueue job context).ledger := by
  obtain ⟨cancelled, he⟩ := s.enqueue_eq job context
  rw [he]
  exact .admitJob s.ledger job context ⟨s.nextTicket⟩

theorem ledger_workerTakes {worker : ℕ} (hw : s.threads[worker]? = some .waiting) :
    ReflTransGen Move s.ledger (s.workerTakes worker).ledger := by
  rcases s.workerTakes_cases worker with ⟨admitted, rest, -, hp, he⟩ | ⟨-, he⟩
  · rw [he]
    have hmove := Move.call s.ledger admitted rest hp
    have hcalls : admitted ::ₘ s.ledger.running =
      ((s.threads.set worker (.calling admitted)).filterMap Worker.call? : List _) :=
        (coe_calls_call hw admitted).symm
    rw [hcalls] at hmove
    exact .single hmove
  · rw [he]
    have hcalls := coe_calls_set hw .returned
    have heq : ({ s with threads := s.threads.set worker .returned } :
        ExecutionScheduler Job Ctx Done Fault).ledger = s.ledger := by
      simp only [Worker.call?, Option.toList_none, Multiset.coe_nil, zero_add] at hcalls
      simp only [ledger, calls, hcalls]
    rw [heq]

theorem ledger_workerFinishes {worker : ℕ} {admitted : Admitted Job Ctx}
    (hw : s.threads[worker]? = some (.calling admitted)) (result : Except Fault Done) :
    ReflTransGen Move s.ledger (s.workerFinishes worker admitted result).ledger := by
  have hcalls : s.ledger.running = admitted ::ₘ
    ((s.threads.set worker .waiting).filterMap Worker.call? : List _) := coe_calls_end hw
  cases result with
  | ok completed =>
    rw [workerFinishes_ok]
    exact .single (.complete s.ledger admitted _ completed hcalls)
  | error failure =>
    have hfail := Move.fail s.ledger admitted _ hcalls
    rcases s.workerFinishes_error_cases worker admitted failure with ⟨-, he⟩ | ⟨-, he⟩
    · rw [he]
      exact .single hfail
    · rw [he]
      exact (ReflTransGen.single hfail).tail (.drop _)

theorem ledger_taken (s : ExecutionScheduler Job Ctx Done Fault) (driver : ℕ)
    (ownedBy : Option (Ctx → Bool)) :
    ReflTransGen Move s.ledger (recordTaken driver (s.takeCompletionNowait ownedBy).1
      (s.takeCompletionNowait ownedBy).2).ledger := by
  rcases s.takeCompletionNowait_cases ownedBy with ⟨completion, l₁, l₂, hy, -, -, he⟩ | ⟨-, he⟩
  · rw [he]
    exact .single (.deliver s.ledger driver completion l₁ l₂ hy)
  · rw [he]
    unfold noneUnlessBroken
    cases s.broken <;> exact .refl

theorem ledger_releaseOwned (s : ExecutionScheduler Job Ctx Done Fault) (ownedBy : Ctx → Bool) :
    Move s.ledger (s.releaseOwned ownedBy).ledger := by
  rw [releaseOwned_eq]
  exact .release s.ledger fun completion => ownedBy completion.context

theorem ledger_shutdownEnd (hw : s.WorkersOk) {call : Shutdown} (hc : call ∈ s.joining)
    (hj : s.joined call = true) : ReflTransGen Move s.ledger (s.shutdownEnd call).ledger := by
  have hp := (hw.idle_of_joined hc hj).2.1
  unfold shutdownEnd
  dsimp only
  split_ifs
  · have heq : ({ s with workers := [], pending := [] } :
        ExecutionScheduler Job Ctx Done Fault).ledger = s.ledger :=
      ledger_congr hp.symm rfl rfl rfl rfl
    exact heq ▸ .refl
  · have hmove := Move.discard s.ledger
    have hq : s.ledger.queued = [] := hp
    rw [hq] at hmove
    exact .single hmove

/-- **Every section of the scheduler is a sequence of moves of its ledger.** -/
theorem ledger_step (hw : s.WorkersOk) {action : Action Job Ctx Done Fault}
    (hstep : step action s = some s') : ReflTransGen Move s.ledger s'.ledger := by
  cases outcome_of_step hstep with
  | unchanged => exact .refl
  | admitJob job context start =>
    exact (ReflTransGen.single (s.ledger_enqueue job context)).trans
      ((s.enqueue job context).ledger_ensureWorker start)
  | takes worker hthread => exact ledger_workerTakes hthread
  | finishes worker admitted result hthread => exact ledger_workerFinishes hthread result
  | taken driver ownedBy => exact s.ledger_taken driver ownedBy
  | released ownedBy => exact .single (s.ledger_releaseOwned ownedBy)
  | shutdownEnd call joining hc hj => exact ledger_shutdownEnd hw hc hj
  | discarded => exact .single (.discard s.ledger)
  | cancelled | closed | shutdownBegin => exact .refl

/-- The ledger of every state a scheduler reaches is in order. -/
theorem ledger_ok_of_reachable {capacity : ℤ} {s₀ s : ExecutionScheduler Job Ctx Done Fault}
    (h0 : init capacity = some s₀) (h : Reachable step s₀ s) : s.ledger.Ok := by
  refine h.invariant (I := fun u => u.ledger.Ok) ?_ fun u a v hr hu _ hs =>
    hu.moves (ledger_step (workersOk_of_reachable h0 hr) hs)
  obtain ⟨-, rfl⟩ := init_eq h0
  exact Ok.empty

end DrExec.Scheduling.Scheduler.ExecutionScheduler
