import DrExec.Scheduling.Accounting

/-! # A worker for every queued job

`_ensure_worker` starts a thread only when the idle ones are fewer than the queued jobs, and never
beyond the bound. That this is enough rests on the accounting: an admitted job is within the
resident bound, so where all threads that may be started have been, they are enough
(`Staffed.admitJob`). So no queued job waits for another job's call (`scheduler_staffed`). -/

namespace DrExec.Scheduling.Scheduler.ExecutionScheduler

open DrExec.Lib.Transition DrExec.Lib.Lists

variable {Job Ctx Done Fault : Type} {s s' : ExecutionScheduler Job Ctx Done Fault}

/-- The threads that wait for a job. -/
def idle (s : ExecutionScheduler Job Ctx Done Fault) : List (Worker Job Ctx) :=
  s.threads.filter fun
    | .waiting => true
    | _ => false

/-- **The invariant of the staff**: the threads started are within the bound, there is an idle one
for each queued job, and while a job is queued none has returned. -/
structure Staffed (s : ExecutionScheduler Job Ctx Done Fault) : Prop where
  workers_le : (s.workers.length : ℤ) ≤ s.capacity
  spare : s.broken = none → (s.pending.length + s.running : ℤ) ≤ s.workers.length
  present : s.pending ≠ [] →
    s.workers.length = s.threads.length ∧ ∀ worker ∈ s.threads, worker ≠ .returned

namespace Staffed

/-- A section that leaves the threads and the queue alone keeps the invariant. -/
theorem congr (h : s.Staffed) (hc : s'.capacity = s.capacity) (ht : s'.threads = s.threads)
    (hw : s'.workers = s.workers) (hp : s'.pending = s.pending) (hr : s'.running = s.running)
    (hb : s'.broken = s.broken) : s'.Staffed := by
  refine ⟨?_, ?_, ?_⟩
  · rw [hc, hw]
    exact h.workers_le
  · rw [hb, hp, hr, hw]
    exact h.spare
  · rw [hp, hw, ht]
    exact h.present

/-- A section that leaves nothing queued keeps it, if what runs is no more than before. -/
theorem emptied (h : s.Staffed) (hc : s'.capacity = s.capacity) (hw : s'.workers = s.workers)
    (hp : s'.pending = []) (hr : s'.broken = none → s.broken = none ∧ s'.running ≤ s.running) :
    s'.Staffed := by
  refine ⟨?_, fun hbr => ?_, fun hne => absurd hp hne⟩
  · rw [hc, hw]
    exact h.workers_le
  · obtain ⟨hb, hrun⟩ := hr hbr
    have hspare := h.spare hb
    rw [hp, hw, List.length_nil]
    omega

/-- One thread moves on, and the jobs queued or running are no more than before. -/
theorem move (h : s.Staffed) (worker : ℕ) (new : Worker Job Ctx) (hnew : new ≠ .returned)
    (hc : s'.capacity = s.capacity) (hw : s'.workers = s.workers)
    (ht : s'.threads = s.threads.set worker new) (hp : s'.pending ≠ [] → s.pending ≠ [])
    (hr : s'.broken = none →
      s.broken = none ∧ (s'.pending.length + s'.running : ℤ) ≤ s.pending.length + s.running) :
    s'.Staffed := by
  refine ⟨?_, fun hbr => ?_, fun hne => ?_⟩
  · rw [hc, hw]
    exact h.workers_le
  · obtain ⟨hb, hle⟩ := hr hbr
    rw [hw]
    exact hle.trans (h.spare hb)
  · obtain ⟨hlength, hall⟩ := h.present (hp hne)
    rw [hw, ht, List.length_set]
    refine ⟨hlength, fun w hwmem => ?_⟩
    rcases List.mem_or_eq_of_mem_set hwmem with hmem | rfl
    · exact hall w hmem
    · exact hnew

/-- **An admitted job finds a worker.** -/
theorem admitJob (h : s.Staffed) (hok : s.WorkersOk) (hacc : s.Accounted)
    (hopen : s.intakeClosed = false) (hroom : s.residents < s.capacity) (job : Job) (context : Ctx)
    (start : Option Fault) : ((s.enqueue job context).ensureWorker start).announceChange.Staffed := by
  obtain ⟨hbr, hworkers, halive⟩ := hok.open_intake hopen
  have hlength : s.workers.length = s.threads.length := by rw [hworkers, List.length_range]
  have hpresent : ∀ worker ∈ s.threads, worker ≠ .returned := by
    intro worker hmem
    obtain ⟨i, hi⟩ := List.mem_iff_getElem?.mp hmem
    obtain ⟨w, hw, hne⟩ := halive i (List.getElem?_eq_some_iff.mp hi).1
    rwa [Option.some.inj (hi.symm.trans hw)]
  have hfields : (s.enqueue job context).capacity = s.capacity ∧
      (s.enqueue job context).threads = s.threads ∧ (s.enqueue job context).workers = s.workers ∧
      (s.enqueue job context).running = s.running ∧
      (s.enqueue job context).broken = none ∧
      (s.enqueue job context).pending.length = s.pending.length + 1 := by
    unfold ExecutionScheduler.enqueue record cancelToken
    dsimp only
    split_ifs <;> simp [hbr]
  obtain ⟨ec, et, ew, er, eb, ep⟩ := hfields
  have hspare := h.spare hbr
  have hresidents := hacc.residents_eq hbr
  generalize hq : s.enqueue job context = q at *
  rcases q.ensureWorker_cases start with ⟨hidle, he⟩ | ⟨failure, -, he⟩ | ⟨-, hlt, he⟩
  · rw [he]
    refine ⟨?_, fun _ => ?_, fun _ => ?_⟩
    · change (q.workers.length : ℤ) ≤ q.capacity
      rw [ew, ec]
      exact h.workers_le
    · change (q.pending.length + q.running : ℤ) ≤ q.workers.length
      rw [ew, ec, er, ep] at *
      -- where the threads are as many as the bound, the residents are no more than that
      omega
    · change q.workers.length = q.threads.length ∧ ∀ worker ∈ q.threads, worker ≠ .returned
      rw [ew, et]
      exact ⟨hlength, hpresent⟩
  · rw [he, breakWith_of_unbroken q failure eb]
    refine ⟨?_, nofun, fun hne => absurd rfl hne⟩
    change (q.workers.length : ℤ) ≤ q.capacity
    rw [ew, ec]
    exact h.workers_le
  · rw [he]
    refine ⟨?_, fun _ => ?_, fun _ => ⟨?_, fun worker hmem => ?_⟩⟩
    · change ((q.workers ++ [q.threads.length]).length : ℤ) ≤ q.capacity
      rw [List.length_append, List.length_singleton]
      omega
    · change (q.pending.length + q.running : ℤ) ≤ (q.workers ++ [q.threads.length]).length
      rw [List.length_append, List.length_singleton, ew, er, ep]
      omega
    · change (q.workers ++ [q.threads.length]).length = (q.threads ++ [Worker.waiting]).length
      rw [List.length_append, List.length_append, ew, et, hlength]
      rfl
    · rcases List.mem_append.mp hmem with hmem | hmem
      · rw [et] at hmem
        exact hpresent worker hmem
      · rw [List.mem_singleton.mp hmem]
        nofun

theorem workerTakes (h : s.Staffed) (hok : s.WorkersOk) (worker : ℕ) :
    (s.workerTakes worker).Staffed := by
  rcases s.workerTakes_cases worker with ⟨admitted, rest, hbr, hp, he⟩ | ⟨hor, he⟩
  · rw [he]
    refine h.move worker (.calling admitted) nofun rfl rfl rfl
      (fun _ => by simp [hp]) fun _ => ⟨hbr, ?_⟩
    rw [hp, List.length_cons]
    change (rest.length + (s.running + 1) : ℤ) ≤ _
    omega
  · have hempty : s.pending = [] := hor.elim (fun hb => (hok.broken_empty hb).2) id
    rw [he]
    exact h.emptied rfl rfl hempty fun hb => ⟨hb, le_rfl⟩

theorem workerFinishes (h : s.Staffed) (worker : ℕ) (admitted : Admitted Job Ctx)
    (result : Except Fault Done) : (s.workerFinishes worker admitted result).Staffed := by
  rcases result with failure | completed
  · rcases s.workerFinishes_error_cases worker admitted failure with ⟨hb, he⟩ | ⟨hb, he⟩
    · rw [he]
      refine h.move worker .waiting nofun rfl rfl rfl id fun hnone => ?_
      rw [Option.isSome_iff_ne_none] at hb
      exact absurd hnone hb
    · rw [he]
      exact h.emptied rfl rfl rfl nofun
  · rw [workerFinishes_ok]
    refine h.move worker .waiting nofun rfl rfl rfl id fun hnone => ⟨hnone, ?_⟩
    change (s.pending.length + (s.running - 1) : ℤ) ≤ _
    omega

theorem taken (h : s.Staffed) (driver : ℕ) (ownedBy : Option (Ctx → Bool)) :
    (recordTaken driver (s.takeCompletionNowait ownedBy).1
      (s.takeCompletionNowait ownedBy).2).Staffed := by
  rcases s.takeCompletionNowait_cases ownedBy with ⟨completion, l₁, l₂, -, -, -, he⟩ | ⟨-, he⟩
  · rw [he]
    exact h.congr rfl rfl rfl rfl rfl rfl
  · rw [he]
    unfold noneUnlessBroken
    cases s.broken <;> exact h

/-- A `shutdown` call that returns forgets the threads, of which none is alive. -/
theorem shutdownEnd (hok : s.WorkersOk) {call : Shutdown} (hc : call ∈ s.joining)
    (hj : s.joined call = true) (joining : List Shutdown) :
    ({ s.shutdownEnd call with joining := joining } :
      ExecutionScheduler Job Ctx Done Fault).Staffed := by
  obtain ⟨hdead, -, -⟩ := hok.idle_of_joined hc hj
  have hrun := hok.running_eq
  have hcap := hok.capacity_pos
  rw [WorkersOk.calls_eq_nil hdead, List.length_nil] at hrun
  have hfields : (s.shutdownEnd call).capacity = s.capacity ∧ (s.shutdownEnd call).workers = [] ∧
      (s.shutdownEnd call).pending = [] ∧ (s.shutdownEnd call).running = s.running := by
    unfold ExecutionScheduler.shutdownEnd announceChange dropCompletions
    split_ifs <;> exact ⟨rfl, rfl, rfl, rfl⟩
  obtain ⟨ec, ew, ep, er⟩ := hfields
  refine ⟨?_, fun _ => ?_, fun hne => absurd ep hne⟩
  · change ((s.shutdownEnd call).workers.length : ℤ) ≤ (s.shutdownEnd call).capacity
    rw [ew, ec, List.length_nil]
    omega
  · change ((s.shutdownEnd call).pending.length + (s.shutdownEnd call).running : ℤ) ≤
      (s.shutdownEnd call).workers.length
    rw [ew, ep, er, hrun]
    rfl

/-- **Every section keeps the invariant of the staff.** -/
theorem step (h : s.Staffed) (hok : s.WorkersOk) (hacc : s.Accounted)
    {action : Action Job Ctx Done Fault} (hstep : ExecutionScheduler.step action s = some s') :
    s'.Staffed := by
  cases outcome_of_step hstep with
  | unchanged => exact h
  | admitJob job context start hopen hroom => exact h.admitJob hok hacc hopen hroom job context start
  | takes worker => exact h.workerTakes hok worker
  | finishes worker admitted result => exact h.workerFinishes worker admitted result
  | taken driver ownedBy => exact h.taken driver ownedBy
  | released ownedBy =>
    rw [releaseOwned_eq]
    exact h.congr rfl rfl rfl rfl rfl rfl
  | shutdownEnd call joining hc hj => exact shutdownEnd hok hc hj joining
  | cancelled | closed | shutdownBegin | discarded => exact h.congr rfl rfl rfl rfl rfl rfl

end Staffed

/-! ### Every queued job has a worker -/

theorem staffed_of_reachable {capacity : ℤ} {s₀ s : ExecutionScheduler Job Ctx Done Fault}
    (h0 : init capacity = some s₀) (h : Reachable step s₀ s) : s.Staffed := by
  refine h.invariant ?_ fun u a v hr hu _ hs =>
    hu.step (workersOk_of_reachable h0 hr) (accounted_of_reachable h0 hr) hs
  obtain ⟨hcap, rfl⟩ := init_eq h0
  refine ⟨?_, fun _ => le_rfl, fun hne => absurd rfl hne⟩
  change (0 : ℤ) ≤ capacity
  omega

/-- Threads of which none has returned wait or are inside a call. -/
theorem length_idle_add_calls (h : ∀ worker ∈ s.threads, worker ≠ .returned) :
    s.idle.length + s.calls.length = s.threads.length := by
  have key : ∀ threads : List (Worker Job Ctx), (∀ worker ∈ threads, worker ≠ .returned) →
      (threads.filter fun
        | .waiting => true
        | _ => false).length + (threads.filterMap Worker.call?).length = threads.length := by
    intro threads
    induction threads with
    | nil => exact fun _ => rfl
    | cons worker threads ih =>
      intro hall
      have hlength := ih fun w hw => hall w (List.mem_cons_of_mem _ hw)
      cases worker with
      | waiting =>
        simp only [List.filter_cons_of_pos, List.filterMap_cons, Worker.call?, List.length_cons]
        omega
      | calling admitted =>
        simp only [List.filter_cons, Bool.false_eq_true, if_false, List.filterMap_cons, Worker.call?,
          List.length_cons]
        omega
      | returned => exact absurd rfl (hall _ (List.mem_cons_self ..))
  exact key s.threads h

/-- The staff of an unbroken scheduler of bound `capacity` is enough. -/
structure Sufficient (capacity : ℤ) (s : ExecutionScheduler Job Ctx Done Fault) : Prop where
  workers_le : (s.workers.length : ℤ) ≤ capacity
  spare : (s.pending.length : ℤ) ≤ s.workers.length - s.running
  /-- Each queued job has a waiting thread of its own. -/
  own : s.pending.length ≤ s.idle.length

/-- **No queued job waits for another job's call.** In every unbroken state a scheduler reaches, the
threads started are within the bound, and those without a call are as many as the queued jobs. -/
theorem scheduler_staffed {capacity : ℤ} {s₀ s : ExecutionScheduler Job Ctx Done Fault}
    (h0 : init capacity = some s₀) (h : Reachable step s₀ s) (hbroken : s.broken = none) :
    s.Sufficient capacity := by
  have hstaffed := staffed_of_reachable h0 h
  have hrunning := (workersOk_of_reachable h0 h).running_eq
  have hspare := hstaffed.spare hbroken
  refine ⟨?_, by omega, ?_⟩
  · rw [← capacity_of_reachable h0 h]
    exact hstaffed.workers_le
  · rcases eq_or_ne s.pending [] with hempty | hqueued
    · rw [hempty]
      exact Nat.zero_le _
    · obtain ⟨hlength, hall⟩ := hstaffed.present hqueued
      have hthreads := length_idle_add_calls hall
      omega

theorem oneOfTwoRunning_sufficient : oneOfTwoRunning.Sufficient 2 := by
  have h0 : init 2 = some ({ capacity := 2 } : ExecutionScheduler ℕ ℕ ℕ ℕ) := by decide
  exact scheduler_staffed h0
    (.of_exec [.admitJob 10 20 none, .takeAdmitted 0, .admitJob 11 21 none]
      (fun _ _ => trivial) (by decide)) rfl

end DrExec.Scheduling.Scheduler.ExecutionScheduler
