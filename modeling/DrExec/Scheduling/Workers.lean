import DrExec.Scheduling.Sections

/-! # The worker threads of the scheduler

The invariant of the threads alone: while intake is open every thread started is alive and
registered; a queued job always has a thread that will come for it; a `shutdown` call joins every
thread that is alive. So when a `shutdown` call returns nothing is queued and nothing runs
(`WorkersOk.idle_of_joined`). -/

namespace DrExec.Scheduling.Scheduler.ExecutionScheduler

open DrExec.Lib.Transition DrExec.Lib.Lists

variable {Job Ctx Done Fault : Type}

/-- Thread `i` was started and has not returned. -/
def Alive (s : ExecutionScheduler Job Ctx Done Fault) (i : ℕ) : Prop :=
  ∃ worker, s.threads[i]? = some worker ∧ worker ≠ .returned

/-- **The invariant of the threads.** -/
structure WorkersOk (s : ExecutionScheduler Job Ctx Done Fault) : Prop where
  capacity_pos : 1 ≤ s.capacity
  running_eq : s.running = s.calls.length
  open_intake : s.intakeClosed = false →
    s.broken = none ∧ s.workers = List.range s.threads.length ∧ ∀ i < s.threads.length, s.Alive i
  registered : ∀ i, s.Alive i → i ∈ s.workers
  staffed : s.pending ≠ [] → ∃ i, s.Alive i
  broken_empty : s.broken.isSome → s.intakeClosed = true ∧ s.pending = []
  joining_all : ∀ call ∈ s.joining, s.intakeClosed = true ∧ ∀ i, s.Alive i → i ∈ call.workers
  shut : s.shutdownReturned = true → s.intakeClosed = true ∧ ∀ i, ¬ s.Alive i

namespace WorkersOk

variable {s s' : ExecutionScheduler Job Ctx Done Fault}

/-- A section that leaves the threads, the queue and the flags alone keeps the invariant. -/
theorem congr (h : s.WorkersOk) (hc : s'.capacity = s.capacity) (ht : s'.threads = s.threads)
    (hw : s'.workers = s.workers) (hp : s'.pending = s.pending) (hr : s'.running = s.running)
    (hi : s'.intakeClosed = s.intakeClosed) (hb : s'.broken = s.broken)
    (hj : s'.joining = s.joining) (hs : s'.shutdownReturned = s.shutdownReturned) :
    s'.WorkersOk := by
  have hlive : s'.Alive = s.Alive := by funext i; simp only [Alive, ht]
  constructor
  · rw [hc]; exact h.capacity_pos
  · simpa only [calls, hr, ht] using h.running_eq
  · simpa only [hi, hb, hw, ht, hlive] using h.open_intake
  · simpa only [hlive, hw] using h.registered
  · simpa only [hlive, hp] using h.staffed
  · simpa only [hb, hi, hp] using h.broken_empty
  · simpa only [hj, hi, hlive] using h.joining_all
  · simpa only [hs, hi, hlive] using h.shut

/-- Nothing runs once no thread is alive. -/
theorem calls_eq_nil (h : ∀ i, ¬ s.Alive i) : s.calls = [] := by
  simp only [calls, List.filterMap_eq_nil_iff]
  intro worker hw
  obtain ⟨i, hi⟩ := List.mem_iff_getElem?.mp hw
  cases worker with
  | waiting => rfl
  | returned => rfl
  | calling admitted => exact absurd ⟨_, hi, by simp⟩ (h i)

/-- Nothing is queued once no thread is alive. -/
theorem pending_eq_nil (hok : s.WorkersOk) (h : ∀ i, ¬ s.Alive i) : s.pending = [] := by
  by_contra hp
  obtain ⟨i, hi⟩ := hok.staffed hp
  exact h i hi

/-- The threads a finished join waited for are not alive. -/
theorem not_alive_of_joined {call : Shutdown} (hj : s.joined call = true) {i : ℕ}
    (hi : i ∈ call.workers) : ¬ s.Alive i := by
  rintro ⟨worker, hw, hne⟩
  have := List.all_eq_true.mp hj i hi
  rw [hw] at this
  cases worker <;> simp_all

/-- **What a `shutdown` call finds when it returns**: no thread alive, nothing queued. -/
theorem idle_of_joined (hok : s.WorkersOk) {call : Shutdown} (hc : call ∈ s.joining)
    (hj : s.joined call = true) : (∀ i, ¬ s.Alive i) ∧ s.pending = [] ∧ s.intakeClosed = true := by
  have hdead : ∀ i, ¬ s.Alive i := fun i hi =>
    not_alive_of_joined hj ((hok.joining_all call hc).2 i hi) hi
  exact ⟨hdead, hok.pending_eq_nil hdead, (hok.joining_all call hc).1⟩

/-- Closing intake keeps the invariant. -/
theorem close (h : s.WorkersOk) (hc : s'.capacity = s.capacity) (ht : s'.threads = s.threads)
    (hw : s'.workers = s.workers) (hp : s'.pending = s.pending ∨ s'.pending = [])
    (hr : s'.running = s.running) (hi : s'.intakeClosed = true)
    (hb : s'.broken = s.broken ∨ s'.pending = [])
    (hj : ∀ call ∈ s'.joining, call ∈ s.joining ∨ call.workers = s.workers)
    (hs : s'.shutdownReturned = s.shutdownReturned) : s'.WorkersOk := by
  have hlive : s'.Alive = s.Alive := by funext i; simp only [Alive, ht]
  constructor
  · rw [hc]; exact h.capacity_pos
  · simpa only [calls, hr, ht] using h.running_eq
  · simp [hi]
  · simpa only [hlive, hw] using h.registered
  · intro hne
    rw [hlive]
    exact h.staffed (by rcases hp with hp | hp <;> simp_all)
  · intro hbr
    refine ⟨hi, ?_⟩
    rcases hb with hb | hb
    · rcases hp with hp | hp
      · rw [hp]; exact (h.broken_empty (by rwa [← hb])).2
      · exact hp
    · exact hb
  · intro call hcall
    refine ⟨hi, fun i hlv => ?_⟩
    rw [hlive] at hlv
    rcases hj call hcall with hcall | hcall
    · exact (h.joining_all call hcall).2 i hlv
    · rw [hcall]; exact h.registered i hlv
  · intro hsr
    rw [hlive]
    exact ⟨hi, (h.shut (by rwa [← hs])).2⟩

theorem breakWith (h : s.WorkersOk) (failure : Fault) : (s.breakWith failure).WorkersOk := by
  cases hb : s.broken with
  | some _ => rw [breakWith_of_broken s failure (by simp [hb])]; exact h
  | none =>
    rw [breakWith_of_unbroken s failure hb]
    exact h.close rfl rfl rfl (Or.inr rfl) rfl rfl (Or.inr rfl) (fun call hc => Or.inl hc) rfl

/-- Queueing a job and seeing to a worker for it keeps the invariant. -/
theorem enqueue (h : s.WorkersOk) (hopen : s.intakeClosed = false) (job : Job) (context : Ctx)
    (start : Option Fault) : ((s.enqueue job context).ensureWorker start).WorkersOk := by
  obtain ⟨hbr, hwk, hal⟩ := h.open_intake hopen
  have hcap := h.capacity_pos
  have hrun := h.running_eq
  have hfields : (s.enqueue job context).capacity = s.capacity ∧
      (s.enqueue job context).threads = s.threads ∧ (s.enqueue job context).workers = s.workers ∧
      (s.enqueue job context).running = s.running ∧
      (s.enqueue job context).intakeClosed = false ∧ (s.enqueue job context).broken = none ∧
      (s.enqueue job context).joining = s.joining ∧
      (s.enqueue job context).shutdownReturned = s.shutdownReturned ∧
      (s.enqueue job context).pending.length = s.pending.length + 1 := by
    unfold ExecutionScheduler.enqueue record cancelToken
    dsimp only
    split_ifs <;> simp [hopen, hbr]
  obtain ⟨ec, et, ew, er, ei, eb, ej, es, ep⟩ := hfields
  generalize hq : s.enqueue job context = q at *
  have hlive : q.Alive = s.Alive := by funext i; simp only [Alive, et]
  -- with at least one thread the queue is staffed
  have hstaffed : ∀ {i}, q.Alive i → q.WorkersOk := by
    intro i hi
    constructor
    · rw [ec]; exact hcap
    · simpa only [calls, er, et] using hrun
    · intro _; exact ⟨eb, by rw [ew, et]; exact hwk, by rw [et, hlive]; exact hal⟩
    · rw [hlive, ew]; exact h.registered
    · exact fun _ => ⟨i, hi⟩
    · simp [eb]
    · intro call hcall
      rw [ej] at hcall
      exact absurd (h.joining_all call hcall).1 (by simp [hopen])
    · intro hsr
      rw [es] at hsr
      exact absurd (h.shut hsr).1 (by simp [hopen])
  rcases q.ensureWorker_cases start with ⟨hidle, he⟩ | ⟨failure, -, he⟩ | ⟨-, -, he⟩
  · rw [he]
    have hlen : 0 < s.threads.length := by
      have : s.workers.length = s.threads.length := by rw [hwk, List.length_range]
      rw [ew, ec, er] at hidle
      omega
    exact hstaffed (by rw [hlive]; exact hal 0 hlen)
  · rw [he, breakWith_of_unbroken q failure eb]
    refine h.close ec et ew (Or.inr rfl) er rfl (Or.inr rfl) (fun call hc => Or.inl ?_) es
    simpa only [announceChange, ej] using hc
  · rw [he]
    have hnew : ∀ i, (∃ worker, (q.threads ++ [.waiting])[i]? = some worker ∧ worker ≠ .returned) ↔
        i < q.threads.length + 1 := by
      intro i
      rcases Nat.lt_trichotomy i q.threads.length with hi | hi | hi
      · have hlt := hal i (by rw [← et]; exact hi)
        rw [← hlive] at hlt
        rw [List.getElem?_append_left hi]
        exact ⟨fun _ => by omega, fun _ => hlt⟩
      · subst hi; simp
      · rw [List.getElem?_eq_none (by simp; omega)]
        simp; omega
    constructor
    · rw [ec]; exact hcap
    · simpa only [calls, er, et, List.filterMap_append, List.filterMap_cons, Worker.call?,
        List.filterMap_nil, List.append_nil] using hrun
    · intro _
      refine ⟨eb, ?_, fun i hi => (hnew i).mpr (by simpa using hi)⟩
      simp [ew, hwk, et, List.range_succ]
    · intro i hi
      have := (hnew i).mp hi
      simp only [ew, hwk, et, List.mem_append, List.mem_range, List.mem_singleton]
      rw [et] at this
      omega
    · exact fun _ => ⟨q.threads.length, (hnew _).mpr (by omega)⟩
    · simp [eb]
    · intro call hcall
      rw [ej] at hcall
      exact absurd (h.joining_all call hcall).1 (by simp [hopen])
    · intro hsr
      rw [es] at hsr
      exact absurd (h.shut hsr).1 (by simp [hopen])

/-- Overwriting a thread changes only whether that thread is alive. -/
theorem alive_set {worker : ℕ} {old new : Worker Job Ctx} (hw : s.threads[worker]? = some old)
    (ht : s'.threads = s.threads.set worker new) (i : ℕ) :
    s'.Alive i ↔ if i = worker then new ≠ .returned else s.Alive i := by
  obtain ⟨hlt, -⟩ := List.getElem?_eq_some_iff.mp hw
  by_cases hi : i = worker
  · subst hi
    simp [Alive, ht, hlt]
  · rw [if_neg hi]
    simp only [Alive, ht, List.getElem?_set_ne (Ne.symm hi)]

/-- A section in which one thread moves on, the queue loses at most its first job, and the rest
stays. -/
theorem move (h : s.WorkersOk) {worker : ℕ} {old : Worker Job Ctx}
    (hw : s.threads[worker]? = some old) (hold : old ≠ .returned) (new : Worker Job Ctx)
    (ht : s'.threads = s.threads.set worker new)
    (hnew : new = .returned → s.intakeClosed = true ∧ s'.pending = [])
    (hr : s'.running - (new.call?.toList.length : ℤ) = s.running - (old.call?.toList.length : ℤ))
    (hc : s'.capacity = s.capacity) (hwk : s'.workers = s.workers)
    (hp : s.pending = [] → s'.pending = [])
    (hi : s'.intakeClosed = s.intakeClosed) (hb : s'.broken = s.broken)
    (hj : s'.joining = s.joining) (hs : s'.shutdownReturned = s.shutdownReturned) :
    s'.WorkersOk := by
  have hal := alive_set hw ht
  have hsub : ∀ i, s'.Alive i → s.Alive i := by
    intro i hi
    rw [hal] at hi
    split_ifs at hi with he
    · subst he; exact ⟨old, hw, hold⟩
    · exact hi
  have hcalls := (filterMap_set_perm Worker.call? s.threads worker new old hw).length_eq
  simp only [List.length_append] at hcalls
  constructor
  · rw [hc]; exact h.capacity_pos
  · have := h.running_eq
    simp only [calls, ht] at this ⊢
    omega
  · rw [hi]
    intro hopen
    obtain ⟨hbr, hwl, hall⟩ := h.open_intake hopen
    refine ⟨by rw [hb, hbr], by rw [hwk, hwl, ht, List.length_set], fun i hlt => ?_⟩
    rw [ht, List.length_set] at hlt
    rw [hal]
    split_ifs with he
    · intro hret; rw [(hnew hret).1] at hopen; cases hopen
    · exact hall i hlt
  · intro i hlv; rw [hwk]; exact h.registered i (hsub i hlv)
  · intro hne
    refine ⟨worker, ?_⟩
    rw [hal, if_pos rfl]
    exact fun hret => hne (hnew hret).2
  · rw [hb, hi]
    exact fun hbr => ⟨(h.broken_empty hbr).1, hp (h.broken_empty hbr).2⟩
  · rw [hj, hi]
    exact fun call hcall => ⟨(h.joining_all call hcall).1,
      fun i hlv => (h.joining_all call hcall).2 i (hsub i hlv)⟩
  · rw [hs, hi]
    exact fun hsr => ⟨(h.shut hsr).1, fun i hlv => (h.shut hsr).2 i (hsub i hlv)⟩

theorem workerTakes (h : s.WorkersOk) {worker : ℕ} (hw : s.threads[worker]? = some .waiting)
    (hwait : s.takeAdmittedWait = true) : (s.workerTakes worker).WorkersOk := by
  rcases s.workerTakes_cases worker with ⟨admitted, rest, hbr, hp, he⟩ | ⟨hor, he⟩
  · rw [he]
    refine h.move hw (by simp) (.calling admitted) rfl (by simp) ?_ rfl rfl ?_ rfl rfl rfl rfl
    · simp [Worker.call?]
    · intro hnil; rw [hp] at hnil; cases hnil
  · rw [he]
    have hempty : s.pending = [] := by
      rcases hor with hor | hor
      · exact (h.broken_empty hor).2
      · exact hor
    refine h.move hw (by simp) .returned rfl (fun _ => ⟨?_, hempty⟩) rfl rfl rfl id rfl rfl
      rfl rfl
    simp only [takeAdmittedWait, hempty, List.isEmpty_nil, Bool.not_true, Bool.false_or,
      Bool.or_eq_true] at hwait
    rcases hwait with hwait | hwait
    · exact hwait
    · exact (h.broken_empty hwait).1

theorem workerFinishes (h : s.WorkersOk) {worker : ℕ} {admitted : Admitted Job Ctx}
    (hw : s.threads[worker]? = some (.calling admitted)) (result : Except Fault Done) :
    (s.workerFinishes worker admitted result).WorkersOk := by
  cases result with
  | ok completed =>
    rw [workerFinishes_ok]
    exact h.move hw (by simp) .waiting rfl (by simp) (by simp [Worker.call?]) rfl rfl id
      rfl rfl rfl rfl
  | error failure =>
    have hmoved : ({ s with running := s.running - 1, threads := s.threads.set worker .waiting } :
        ExecutionScheduler Job Ctx Done Fault).WorkersOk :=
      h.move hw (by simp) .waiting rfl (by simp) (by simp [Worker.call?]) rfl rfl id rfl rfl
        rfl rfl
    rcases s.workerFinishes_error_cases worker admitted failure with ⟨-, he⟩ | ⟨-, he⟩
    · rw [he]
      exact hmoved.congr rfl rfl rfl rfl rfl rfl rfl rfl rfl
    · rw [he]
      exact hmoved.close rfl rfl rfl (Or.inr rfl) rfl rfl (Or.inr rfl) (fun call hc => Or.inl hc) rfl

/-- Taking a completion leaves the threads alone. -/
theorem taken (h : s.WorkersOk) (driver : ℕ) (ownedBy : Option (Ctx → Bool)) :
    (recordTaken driver (s.takeCompletionNowait ownedBy).1
      (s.takeCompletionNowait ownedBy).2).WorkersOk := by
  rcases s.takeCompletionNowait_cases ownedBy with ⟨completion, l₁, l₂, -, -, -, he⟩ | ⟨-, he⟩
  · rw [he]
    exact h.congr rfl rfl rfl rfl rfl rfl rfl rfl rfl
  · rw [he]
    unfold noneUnlessBroken
    cases s.broken <;> exact h

/-- A `shutdown` call that returns leaves nothing queued and no thread alive. -/
theorem shutdownEnd (h : s.WorkersOk) {call : Shutdown} (hc : call ∈ s.joining)
    (hj : s.joined call = true) (joining : List Shutdown) :
    ({ s.shutdownEnd call with joining := joining } :
      ExecutionScheduler Job Ctx Done Fault).WorkersOk := by
  obtain ⟨hdead, hp, hclosed⟩ := h.idle_of_joined hc hj
  have hthreads : (s.shutdownEnd call).threads = s.threads := by
    unfold ExecutionScheduler.shutdownEnd announceChange dropCompletions
    split_ifs <;> rfl
  have hdead' : ∀ i, ¬ ({ s.shutdownEnd call with joining := joining } :
      ExecutionScheduler Job Ctx Done Fault).Alive i := by
    simpa only [Alive, hthreads] using hdead
  have hcap := h.capacity_pos
  have hrun := h.running_eq
  rw [calls_eq_nil hdead] at hrun
  constructor
  · unfold ExecutionScheduler.shutdownEnd announceChange dropCompletions
    split_ifs <;> exact hcap
  · rw [calls_eq_nil hdead']
    unfold ExecutionScheduler.shutdownEnd announceChange dropCompletions
    split_ifs <;> exact hrun
  · unfold ExecutionScheduler.shutdownEnd announceChange dropCompletions
    split_ifs <;> simp [hclosed]
  · exact fun i hi => absurd hi (hdead' i)
  · unfold ExecutionScheduler.shutdownEnd announceChange dropCompletions
    split_ifs <;> simp
  · unfold ExecutionScheduler.shutdownEnd announceChange dropCompletions
    split_ifs <;> exact fun _ => ⟨hclosed, rfl⟩
  · intro c _
    refine ⟨?_, fun i hi => absurd hi (hdead' i)⟩
    unfold ExecutionScheduler.shutdownEnd announceChange dropCompletions
    split_ifs <;> exact hclosed
  · intro _
    refine ⟨?_, hdead'⟩
    unfold ExecutionScheduler.shutdownEnd announceChange dropCompletions
    split_ifs <;> exact hclosed

/-- **Every section keeps the invariant of the threads.** -/
theorem step (h : s.WorkersOk) {action : Action Job Ctx Done Fault}
    (hstep : ExecutionScheduler.step action s = some s') : s'.WorkersOk := by
  cases outcome_of_step hstep with
  | unchanged => exact h
  | admitJob job context start hopen =>
    exact (h.enqueue hopen job context start).congr rfl rfl rfl rfl rfl rfl rfl rfl rfl
  | takes worker hw hwait => exact h.workerTakes hw hwait
  | finishes worker admitted result hw => exact h.workerFinishes hw result
  | taken driver ownedBy => exact h.taken driver ownedBy
  | released ownedBy =>
    rw [releaseOwned_eq]
    exact h.congr rfl rfl rfl rfl rfl rfl rfl rfl rfl
  | closed =>
    exact h.close rfl rfl rfl (Or.inl rfl) rfl rfl (Or.inl rfl) (fun call hc => Or.inl hc) rfl
  | shutdownBegin preserveCompletions =>
    refine h.close rfl rfl rfl (Or.inl rfl) rfl rfl (Or.inl rfl) (fun call hc => ?_) rfl
    rcases List.mem_append.mp hc with hc | hc
    · exact Or.inl hc
    · rw [List.mem_singleton] at hc; subst hc; exact Or.inr rfl
  | shutdownEnd call joining hc hj => exact h.shutdownEnd hc hj joining
  | cancelled | discarded => exact h.congr rfl rfl rfl rfl rfl rfl rfl rfl rfl

end WorkersOk

/-- A new scheduler: intake is open and everything is empty. -/
theorem init_eq {capacity : ℤ} {s₀ : ExecutionScheduler Job Ctx Done Fault}
    (h0 : init capacity = some s₀) : 1 ≤ capacity ∧ s₀ = { capacity := capacity } := by
  unfold init at h0
  split_ifs at h0 with hcap
  cases h0
  exact ⟨by omega, rfl⟩

/-- The invariant of the threads holds in every state a scheduler reaches. -/
theorem workersOk_of_reachable {capacity : ℤ} {s₀ s : ExecutionScheduler Job Ctx Done Fault}
    (h0 : init capacity = some s₀) (h : Reachable step s₀ s) : s.WorkersOk := by
  refine h.invariant ?_ fun u a v _ hu _ hs => hu.step hs
  obtain ⟨hcap, rfl⟩ := init_eq h0
  constructor <;> simp [calls, Alive, hcap]

end DrExec.Scheduling.Scheduler.ExecutionScheduler
