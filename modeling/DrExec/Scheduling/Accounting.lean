import DrExec.Scheduling.Refinement

/-! # The scheduler's accounting

`_tokens` holds a token for exactly the tickets that are queued, running or buffered, and
`_residents` counts them, unless a break dropped some. `Accounted` is that invariant; that a ticket
is in one place only comes from the ledger. Each section keeps it (`Accounted.step`), and
`scheduler_accounting` reads off the bounds. -/

namespace DrExec.Scheduling.Scheduler

variable {Job Ctx Done Fault : Type}

namespace ExecutionScheduler

open DrExec.Lib.Transition DrExec.Lib.Lists

/-- How many queued jobs, running jobs, buffered completions and tokens a ticket has. -/
def pendingCount (s : ExecutionScheduler Job Ctx Done Fault) (t : ℕ) : ℕ :=
  (s.pending.map Admitted.ticket).count t

def runningCount (s : ExecutionScheduler Job Ctx Done Fault) (t : ℕ) : ℕ :=
  (s.calls.map Admitted.ticket).count t

def readyCount (s : ExecutionScheduler Job Ctx Done Fault) (t : ℕ) : ℕ :=
  (s.ready.map Completion.ticket).count t

def tokenCount (s : ExecutionScheduler Job Ctx Done Fault) (t : ℕ) : ℕ :=
  (s.tokens.map Prod.fst).count t

/-- **The accounting invariant.** -/
structure Accounted (s : ExecutionScheduler Job Ctx Done Fault) : Prop where
  keys : ∀ t, s.tokenCount t = s.pendingCount t + s.runningCount t + s.readyCount t
  residents_ge : (s.pending.length + s.running + s.ready.length : ℤ) ≤ s.residents
  residents_le : s.residents ≤ s.capacity
  residents_eq : s.broken = none → s.residents = s.pending.length + s.running + s.ready.length

/-! ### Counting what a section moved -/

variable {s s' : ExecutionScheduler Job Ctx Done Fault}

/-- The tickets running after one thread moved on. -/
theorem count_calls_set {threads : List (Worker Job Ctx)} {worker : ℕ} {old : Worker Job Ctx}
    (hw : threads[worker]? = some old) (new : Worker Job Ctx) (t : ℕ) :
    (old.call?.toList.map Admitted.ticket).count t +
        (((threads.set worker new).filterMap Worker.call?).map Admitted.ticket).count t =
      (new.call?.toList.map Admitted.ticket).count t +
        ((threads.filterMap Worker.call?).map Admitted.ticket).count t := by
  have h := ((filterMap_set_perm Worker.call? threads worker new old hw).map
    Admitted.ticket).count_eq t
  simpa only [List.map_append, List.count_append] using h

@[simp] theorem ledger_queuedCount (t : ℕ) : s.ledger.queuedCount t = s.pendingCount t := rfl

@[simp] theorem ledger_runningCount (t : ℕ) : s.ledger.runningCount t = s.runningCount t := by
  simp only [Ledger.runningCount, ledger, Multiset.map_coe, Multiset.coe_count, runningCount]

@[simp] theorem ledger_bufferedCount (t : ℕ) : s.ledger.bufferedCount t = s.readyCount t := rfl

/-- A ticket is queued, running or buffered once. -/
theorem count_le_one (hl : s.ledger.Ok) (t : ℕ) :
    s.pendingCount t + s.runningCount t + s.readyCount t ≤ 1 := by
  have := hl.count_le_one t
  simp only [ledger_queuedCount, ledger_runningCount, ledger_bufferedCount] at this
  omega

namespace Accounted

/-- A section that moves no ticket keeps the invariant. -/
theorem congr (h : s.Accounted) (hp : s'.pending = s.pending) (hy : s'.ready = s.ready)
    (hc : s'.calls = s.calls) (hk : s'.tokens = s.tokens) (hr : s'.residents = s.residents)
    (hg : s'.running = s.running) (hcap : s'.capacity = s.capacity)
    (hb : s'.broken = none → s.broken = none) : s'.Accounted := by
  constructor
  · intro t
    simpa only [pendingCount, runningCount, readyCount, tokenCount, hp, hy, hc, hk] using h.keys t
  · simpa only [hp, hy, hg, hr] using h.residents_ge
  · simpa only [hr, hcap] using h.residents_le
  · simpa only [hp, hy, hg, hr] using fun hbr => h.residents_eq (hb hbr)

/-- A job is queued under a fresh ticket. -/
theorem enqueue (h : s.Accounted) (hroom : s.residents < s.capacity) (job : Job) (context : Ctx) :
    (s.enqueue job context).Accounted := by
  obtain ⟨cancelled, he⟩ := s.enqueue_eq job context
  rw [he]
  have hge := h.residents_ge
  constructor
  · intro t
    have hk := h.keys t
    simp only [tokenCount, pendingCount, runningCount, calls, readyCount, List.map_append,
      List.map_cons, List.map_nil, List.count_append] at hk ⊢
    omega
  · simp only [List.length_append, List.length_singleton, Nat.cast_add, Nat.cast_one]
    omega
  · exact hroom
  · intro hb
    have := h.residents_eq hb
    simp only [List.length_append, List.length_singleton, Nat.cast_add, Nat.cast_one]
    omega

/-- The queued jobs and their tokens are dropped, in a broken scheduler. -/
theorem dropPending (h : s.Accounted) (hl : s.ledger.Ok) (failure : Fault) :
    ({ s with
      broken := some failure
      intakeClosed := true
      pending := []
      tokens := s.tokens.filter fun entry => entry.1 ∉ s.pending.map Admitted.ticket
      cancelled := (s.pending.map Admitted.cancellation).reverse ++ s.cancelled
      history := s.history ++ s.pending.map fun admitted => .dropped admitted.ticket } :
        ExecutionScheduler Job Ctx Done Fault).Accounted := by
  have hge := h.residents_ge
  constructor
  · intro t
    have hk := h.keys t
    have hone := count_le_one hl t
    simp only [tokenCount, pendingCount, runningCount, calls, readyCount, List.map_nil,
      List.count_nil, count_fst_filter_notMem] at hk hone ⊢
    split_ifs with hin
    · have := List.count_pos_iff.mpr hin; omega
    · have := List.count_eq_zero.mpr hin; omega
  · simp only [List.length_nil, Nat.cast_zero]
    omega
  · exact h.residents_le
  · simp

/-- A break drops every queued job and its token. -/
theorem breakWith (h : s.Accounted) (hl : s.ledger.Ok) (failure : Fault) :
    (s.breakWith failure).Accounted := by
  cases hb : s.broken with
  | some _ => rw [breakWith_of_broken s failure (by simp [hb])]; exact h
  | none => rw [breakWith_of_unbroken s failure hb]; exact h.dropPending hl failure

/-- Starting a worker moves no ticket; failing to start one breaks. -/
theorem ensureWorker (h : s.Accounted) (hl : s.ledger.Ok) (start : Option Fault) :
    (s.ensureWorker start).Accounted := by
  rcases s.ensureWorker_cases start with ⟨-, he⟩ | ⟨failure, -, he⟩ | ⟨-, -, he⟩
  · rw [he]; exact h
  · rw [he]; exact (h.breakWith hl failure).congr rfl rfl rfl rfl rfl rfl rfl id
  · rw [he]
    refine h.congr rfl rfl ?_ rfl rfl rfl rfl id
    simp [calls, Worker.call?]

/-- A thread takes the oldest queued job, or returns. -/
theorem workerTakes (h : s.Accounted) {worker : ℕ} (hw : s.threads[worker]? = some .waiting) :
    (s.workerTakes worker).Accounted := by
  rcases s.workerTakes_cases worker with ⟨admitted, rest, -, hp, he⟩ | ⟨-, he⟩
  · have hge := h.residents_ge
    rw [he]
    rw [hp, List.length_cons, Nat.cast_add, Nat.cast_one] at hge
    constructor
    · intro t
      have hk := h.keys t
      have hrun := count_calls_set hw (.calling admitted) t
      simp only [tokenCount, pendingCount, hp, runningCount, calls, readyCount, List.map_cons,
        List.count_cons, Worker.call?, Option.toList_none, Option.toList_some, List.map_nil,
        List.count_nil] at hk hrun ⊢
      omega
    · dsimp only; omega
    · exact h.residents_le
    · intro hb
      have := h.residents_eq hb
      rw [hp, List.length_cons, Nat.cast_add, Nat.cast_one] at this
      dsimp only; omega
  · rw [he]
    have hcalls : ∀ t, ((({ s with threads := s.threads.set worker .returned } :
        ExecutionScheduler Job Ctx Done Fault)).runningCount t) = s.runningCount t := by
      intro t
      simpa [runningCount, calls, Worker.call?] using count_calls_set hw .returned t
    constructor
    · intro t; rw [hcalls]; exact h.keys t
    · exact h.residents_ge
    · exact h.residents_le
    · exact h.residents_eq

/-- A call that raised leaves, in a scheduler that is broken or breaks. -/
theorem raised (h : s.Accounted) (hl : s.ledger.Ok) {worker : ℕ} {admitted : Admitted Job Ctx}
    (hw : s.threads[worker]? = some (.calling admitted)) (failure : Fault) :
    ({ s with
      running := s.running - 1
      broken := some failure
      tokens := s.tokens.filter fun entry => entry.1 ≠ admitted.ticket
      threads := s.threads.set worker .waiting
      history := s.history ++ [.raised admitted.ticket] } :
        ExecutionScheduler Job Ctx Done Fault).Accounted := by
  have hge := h.residents_ge
  constructor
  · intro t
    have hk := h.keys t
    have hone := count_le_one hl t
    have hrun := count_calls_set hw .waiting t
    simp only [tokenCount, pendingCount, runningCount, calls, readyCount, Worker.call?,
      Option.toList_none, Option.toList_some, List.map_cons, List.map_nil, List.count_nil,
      List.count_singleton, beq_iff_eq, count_fst_filter_ne, eq_comm (a := t)] at hk hone hrun ⊢
    split_ifs at hk hone hrun ⊢ <;> omega
  · dsimp only; omega
  · exact h.residents_le
  · simp

/-- A thread comes back: its job is buffered, or leaves with the break. -/
theorem workerFinishes (h : s.Accounted) (hl : s.ledger.Ok) {worker : ℕ}
    {admitted : Admitted Job Ctx} (hw : s.threads[worker]? = some (.calling admitted)) (result : Except Fault Done) :
    (s.workerFinishes worker admitted result).Accounted := by
  cases result with
  | ok completed =>
    rw [workerFinishes_ok]
    have hge := h.residents_ge
    constructor
    · intro t
      have hk := h.keys t
      have hrun := count_calls_set hw .waiting t
      simp only [tokenCount, pendingCount, runningCount, calls, readyCount, Worker.call?,
        Option.toList_none, Option.toList_some, List.map_append, List.map_cons, List.map_nil,
        List.count_append, List.count_nil] at hk hrun ⊢
      omega
    · simp only [List.length_append, List.length_singleton, Nat.cast_add, Nat.cast_one]
      omega
    · exact h.residents_le
    · intro hb
      have := h.residents_eq hb
      simp only [List.length_append, List.length_singleton, Nat.cast_add, Nat.cast_one]
      omega
  | error failure =>
    have hraised := h.raised hl hw failure
    have hfail := hl.move (.fail s.ledger admitted _ (coe_calls_end hw))
    rcases s.workerFinishes_error_cases worker admitted failure with ⟨hb, he⟩ | ⟨-, he⟩
    · rw [he]
      exact hraised.congr rfl rfl rfl rfl rfl rfl rfl (by simp [Option.isSome_iff_ne_none.mp hb])
    · rw [he]
      exact (hraised.dropPending hfail failure).congr rfl rfl rfl rfl rfl rfl rfl (by simp)

/-- A completion goes to the driver that takes it. -/
theorem taken (h : s.Accounted) (hl : s.ledger.Ok) (driver : ℕ) (ownedBy : Option (Ctx → Bool)) :
    (recordTaken driver (s.takeCompletionNowait ownedBy).1
      (s.takeCompletionNowait ownedBy).2).Accounted := by
  rcases s.takeCompletionNowait_cases ownedBy with ⟨completion, l₁, l₂, hy, -, -, he⟩ | ⟨-, he⟩
  · rw [he]
    have hge := h.residents_ge
    have hlen : s.ready.length = (l₁ ++ l₂).length + 1 := by rw [hy]; simp; omega
    have hcount : ∀ t, (s.ready.map Completion.ticket).count t =
        ((l₁ ++ l₂).map Completion.ticket).count t + if completion.ticket = t then 1 else 0 := by
      intro t
      rw [hy]
      simp only [List.map_append, List.map_cons, List.count_append, List.count_cons, beq_iff_eq]
      omega
    simp only [recordTaken, handOver, popToken, announceChange, record]
    constructor
    · intro t
      have hk := h.keys t
      have hone := count_le_one hl t
      simp only [tokenCount, pendingCount, runningCount, calls, readyCount, hcount,
        count_fst_filter_ne, eq_comm (a := t)] at hk hone ⊢
      split_ifs at hk hone ⊢ <;> omega
    · dsimp only; omega
    · have := h.residents_le; dsimp only; omega
    · intro hb
      have := h.residents_eq hb
      dsimp only; omega
  · rw [he]
    unfold noneUnlessBroken
    cases s.broken <;> exact h

/-- A departed driver's completions leave. -/
theorem releaseOwned (h : s.Accounted) (hl : s.ledger.Ok) (ownedBy : Ctx → Bool) :
    (s.releaseOwned ownedBy).Accounted := by
  rw [releaseOwned_eq]
  have hge := h.residents_ge
  have hlen := s.ready.length_eq_length_filter_add fun completion => ownedBy completion.context
  have hcount := fun t => count_map_filter_add
    (fun completion : Completion Ctx Done => ownedBy completion.context) Completion.ticket s.ready t
  constructor
  · intro t
    have hk := h.keys t
    have hone := count_le_one hl t
    have := hcount t
    simp only [tokenCount, pendingCount, runningCount, calls, readyCount,
      count_fst_filter_notMem] at hk hone ⊢
    split_ifs with hin
    · have := List.count_pos_iff.mpr hin; omega
    · have := List.count_eq_zero.mpr hin; omega
  · dsimp only; omega
  · have := h.residents_le; dsimp only; omega
  · intro hb
    have := h.residents_eq hb
    dsimp only; omega

/-- The buffered completions are discarded when nothing is queued and nothing runs. -/
theorem dropCompletions (hp : s.pending = []) (hc : s.calls = []) (hrun : s.running = 0)
    (hcap : 1 ≤ s.capacity) : s.dropCompletions.Accounted := by
  unfold ExecutionScheduler.dropCompletions
  constructor
  · intro t
    have hc' : s.threads.filterMap Worker.call? = [] := hc
    simp [tokenCount, pendingCount, hp, runningCount, calls, hc', readyCount]
  · simp [hp, hrun]
  · dsimp only; omega
  · simp [hp, hrun]

theorem shutdownEnd (h : s.Accounted) (hw : s.WorkersOk) {call : Shutdown} (hc : call ∈ s.joining)
    (hj : s.joined call = true) : (s.shutdownEnd call).Accounted := by
  obtain ⟨hdead, hp, -⟩ := hw.idle_of_joined hc hj
  have hcalls := WorkersOk.calls_eq_nil hdead
  have hrun := hw.running_eq
  rw [hcalls, List.length_nil, Nat.cast_zero] at hrun
  have hcleared : ({ s with workers := [], pending := [] } :
      ExecutionScheduler Job Ctx Done Fault).Accounted :=
    h.congr hp.symm rfl rfl rfl rfl rfl rfl id
  unfold ExecutionScheduler.shutdownEnd
  dsimp only
  split_ifs
  · exact hcleared.congr rfl rfl rfl rfl rfl rfl rfl id
  · have hdropped := dropCompletions (s := { s with workers := [], pending := [] }) rfl hcalls hrun
      hw.capacity_pos
    exact hdropped.congr rfl rfl rfl rfl rfl rfl rfl id

/-- **Every section keeps the accounting invariant.** -/
theorem step (h : s.Accounted) (hw : s.WorkersOk) (hl : s.ledger.Ok)
    {action : Action Job Ctx Done Fault} (hstep : ExecutionScheduler.step action s = some s') :
    s'.Accounted := by
  cases outcome_of_step hstep with
  | unchanged => exact h
  | admitJob job context start _ hroom =>
    have hl' := hl.move (s.ledger_enqueue job context)
    exact ((h.enqueue hroom job context).ensureWorker hl' start).congr rfl rfl rfl rfl rfl rfl rfl id
  | takes worker hthread => exact h.workerTakes hthread
  | finishes worker admitted result hthread => exact h.workerFinishes hl hthread result
  | taken driver ownedBy => exact h.taken hl driver ownedBy
  | released ownedBy => exact h.releaseOwned hl ownedBy
  | shutdownEnd call joining hc hj =>
    exact (h.shutdownEnd hw hc hj).congr rfl rfl rfl rfl rfl rfl rfl id
  | discarded hshut =>
    have hdead := (hw.shut hshut).2
    have hcalls := WorkersOk.calls_eq_nil hdead
    have hrun := hw.running_eq
    rw [hcalls, List.length_nil, Nat.cast_zero] at hrun
    exact (dropCompletions (hw.pending_eq_nil hdead) hcalls hrun hw.capacity_pos).congr rfl rfl rfl
      rfl rfl rfl rfl id
  | cancelled | closed | shutdownBegin => exact h.congr rfl rfl rfl rfl rfl rfl rfl id

end Accounted

/-- The accounting invariant holds in every state a scheduler reaches. -/
theorem accounted_of_reachable {capacity : ℤ} {s₀ s : ExecutionScheduler Job Ctx Done Fault}
    (h0 : init capacity = some s₀) (h : Reachable step s₀ s) : s.Accounted := by
  refine h.invariant ?_ fun u a v hr hu _ hs =>
    hu.step (workersOk_of_reachable h0 hr) (ledger_ok_of_reachable h0 hr) hs
  obtain ⟨hcap, rfl⟩ := init_eq h0
  constructor <;> simp [pendingCount, runningCount, calls, readyCount, tokenCount]
  omega

theorem capacity_of_reachable {capacity : ℤ} {s₀ s : ExecutionScheduler Job Ctx Done Fault}
    (h0 : init capacity = some s₀) (h : Reachable step s₀ s) : s.capacity = capacity := by
  refine h.invariant ?_ fun u a v _ hu _ hs => (capacity_step hs).trans hu
  rw [(init_eq h0).2]

/-- The tickets of queued, running and buffered work. -/
def liveTickets (s : ExecutionScheduler Job Ctx Done Fault) : List ℕ :=
  s.pending.map Admitted.ticket ++ s.calls.map Admitted.ticket ++ s.ready.map Completion.ticket

theorem count_liveTickets (s : ExecutionScheduler Job Ctx Done Fault) (t : ℕ) :
    s.liveTickets.count t = s.pendingCount t + s.runningCount t + s.readyCount t := by
  simp only [liveTickets, List.count_append, pendingCount, runningCount, readyCount]

/-- The books of a scheduler of bound `capacity` are in order. -/
structure Balanced (capacity : ℤ) (s : ExecutionScheduler Job Ctx Done Fault) : Prop where
  residents_nonneg : 0 ≤ s.residents
  residents_le : s.residents ≤ capacity
  /-- `_running` is the number of threads inside `run_blocking`. -/
  running_eq : s.running = s.calls.length
  /-- Discarding completions keeps this too, because it happens after the last thread returned. -/
  residents_eq : s.broken = none → s.residents = s.pending.length + s.running + s.ready.length
  tokens_nodup : (s.tokens.map Prod.fst).Nodup
  tokens_keys : ∀ t, t ∈ s.tokens.map Prod.fst ↔ t ∈ s.liveTickets
  tokens_keys_broken : s.broken.isSome → ∀ t, t ∈ s.tokens.map Prod.fst ↔
    t ∈ s.calls.map Admitted.ticket ++ s.ready.map Completion.ticket
  live_nodup : s.liveTickets.Nodup

/-- A token is kept for each live ticket. -/
theorem Accounted.mem_tokens_iff {s : ExecutionScheduler Job Ctx Done Fault} (h : s.Accounted)
    (t : ℕ) : t ∈ s.tokens.map Prod.fst ↔ t ∈ s.liveTickets := by
  rw [← List.count_pos_iff, ← List.count_pos_iff, s.count_liveTickets, ← h.keys t]
  rfl

/-- **The accounting of the scheduler.** In every state it reaches the books are in order. -/
theorem scheduler_accounting {capacity : ℤ} {s₀ s : ExecutionScheduler Job Ctx Done Fault}
    (h0 : init capacity = some s₀) (h : Reachable step s₀ s) : s.Balanced capacity := by
  have hacc := accounted_of_reachable h0 h
  have hw := workersOk_of_reachable h0 h
  have hcap := capacity_of_reachable h0 h
  have hl := ledger_ok_of_reachable h0 h
  have hkeys := hacc.mem_tokens_iff
  constructor
  · have := hacc.residents_ge
    have := hw.running_eq
    omega
  · rw [← hcap]; exact hacc.residents_le
  · exact hw.running_eq
  · exact hacc.residents_eq
  · refine List.nodup_iff_count_le_one.mpr fun t => ?_
    have := count_le_one hl t
    have hk := hacc.keys t
    unfold tokenCount at hk
    omega
  · exact hkeys
  · intro hb t
    rw [hkeys, liveTickets, (hw.broken_empty hb).2]
    rfl
  · refine List.nodup_iff_count_le_one.mpr fun t => ?_
    have := count_le_one hl t
    rw [s.count_liveTickets]
    omega

/-- Two jobs admitted under a bound of two, the first already running. -/
def oneOfTwoRunning : ExecutionScheduler ℕ ℕ ℕ ℕ where
  capacity := 2
  pending := [⟨1, 11, 21, ⟨1⟩⟩]
  tokens := [(0, ⟨0⟩), (1, ⟨1⟩)]
  workers := [0, 1]
  nextTicket := 2
  residents := 2
  running := 1
  announced := 2
  threads := [.calling ⟨0, 10, 20, ⟨0⟩⟩, .waiting]
  history := [.admitted 0 10 20, .called 0 10, .admitted 1 11 21]

theorem oneOfTwoRunning_balanced : oneOfTwoRunning.Balanced 2 := by
  have h0 : init 2 = some ({ capacity := 2 } : ExecutionScheduler ℕ ℕ ℕ ℕ) := by decide
  exact scheduler_accounting h0
    (.of_exec [.admitJob 10 20 none, .takeAdmitted 0, .admitJob 11 21 none]
      (fun _ _ => trivial) (by decide))

end ExecutionScheduler

end DrExec.Scheduling.Scheduler
