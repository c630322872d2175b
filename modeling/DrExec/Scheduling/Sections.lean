import DrExec.Scheduling.Scheduler
import Mathlib.Tactic

/-! # What each section of the scheduler changes

The loops of `_break`, `release_owned` and the cancelling methods in closed form, and for each
method the states it can end in. Proofs about the scheduler use these and do not unfold the methods.
-/

namespace DrExec.Scheduling.Scheduler.ExecutionScheduler

open DrExec.Lib.Lists

variable {Job Ctx Done Fault : Type} (s : ExecutionScheduler Job Ctx Done Fault)

/-! ### The loops -/

theorem foldl_dropQueued : ∀ (queued : List (Admitted Job Ctx))
    (s : ExecutionScheduler Job Ctx Done Fault), queued.foldl dropQueued s =
      { s with
        tokens := s.tokens.filter fun entry => entry.1 ∉ queued.map Admitted.ticket
        cancelled := (queued.map Admitted.cancellation).reverse ++ s.cancelled
        history := s.history ++ queued.map fun admitted => .dropped admitted.ticket }
  | [], s => by simp
  | admitted :: queued, s => by
    rw [List.foldl_cons, foldl_dropQueued queued]
    simp only [dropQueued, record, popToken, cancelToken, List.filter_filter, List.map_cons,
      List.mem_cons, not_or, List.reverse_cons, List.append_assoc, List.singleton_append,
      mk.injEq, and_true, true_and]
    refine List.filter_congr fun entry _ => ?_
    by_cases h : entry.1 = admitted.ticket <;> simp [h]

theorem foldl_releaseOne : ∀ (completions : List (Completion Ctx Done))
    (s : ExecutionScheduler Job Ctx Done Fault), completions.foldl releaseOne s =
      { s with
        tokens := s.tokens.filter fun entry => entry.1 ∉ completions.map Completion.ticket
        residents := s.residents - completions.length
        history := s.history ++ completions.map fun completion => .released completion.ticket }
  | [], s => by simp
  | completion :: completions, s => by
    rw [List.foldl_cons, foldl_releaseOne completions]
    simp only [releaseOne, record, popToken, List.filter_filter, List.map_cons, List.mem_cons,
      not_or, List.append_assoc, List.singleton_append, List.length_cons, Nat.cast_add,
      Nat.cast_one, mk.injEq, and_true, true_and]
    refine ⟨List.filter_congr fun entry _ => ?_, by omega⟩
    by_cases h : entry.1 = completion.ticket <;> simp [h]

theorem foldl_cancelToken : ∀ (tokens : List CancelToken)
    (s : ExecutionScheduler Job Ctx Done Fault),
    tokens.foldl cancelToken s = { s with cancelled := tokens.reverse ++ s.cancelled }
  | [], s => by simp
  | token :: tokens, s => by
    rw [List.foldl_cons, foldl_cancelToken tokens]
    simp [cancelToken]

/-! ### The methods -/

theorem breakWith_of_broken (failure : Fault) (h : s.broken.isSome) : s.breakWith failure = s := by
  simp [breakWith, h]

/-- **A break** drops every queued job. -/
theorem breakWith_of_unbroken (failure : Fault) (h : s.broken = none) : s.breakWith failure =
    { s with
      broken := some failure
      intakeClosed := true
      pending := []
      tokens := s.tokens.filter fun entry => entry.1 ∉ s.pending.map Admitted.ticket
      cancelled := (s.pending.map Admitted.cancellation).reverse ++ s.cancelled
      history := s.history ++ s.pending.map fun admitted => .dropped admitted.ticket } := by
  simp [breakWith, h, foldl_dropQueued]

/-- `_ensure_worker` finds enough workers, or breaks, or starts one. -/
theorem ensureWorker_cases (start : Option Fault) :
    (((s.pending.length : ℤ) ≤ s.workers.length - s.running ∨
        s.capacity ≤ s.workers.length) ∧ s.ensureWorker start = s) ∨
      (∃ failure, start = some failure ∧
        s.ensureWorker start = (s.breakWith failure).announceChange) ∨
      (start = none ∧ (s.workers.length : ℤ) < s.capacity ∧ s.ensureWorker start =
        { s with
          threads := s.threads ++ [.waiting]
          workers := s.workers ++ [s.threads.length] }) := by
  unfold ensureWorker
  dsimp only
  split_ifs with h
  · exact Or.inl ⟨h, rfl⟩
  · cases start with
    | some failure => exact Or.inr (Or.inl ⟨failure, rfl, rfl⟩)
    | none => exact Or.inr (Or.inr ⟨rfl, by simp only [ge_iff_le, not_or] at h; omega, rfl⟩)

/-- `admit` changes nothing, or queues the job and sees to a worker for it. -/
theorem admit_cases (job : Job) (context : Ctx) (start : Option Fault) :
    ((s.admitJob job context start).2 = s ∧ (s.admitJob job context start).1 ≠ .admitted) ∨
      (s.intakeClosed = false ∧ s.residents < s.capacity ∧
        (s.admitJob job context start).2 =
          ((s.enqueue job context).ensureWorker start).announceChange) := by
  unfold admitJob
  split_ifs with h h'
  · exact Or.inl ⟨rfl, by simp⟩
  · exact Or.inl ⟨rfl, by simp⟩
  · exact Or.inr ⟨by simpa using h, by omega, by dsimp only; split_ifs <;> rfl⟩

/-- **Taking**: a completion leaves the queue from where it stood, or nothing changes. -/
theorem takeCompletionNowait_cases (ownedBy : Option (Ctx → Bool)) :
    (∃ completion l₁ l₂, s.ready = l₁ ++ completion :: l₂ ∧
      (∀ owned, ownedBy = some owned → owned completion.context = true) ∧
      (∀ earlier ∈ l₁, ∃ owned, ownedBy = some owned ∧ owned earlier.context = false) ∧
      s.takeCompletionNowait ownedBy =
        (.ok (some completion), s.handOver completion (l₁ ++ l₂))) ∨
      ((∀ completion ∈ s.ready, ∃ owned, ownedBy = some owned ∧ owned completion.context = false) ∧
        s.takeCompletionNowait ownedBy = (s.noneUnlessBroken, s)) := by
  unfold takeCompletionNowait
  split
  · next h => exact Or.inr ⟨by simp [h], rfl⟩
  · next completion rest h =>
    exact Or.inl ⟨completion, [], rest, by simp [h], by simp, by simp, rfl⟩
  · next first rest owned h =>
    unfold takeReadyOwned
    cases htake : takeFirst (fun completion => owned completion.context) s.ready with
    | some found =>
      obtain ⟨completion, rest'⟩ := found
      obtain ⟨l₁, l₂, hl, rfl, hc, hpre⟩ := takeFirst_split htake
      exact Or.inl ⟨completion, l₁, l₂, hl, by simpa using hc,
        fun earlier he => ⟨owned, rfl, hpre earlier he⟩, rfl⟩
    | none =>
      exact Or.inr ⟨fun completion hc => ⟨owned, rfl, takeFirst_eq_none.mp htake completion hc⟩, rfl⟩

theorem releaseOwned_eq (ownedBy : Ctx → Bool) : s.releaseOwned ownedBy =
    { s with
      ready := s.ready.filter fun completion => !ownedBy completion.context
      tokens := s.tokens.filter fun entry => entry.1 ∉
        (s.ready.filter fun completion => ownedBy completion.context).map Completion.ticket
      residents := s.residents - (s.ready.filter fun completion => ownedBy completion.context).length
      history := s.history ++ (s.ready.filter fun completion => ownedBy completion.context).map
        fun completion => .released completion.ticket
      announced := s.announced + 1 } := by
  simp [releaseOwned, foldl_releaseOne, announceChange]

theorem cancelTokens_eq : s.cancelTokens =
    { s with cancelled := (s.tokens.map Prod.snd).reverse ++ s.cancelled } := by
  rw [cancelTokens, foldl_cancelToken]

/-- A worker that leaves its wait takes the oldest job, unless there is none or the scheduler is
broken. -/
theorem workerTakes_cases (worker : ℕ) :
    (∃ admitted rest, s.broken = none ∧ s.pending = admitted :: rest ∧ s.workerTakes worker =
      { s with
        running := s.running + 1
        pending := rest
        threads := s.threads.set worker (.calling admitted)
        history := s.history ++ [.called admitted.ticket admitted.job] }) ∨
      ((s.broken.isSome ∨ s.pending = []) ∧
        s.workerTakes worker = { s with threads := s.threads.set worker .returned }) := by
  unfold workerTakes takeAdmitted
  cases hb : s.broken with
  | some failure => exact Or.inr ⟨Or.inl rfl, by simp [hb]⟩
  | none =>
    cases hp : s.pending with
    | nil => exact Or.inr ⟨Or.inr rfl, by simp [hp, hb]⟩
    | cons admitted rest => exact Or.inl ⟨admitted, rest, rfl, rfl, by simp [record]⟩

/-- A worker whose `run_blocking` returned buffers the completion. -/
theorem workerFinishes_ok (worker : ℕ) (admitted : Admitted Job Ctx) (completed : Done) :
    s.workerFinishes worker admitted (.ok completed) =
      { s with
        running := s.running - 1
        ready := s.ready ++ [⟨admitted.ticket, completed, admitted.context⟩]
        threads := s.threads.set worker .waiting
        history := s.history ++ [.returned admitted.ticket completed]
        announced := s.announced + 1 } := rfl

/-- A worker whose `run_blocking` raised breaks the scheduler, unless it is already broken. -/
theorem workerFinishes_error_cases (worker : ℕ) (admitted : Admitted Job Ctx) (failure : Fault) :
    (s.broken.isSome ∧ s.workerFinishes worker admitted (.error failure) =
      { s with
        running := s.running - 1
        tokens := s.tokens.filter fun entry => entry.1 ≠ admitted.ticket
        threads := s.threads.set worker .waiting
        history := s.history ++ [.raised admitted.ticket]
        announced := s.announced + 1 }) ∨
      (s.broken = none ∧ s.workerFinishes worker admitted (.error failure) =
        { s with
          running := s.running - 1
          broken := some failure
          intakeClosed := true
          pending := []
          tokens := (s.tokens.filter fun entry => entry.1 ≠ admitted.ticket).filter
            fun entry => entry.1 ∉ s.pending.map Admitted.ticket
          cancelled := (s.pending.map Admitted.cancellation).reverse ++ s.cancelled
          threads := s.threads.set worker .waiting
          history := s.history ++ [.raised admitted.ticket] ++
            s.pending.map fun queued => .dropped queued.ticket
          announced := s.announced + 1 }) := by
  unfold workerFinishes finish
  cases hb : s.broken with
  | some broken =>
    refine Or.inl ⟨rfl, ?_⟩
    dsimp only
    rw [breakWith_of_broken _ _ (by simp [popToken, record])]
    rfl
  | none =>
    refine Or.inr ⟨rfl, ?_⟩
    dsimp only
    rw [breakWith_of_unbroken _ _ (by simp [popToken, record])]
    rfl

/-! ### The bound never changes -/

theorem capacity_breakWith (failure : Fault) : (s.breakWith failure).capacity = s.capacity := by
  cases hb : s.broken with
  | some _ => rw [breakWith_of_broken s failure (by simp [hb])]
  | none => rw [breakWith_of_unbroken s failure hb]

theorem capacity_ensureWorker (start : Option Fault) :
    (s.ensureWorker start).capacity = s.capacity := by
  rcases s.ensureWorker_cases start with ⟨-, he⟩ | ⟨failure, -, he⟩ | ⟨-, -, he⟩
  · rw [he]
  · rw [he]; exact s.capacity_breakWith failure
  · rw [he]

theorem capacity_takeCompletionNowait (driver : ℕ) (ownedBy : Option (Ctx → Bool)) :
    (recordTaken driver (s.takeCompletionNowait ownedBy).1
      (s.takeCompletionNowait ownedBy).2).capacity = s.capacity := by
  rcases s.takeCompletionNowait_cases ownedBy with ⟨completion, l₁, l₂, -, -, -, he⟩ | ⟨-, he⟩
  · rw [he]; rfl
  · rw [he]
    unfold noneUnlessBroken
    cases s.broken <;> rfl

/-! ### One section -/

/-- What one section does, where it can run. -/
inductive Outcome (s : ExecutionScheduler Job Ctx Done Fault) :
    ExecutionScheduler Job Ctx Done Fault → Prop
  | unchanged : Outcome s s
  | admitJob (job : Job) (context : Ctx) (start : Option Fault) : s.intakeClosed = false →
      s.residents < s.capacity →
      Outcome s ((s.enqueue job context).ensureWorker start).announceChange
  | takes (worker : ℕ) : s.threads[worker]? = some .waiting → s.takeAdmittedWait = true →
      Outcome s (s.workerTakes worker)
  | finishes (worker : ℕ) (admitted : Admitted Job Ctx) (result : Except Fault Done) :
      s.threads[worker]? = some (.calling admitted) →
      Outcome s (s.workerFinishes worker admitted result)
  | taken (driver : ℕ) (ownedBy : Option (Ctx → Bool)) :
      Outcome s (recordTaken driver (s.takeCompletionNowait ownedBy).1
        (s.takeCompletionNowait ownedBy).2)
  | released (ownedBy : Ctx → Bool) : Outcome s (s.releaseOwned ownedBy)
  | cancelled (expired : Bool) :
      Outcome s { s with
        expired := expired
        cancelled := (s.tokens.map Prod.snd).reverse ++ s.cancelled
        announced := s.announced + 1 }
  | closed : Outcome s s.closeIntake
  | shutdownBegin (preserveCompletions : Bool) : Outcome s (s.shutdownBegin preserveCompletions)
  | shutdownEnd (call : Shutdown) (joining : List Shutdown) : call ∈ s.joining →
      s.joined call = true → joining ⊆ s.joining →
      Outcome s { s.shutdownEnd call with joining := joining }
  | discarded : s.shutdownReturned = true → Outcome s s.discardCompletions

/-- **The sections of the scheduler**, case by case. -/
theorem outcome_of_step {s s' : ExecutionScheduler Job Ctx Done Fault}
    {action : Action Job Ctx Done Fault} (h : step action s = some s') : Outcome s s' := by
  cases action <;> simp only [step] at h
  case admitJob job context start =>
    cases h
    rcases s.admit_cases job context start with ⟨he, -⟩ | ⟨hopen, hroom, he⟩
    · rw [he]; exact .unchanged
    · rw [he]; exact .admitJob job context start hopen hroom
  case takeAdmitted worker =>
    split at h
    · next hw =>
      split_ifs at h with hwait
      cases h
      exact .takes worker hw hwait
    · cases h
  case finish worker result =>
    split at h
    · next admitted hw => cases h; exact .finishes worker admitted result hw
    · cases h
  case takeCompletionNowait driver ownedBy => cases h; exact .taken driver ownedBy
  case takeCompletion driver =>
    split_ifs at h
    cases h
    exact .taken driver none
  case releaseOwned ownedBy => cases h; exact .released ownedBy
  case cancelAll =>
    cases h
    rw [cancelAll, cancelTokens_eq]
    exact .cancelled s.expired
  case expire =>
    cases h
    rw [expire, cancelTokens_eq]
    exact .cancelled true
  case closeIntake => cases h; exact .closed
  case shutdownBegin preserveCompletions => cases h; exact .shutdownBegin preserveCompletions
  case shutdownEnd index =>
    split at h
    · next call hcall =>
      split_ifs at h with hj
      cases h
      exact .shutdownEnd call _ (List.mem_of_getElem? hcall) hj (List.eraseIdx_subset)
    · cases h
  case discardCompletions =>
    split_ifs at h with hshut
    cases h
    exact .discarded hshut

theorem capacity_step {s s' : ExecutionScheduler Job Ctx Done Fault}
    {action : Action Job Ctx Done Fault} (h : step action s = some s') :
    s'.capacity = s.capacity := by
  cases outcome_of_step h with
  | unchanged => rfl
  | admitJob job context start =>
    refine (capacity_ensureWorker _ start).trans ?_
    unfold enqueue record cancelToken
    dsimp only
    split_ifs <;> rfl
  | takes worker =>
    rcases s.workerTakes_cases worker with ⟨admitted, rest, -, -, he⟩ | ⟨-, he⟩ <;> rw [he]
  | finishes worker admitted result =>
    cases result with
    | ok completed => rfl
    | error failure =>
      rcases s.workerFinishes_error_cases worker admitted failure with ⟨-, he⟩ | ⟨-, he⟩ <;> rw [he]
  | taken driver ownedBy => exact s.capacity_takeCompletionNowait driver ownedBy
  | released ownedBy => rw [releaseOwned_eq]
  | shutdownEnd call joining =>
    unfold shutdownEnd
    dsimp only
    split_ifs <;> rfl
  | cancelled | closed | shutdownBegin | discarded => rfl

/-- A `shutdown` call that returned has returned. -/
theorem shutdownReturned_step {s s' : ExecutionScheduler Job Ctx Done Fault}
    {action : Action Job Ctx Done Fault} (h : step action s = some s')
    (hshut : s.shutdownReturned = true) : s'.shutdownReturned = true := by
  have hbreak : ∀ (u : ExecutionScheduler Job Ctx Done Fault) (failure : Fault),
      (u.breakWith failure).shutdownReturned = u.shutdownReturned := by
    intro u failure
    cases hb : u.broken with
    | some _ => rw [breakWith_of_broken u failure (by simp [hb])]
    | none => rw [breakWith_of_unbroken u failure hb]
  cases outcome_of_step h with
  | admitJob job context start =>
    have hq : (s.enqueue job context).shutdownReturned = true := by
      unfold enqueue record cancelToken
      dsimp only
      split_ifs <;> exact hshut
    rcases (s.enqueue job context).ensureWorker_cases start with ⟨-, he⟩ | ⟨failure, -, he⟩ | ⟨-, -, he⟩
    · rw [he]; exact hq
    · rw [he]; exact (hbreak _ failure).trans hq
    · rw [he]; exact hq
  | takes worker =>
    rcases s.workerTakes_cases worker with ⟨admitted, rest, -, -, he⟩ | ⟨-, he⟩ <;> rw [he] <;>
      exact hshut
  | finishes worker admitted result =>
    cases result with
    | ok completed => exact hshut
    | error failure =>
      rcases s.workerFinishes_error_cases worker admitted failure with ⟨-, he⟩ | ⟨-, he⟩ <;>
        rw [he] <;> exact hshut
  | taken driver ownedBy =>
    rcases s.takeCompletionNowait_cases ownedBy with ⟨completion, l₁, l₂, -, -, -, he⟩ | ⟨-, he⟩
    · rw [he]; exact hshut
    · rw [he]
      unfold noneUnlessBroken
      cases s.broken <;> exact hshut
  | released ownedBy => rw [releaseOwned_eq]; exact hshut
  | shutdownEnd call joining =>
    unfold shutdownEnd
    rfl
  | unchanged | cancelled | closed | shutdownBegin | discarded => exact hshut

end DrExec.Scheduling.Scheduler.ExecutionScheduler
