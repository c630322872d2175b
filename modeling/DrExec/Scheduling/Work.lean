import DrExec.Scheduling.Delivery

/-! # Work by context

How much resident work has a context that satisfies a predicate, and what each section of the
scheduler does to that number. Worker threads move work on and keep it; a driver that takes or
releases by one predicate leaves the work of every disjoint predicate alone. -/

namespace DrExec.Scheduling.Scheduler

variable {Job Ctx Done Fault : Type}

/-- The event admits a job or hands a completion to a driver. -/
def Event.routes : Event Job Ctx Done → Bool
  | .admitted _ _ _ => true
  | .delivered _ _ => true
  | _ => false

namespace ExecutionScheduler

open DrExec.Lib.Transition DrExec.Lib.Lists

variable {s s' : ExecutionScheduler Job Ctx Done Fault}

/-- The queued and running jobs whose context satisfies `p`. -/
def unfinished (p : Ctx → Bool) (s : ExecutionScheduler Job Ctx Done Fault) : ℕ :=
  s.pending.countP (fun admitted => p admitted.context) +
    s.calls.countP fun admitted => p admitted.context

/-- The buffered completions whose context satisfies `p`. -/
def finished (p : Ctx → Bool) (s : ExecutionScheduler Job Ctx Done Fault) : ℕ :=
  s.ready.countP fun completion => p completion.context

/-- The resident work whose context satisfies `p`. -/
def work (p : Ctx → Bool) (s : ExecutionScheduler Job Ctx Done Fault) : ℕ :=
  s.unfinished p + s.finished p

/-- The submissions that were admitted with a context that satisfies `p`, in their order. -/
def admissions (p : Ctx → Bool) (history : List (Event Job Ctx Done)) : List (ℕ × Job × Ctx) :=
  history.filterMap fun
    | .admitted ticket job context => if p context then some (ticket, job, context) else none
    | _ => none

/-- The completions a driver was handed, in their order. -/
def deliveries (driver : ℕ) (history : List (Event Job Ctx Done)) : List (Completion Ctx Done) :=
  history.filterMap fun
    | .delivered taker completion => if taker = driver then some completion else none
    | _ => none

/-- The calls that returned, with what they returned, in their order. -/
def returns (history : List (Event Job Ctx Done)) : List (ℕ × Done) :=
  history.filterMap fun
    | .returned ticket completed => some (ticket, completed)
    | _ => none

variable (p : Ctx → Bool)

theorem work_congr (hp : s'.pending = s.pending) (hc : s'.calls = s.calls) (hy : s'.ready = s.ready) :
    s'.work p = s.work p := by
  simp only [work, unfinished, finished, hp, hc, hy]

theorem admissions_append (history events : List (Event Job Ctx Done)) :
    admissions p (history ++ events) = admissions p history ++ admissions p events :=
  List.filterMap_append

theorem deliveries_append (driver : ℕ) (history events : List (Event Job Ctx Done)) :
    deliveries driver (history ++ events) = deliveries driver history ++ deliveries driver events :=
  List.filterMap_append

theorem returns_append (history events : List (Event Job Ctx Done)) :
    returns (history ++ events) = returns history ++ returns events := List.filterMap_append

theorem mem_deliveries {driver : ℕ} {history : List (Event Job Ctx Done)}
    {completion : Completion Ctx Done} :
    completion ∈ deliveries driver history ↔ .delivered driver completion ∈ history := by
  simp only [deliveries, List.mem_filterMap]
  constructor
  · rintro ⟨event, hmem, he⟩
    cases event <;> simp at he
    obtain ⟨rfl, rfl⟩ := he
    exact hmem
  · exact fun hmem => ⟨_, hmem, by simp⟩

theorem mem_admissions {history : List (Event Job Ctx Done)} {ticket : ℕ} {job : Job}
    {context : Ctx} : (ticket, job, context) ∈ admissions p history ↔
      .admitted ticket job context ∈ history ∧ p context = true := by
  simp only [admissions, List.mem_filterMap]
  constructor
  · rintro ⟨event, hmem, he⟩
    cases event <;> simp at he
    obtain ⟨hp, rfl, rfl, rfl⟩ := he
    exact ⟨hmem, hp⟩
  · exact fun ⟨hmem, hp⟩ => ⟨_, hmem, by simp [hp]⟩

/-- What one driver was handed is part of what all were. -/
theorem deliveries_sublist (driver : ℕ) : ∀ history : List (Event Job Ctx Done),
    ((deliveries driver history).map Completion.ticket).Sublist
      (history.filterMap Event.delivers)
  | [] => List.Sublist.slnil
  | event :: history => by
    have ih := deliveries_sublist driver history
    cases event with
    | delivered taker completion =>
      rw [List.filterMap_cons_some (f := Event.delivers) rfl]
      by_cases h : taker = driver
      · have : deliveries driver (.delivered taker completion :: history) =
            completion :: deliveries driver history := by simp [deliveries, h]
        rw [this, List.map_cons]
        exact ih.cons_cons _
      · have : deliveries driver (.delivered taker completion :: history) =
            deliveries driver history := by simp [deliveries, h]
        rw [this]
        exact ih.cons _
    | _ =>
      rw [List.filterMap_cons_none (f := Event.delivers) rfl]
      simpa [deliveries] using ih

theorem deliveries_delivered (driver taker : ℕ) (completion : Completion Ctx Done) :
    deliveries driver (s.record (.delivered taker completion)).history =
      deliveries driver s.history ++ if taker = driver then [completion] else [] := by
  simp only [record, deliveries_append, List.append_cancel_left_eq]
  split_ifs with h <;> simp [deliveries, h]

theorem admissions_delivered (taker : ℕ) (completion : Completion Ctx Done) :
    admissions p (s.record (.delivered taker completion)).history = admissions p s.history := by
  simp [record, admissions]

theorem admissions_admitted (ticket : ℕ) (job : Job) (context : Ctx) :
    admissions p (s.record (.admitted ticket job context)).history =
      admissions p s.history ++ if p context then [(ticket, job, context)] else [] := by
  simp only [record, admissions_append, List.append_cancel_left_eq]
  split_ifs with h <;> simp [admissions, h]

theorem deliveries_admitted (driver ticket : ℕ) (job : Job) (context : Ctx) :
    deliveries driver (s.record (.admitted ticket job context)).history =
      deliveries driver s.history := by
  simp [record, deliveries]

/-- The calls that satisfy a predicate, after one thread moved on. -/
theorem countP_calls_set {threads : List (Worker Job Ctx)} {worker : ℕ} {old : Worker Job Ctx}
    (hw : threads[worker]? = some old) (new : Worker Job Ctx) (q : Admitted Job Ctx → Bool) :
    old.call?.toList.countP q + ((threads.set worker new).filterMap Worker.call?).countP q =
      new.call?.toList.countP q + (threads.filterMap Worker.call?).countP q := by
  have h := (filterMap_set_perm Worker.call? threads worker new old hw).countP_eq q
  simpa only [List.countP_append] using h

/-! ### Worker threads -/

theorem work_workerTakes {worker : ℕ} (hw : s.threads[worker]? = some .waiting) :
    (s.workerTakes worker).work p = s.work p := by
  rcases s.workerTakes_cases worker with ⟨admitted, rest, -, hp, he⟩ | ⟨-, he⟩
  · have hcalls := countP_calls_set hw (.calling admitted) fun admitted => p admitted.context
    rw [he]
    simp only [work, unfinished, finished, calls, hp, List.countP_cons, Worker.call?,
      Option.toList_none, Option.toList_some, List.countP_nil] at hcalls ⊢
    omega
  · have hcalls := countP_calls_set hw .returned fun admitted => p admitted.context
    rw [he]
    simp only [work, unfinished, finished, calls, Worker.call?, Option.toList_none,
      List.countP_nil] at hcalls ⊢
    omega

theorem work_workerFinishes_ok {worker : ℕ} {admitted : Admitted Job Ctx}
    (hw : s.threads[worker]? = some (.calling admitted)) (completed : Done) :
    (s.workerFinishes worker admitted (.ok completed)).work p = s.work p := by
  have hcalls := countP_calls_set hw .waiting fun admitted => p admitted.context
  rw [workerFinishes_ok]
  simp only [work, unfinished, finished, calls, Worker.call?, Option.toList_none,
    Option.toList_some, List.countP_nil, List.countP_append, List.countP_cons] at hcalls ⊢
  omega

/-- A call that raises, with or without a break, loses work at most. -/
theorem work_workerFinishes_le {worker : ℕ} {admitted : Admitted Job Ctx}
    (hw : s.threads[worker]? = some (.calling admitted)) (result : Except Fault Done) :
    (s.workerFinishes worker admitted result).work p ≤ s.work p := by
  cases result with
  | ok completed => exact (work_workerFinishes_ok p hw completed).le
  | error failure =>
    have hcalls := countP_calls_set hw .waiting fun admitted => p admitted.context
    rcases s.workerFinishes_error_cases worker admitted failure with ⟨-, he⟩ | ⟨-, he⟩ <;> rw [he] <;>
      simp only [work, unfinished, finished, calls, Worker.call?, Option.toList_none,
        Option.toList_some, List.countP_nil, List.countP_cons] at hcalls ⊢ <;>
      omega

/-- **Worker threads** start nothing that was not queued. -/
theorem work_worker_le {action : Action Job Ctx Done Fault}
    (haction : (∃ worker, action = .takeAdmitted worker) ∨
      ∃ worker result, action = .finish worker result) (hstep : step action s = some s') :
    s'.work p ≤ s.work p := by
  rcases haction with ⟨worker, rfl⟩ | ⟨worker, result, rfl⟩ <;> simp only [step] at hstep
  · split at hstep
    · next hw =>
      split_ifs at hstep
      cases hstep
      exact (work_workerTakes p hw).le
    · cases hstep
  · split at hstep
    · next admitted hw => cases hstep; exact work_workerFinishes_le p hw result
    · cases hstep

/-- Worker threads that break nothing keep the work and the intake. -/
theorem work_worker_of_unbroken {action : Action Job Ctx Done Fault}
    (haction : (∃ worker, action = .takeAdmitted worker) ∨
      ∃ worker result, action = .finish worker result) (hstep : step action s = some s')
    (hb : s'.broken = none) : s'.work p = s.work p ∧ s'.intakeClosed = s.intakeClosed := by
  rcases haction with ⟨worker, rfl⟩ | ⟨worker, result, rfl⟩ <;> simp only [step] at hstep
  · split at hstep
    · next hw =>
      split_ifs at hstep
      cases hstep
      refine ⟨work_workerTakes p hw, ?_⟩
      rcases s.workerTakes_cases worker with ⟨admitted, rest, -, -, he⟩ | ⟨-, he⟩ <;> rw [he]
    · cases hstep
  · split at hstep
    · next admitted hw =>
      cases hstep
      cases result with
      | ok completed => exact ⟨work_workerFinishes_ok p hw completed, rfl⟩
      | error failure =>
        rcases s.workerFinishes_error_cases worker admitted failure with ⟨hbr, he⟩ | ⟨-, he⟩
        · rw [he] at hb
          change s.broken = none at hb
          simp [hb] at hbr
        · rw [he] at hb
          cases hb
    · cases hstep

/-! ### Drivers -/

/-- `admit` says it admitted only in an unbroken scheduler. -/
theorem broken_of_admitted (job : Job) (context : Ctx) (start : Option Fault)
    (h : (s.admitJob job context start).1 = .admitted) :
    (s.admitJob job context start).2.broken = none := by
  unfold admitJob at h ⊢
  split_ifs at h ⊢
  dsimp only at h ⊢
  split_ifs at h ⊢ with hb
  exact Option.not_isSome_iff_eq_none.mp hb

/-- A break drops queued work. -/
theorem work_breakWith_le (failure : Fault) : (s.breakWith failure).work p ≤ s.work p := by
  cases hb : s.broken with
  | some _ => rw [breakWith_of_broken s failure (by simp [hb])]
  | none =>
    rw [breakWith_of_unbroken s failure hb]
    simp only [work, unfinished, finished, calls, List.countP_nil]
    omega

theorem work_ensureWorker_le (start : Option Fault) : (s.ensureWorker start).work p ≤ s.work p := by
  rcases s.ensureWorker_cases start with ⟨-, he⟩ | ⟨failure, -, he⟩ | ⟨-, -, he⟩
  · rw [he]
  · rw [he]; exact work_breakWith_le p failure
  · rw [he]
    refine le_of_eq (work_congr (s := s) p rfl ?_ rfl)
    simp [calls, Worker.call?]

/-- An unbroken scheduler started a worker, or had one, and kept its work. -/
theorem work_ensureWorker_of_unbroken (start : Option Fault)
    (hb : (s.ensureWorker start).broken = none) : (s.ensureWorker start).work p = s.work p := by
  rcases s.ensureWorker_cases start with ⟨-, he⟩ | ⟨failure, -, he⟩ | ⟨-, -, he⟩
  · rw [he]
  · rw [he] at hb ⊢
    cases hbr : s.broken with
    | some _ => rw [breakWith_of_broken s failure (by simp [hbr])]; rfl
    | none =>
      change (s.breakWith failure).broken = none at hb
      rw [breakWith_of_unbroken s failure hbr] at hb
      cases hb
  · rw [he]
    exact work_congr (s := s) p rfl (by simp [calls, Worker.call?]) rfl

theorem work_enqueue (job : Job) (context : Ctx) :
    (s.enqueue job context).work p = s.work p + if p context then 1 else 0 := by
  obtain ⟨cancelled, he⟩ := s.enqueue_eq job context
  rw [he]
  simp only [work, unfinished, finished, calls, List.countP_append, List.countP_singleton]
  omega

/-- `admit` queues at most the job it was given. -/
theorem work_admit_le (job : Job) {context : Ctx} (hp : p context = false) (start : Option Fault) :
    (s.admitJob job context start).2.work p ≤ s.work p := by
  rcases s.admit_cases job context start with ⟨he, -⟩ | ⟨-, -, he⟩
  · rw [he]
  · have hq := work_enqueue (s := s) p job context
    rw [hp, if_neg Bool.false_ne_true, Nat.add_zero] at hq
    rw [he, ← hq]
    exact work_ensureWorker_le p start

/-- **An admitted job** is queued, and nothing else changes the work. -/
theorem work_admit_of_admitted (job : Job) (context : Ctx) (start : Option Fault)
    (h : (s.admitJob job context start).1 = .admitted) :
    (s.admitJob job context start).2.work p = s.work p + if p context then 1 else 0 := by
  have hb := broken_of_admitted job context start h
  rcases s.admit_cases job context start with ⟨-, hne⟩ | ⟨-, -, he⟩
  · exact absurd h hne
  · rw [he] at hb ⊢
    exact (work_ensureWorker_of_unbroken p start hb).trans (work_enqueue p job context)

theorem admit_of_noRoom (job : Job) (context : Ctx) (start : Option Fault)
    (h : (s.admitJob job context start).1 = .noRoom) : (s.admitJob job context start).2 = s := by
  unfold admitJob at h ⊢
  split_ifs at h ⊢
  · rfl
  · dsimp only at h
    split_ifs at h

/-- An unbroken scheduler that refuses for closed intake had closed it. -/
theorem admit_of_intakeClosed (job : Job) (context : Ctx) (start : Option Fault)
    (h : (s.admitJob job context start).1 = .intakeClosed)
    (hb : (s.admitJob job context start).2.broken = none) : s.intakeClosed = true := by
  unfold admitJob at h hb
  split_ifs at h hb with hclosed
  · exact hclosed
  · dsimp only at h hb
    split_ifs at h hb with hbroken
    exact absurd hb (Option.isSome_iff_ne_none.mp hbroken)

/-- `admit` closes the intake only with a break. -/
theorem intakeClosed_admitJob (job : Job) (context : Ctx) (start : Option Fault)
    (hb : (s.admitJob job context start).2.broken = none) :
    (s.admitJob job context start).2.intakeClosed = s.intakeClosed := by
  rcases s.admit_cases job context start with ⟨he, -⟩ | ⟨-, -, he⟩
  · rw [he]
  · rw [he] at hb ⊢
    obtain ⟨cancelled, hq⟩ := s.enqueue_eq job context
    have hopen : (s.enqueue job context).intakeClosed = s.intakeClosed := by rw [hq]
    rw [← hopen]
    rcases (s.enqueue job context).ensureWorker_cases start with
      ⟨-, he'⟩ | ⟨failure, -, he'⟩ | ⟨-, -, he'⟩
    · rw [he']; rfl
    · rw [he'] at hb ⊢
      cases hbr : (s.enqueue job context).broken with
      | some _ => rw [breakWith_of_broken _ failure (by simp [hbr])]; rfl
      | none =>
        change ((s.enqueue job context).breakWith failure).broken = none at hb
        rw [breakWith_of_unbroken _ failure hbr] at hb
        cases hb
    · rw [he']; rfl

/-- A driver that takes a completion takes it from the work of its predicate. -/
theorem work_taken (driver : ℕ) (ownedBy : Ctx → Bool) {completion : Completion Ctx Done}
    {s' : ExecutionScheduler Job Ctx Done Fault}
    (h : s.takeCompletionNowait (some ownedBy) = (.ok (some completion), s')) :
    ownedBy completion.context = true ∧
      s.work p = (s'.record (.delivered driver completion)).work p +
        if p completion.context then 1 else 0 := by
  rcases s.takeCompletionNowait_cases (some ownedBy) with
    ⟨c, l₁, l₂, hy, hown, -, he⟩ | ⟨-, he⟩
  · rw [h] at he
    cases he
    refine ⟨hown ownedBy rfl, ?_⟩
    simp only [work, unfinished, finished, calls, hy, record, handOver, announceChange, popToken,
      List.countP_append, List.countP_cons]
    omega
  · rw [h] at he
    unfold noneUnlessBroken at he
    split at he <;> cases he

/-- A driver that releases its completions keeps the work of every disjoint predicate. -/
theorem work_releaseOwned_of_disjoint (ownedBy : Ctx → Bool)
    (h : ∀ context, p context = true → ownedBy context = false) :
    (s.releaseOwned ownedBy).work p = s.work p := by
  rw [releaseOwned_eq]
  simp only [work, unfinished, finished, calls, List.countP_filter, Nat.add_left_cancel_iff]
  refine List.countP_congr fun completion _ => ?_
  by_cases hp : p completion.context = true
  · simp [hp, h _ hp]
  · simp [hp]

/-- A driver that releases its completions has only unfinished work left. -/
theorem releaseOwned_self :
    (s.releaseOwned p).unfinished p = s.unfinished p ∧ (s.releaseOwned p).finished p = 0 := by
  rw [releaseOwned_eq]
  refine ⟨rfl, ?_⟩
  simp [finished, List.countP_filter]

theorem work_releaseOwned_le (ownedBy : Ctx → Bool) : (s.releaseOwned ownedBy).work p ≤ s.work p := by
  rw [releaseOwned_eq]
  have := List.Sublist.countP_le (p := fun completion : Completion Ctx Done => p completion.context)
    (List.filter_sublist (p := fun completion => !ownedBy completion.context) (l := s.ready))
  simp only [work, unfinished, finished, calls] at this ⊢
  omega

theorem work_dropCompletions_le : s.dropCompletions.work p ≤ s.work p := by
  simp only [work, unfinished, finished, calls, dropCompletions, List.countP_nil]
  omega

theorem work_shutdownEnd_le (call : Shutdown) : (s.shutdownEnd call).work p ≤ s.work p := by
  unfold shutdownEnd dropCompletions announceChange
  split_ifs <;> simp only [work, unfinished, finished, calls, List.countP_nil] <;> omega

theorem intakeClosed_taken {ownedBy : Ctx → Bool} {taken : Option (Completion Ctx Done)}
    (h : s.takeCompletionNowait (some ownedBy) = (.ok taken, s')) :
    s'.intakeClosed = s.intakeClosed := by
  rcases s.takeCompletionNowait_cases (some ownedBy) with ⟨c, l₁, l₂, -, -, -, he⟩ | ⟨-, he⟩
  · rw [h] at he; cases he; rfl
  · rw [h] at he; rw [(Prod.mk.inj he).2]

/-- Taking writes no history: the driver does, when it has the completion. -/
theorem history_taken {ownedBy : Ctx → Bool} {taken : Option (Completion Ctx Done)}
    (h : s.takeCompletionNowait (some ownedBy) = (.ok taken, s')) : s'.history = s.history := by
  rcases s.takeCompletionNowait_cases (some ownedBy) with ⟨c, l₁, l₂, -, -, -, he⟩ | ⟨-, he⟩
  · rw [h] at he; cases he; rfl
  · rw [h] at he; rw [(Prod.mk.inj he).2]

/-! ### What the history routes -/

/-- A section added events to the history, none of which admits or delivers. -/
def Silent (s s' : ExecutionScheduler Job Ctx Done Fault) : Prop :=
  ∃ events, s'.history = s.history ++ events ∧ ∀ event ∈ events, event.routes = false

namespace Silent

theorem of_eq (h : s'.history = s.history) : s.Silent s' := ⟨[], by simp [h], by simp⟩

theorem admissions_eq (h : s.Silent s') : admissions p s'.history = admissions p s.history := by
  obtain ⟨events, he, hsilent⟩ := h
  rw [he, admissions_append]
  suffices admissions p events = [] by rw [this, List.append_nil]
  refine List.filterMap_eq_nil_iff.mpr fun event hmem => ?_
  have := hsilent event hmem
  cases event <;> simp_all [Event.routes]

theorem deliveries_eq (h : s.Silent s') (driver : ℕ) :
    deliveries driver s'.history = deliveries driver s.history := by
  obtain ⟨events, he, hsilent⟩ := h
  rw [he, deliveries_append]
  suffices deliveries driver events = [] by rw [this, List.append_nil]
  refine List.filterMap_eq_nil_iff.mpr fun event hmem => ?_
  have := hsilent event hmem
  cases event <;> simp_all [Event.routes]

theorem delivered_mem (h : s.Silent s') {driver : ℕ} {completion : Completion Ctx Done}
    (hm : .delivered driver completion ∈ s'.history) :
    .delivered driver completion ∈ s.history := by
  obtain ⟨events, he, hsilent⟩ := h
  rw [he] at hm
  rcases List.mem_append.mp hm with hm | hm
  · exact hm
  · cases hsilent _ hm

theorem trans {s'' : ExecutionScheduler Job Ctx Done Fault} (h : s.Silent s') (h' : s'.Silent s'') :
    s.Silent s'' := by
  obtain ⟨events, he, hs⟩ := h
  obtain ⟨events', he', hs'⟩ := h'
  refine ⟨events ++ events', by rw [he', he, List.append_assoc], fun event hmem => ?_⟩
  rcases List.mem_append.mp hmem with hmem | hmem
  · exact hs event hmem
  · exact hs' event hmem

theorem breakWith (s : ExecutionScheduler Job Ctx Done Fault) (failure : Fault) :
    s.Silent (s.breakWith failure) := by
  cases hb : s.broken with
  | some _ => rw [breakWith_of_broken s failure (by simp [hb])]; exact of_eq rfl
  | none =>
    rw [breakWith_of_unbroken s failure hb]
    refine ⟨_, rfl, fun event hmem => ?_⟩
    obtain ⟨admitted, -, rfl⟩ := List.mem_map.mp hmem
    rfl

theorem ensureWorker (s : ExecutionScheduler Job Ctx Done Fault) (start : Option Fault) :
    s.Silent (s.ensureWorker start) := by
  rcases s.ensureWorker_cases start with ⟨-, he⟩ | ⟨failure, -, he⟩ | ⟨-, -, he⟩
  · rw [he]; exact of_eq rfl
  · rw [he]; exact breakWith s failure
  · rw [he]; exact of_eq rfl

theorem workerTakes (s : ExecutionScheduler Job Ctx Done Fault) (worker : ℕ) :
    s.Silent (s.workerTakes worker) := by
  rcases s.workerTakes_cases worker with ⟨admitted, rest, -, -, he⟩ | ⟨-, he⟩
  · rw [he]
    exact ⟨[.called admitted.ticket admitted.job], rfl, by simp [Event.routes]⟩
  · rw [he]; exact of_eq rfl

theorem workerFinishes (s : ExecutionScheduler Job Ctx Done Fault) (worker : ℕ)
    (admitted : Admitted Job Ctx) (result : Except Fault Done) :
    s.Silent (s.workerFinishes worker admitted result) := by
  cases result with
  | ok completed =>
    rw [workerFinishes_ok]
    exact ⟨[.returned admitted.ticket completed], rfl, by simp [Event.routes]⟩
  | error failure =>
    rcases s.workerFinishes_error_cases worker admitted failure with ⟨-, he⟩ | ⟨-, he⟩
    · rw [he]
      exact ⟨[.raised admitted.ticket], rfl, by simp [Event.routes]⟩
    · rw [he]
      refine ⟨.raised admitted.ticket :: s.pending.map fun queued => .dropped queued.ticket,
        by simp, fun event hmem => ?_⟩
      rcases List.mem_cons.mp hmem with rfl | hmem
      · rfl
      · obtain ⟨queued, -, rfl⟩ := List.mem_map.mp hmem
        rfl

/-- Worker threads admit and deliver nothing. -/
theorem worker {action : Action Job Ctx Done Fault}
    (haction : (∃ worker, action = .takeAdmitted worker) ∨
      ∃ worker result, action = .finish worker result) (hstep : step action s = some s') :
    s.Silent s' := by
  rcases haction with ⟨worker, rfl⟩ | ⟨worker, result, rfl⟩ <;> simp only [step] at hstep
  · split at hstep
    · split_ifs at hstep
      cases hstep
      exact workerTakes s worker
    · cases hstep
  · split at hstep
    · next admitted _ => cases hstep; exact workerFinishes s worker admitted result
    · cases hstep

theorem releaseOwned (s : ExecutionScheduler Job Ctx Done Fault) (ownedBy : Ctx → Bool) :
    s.Silent (s.releaseOwned ownedBy) := by
  rw [releaseOwned_eq]
  refine ⟨_, rfl, fun event hmem => ?_⟩
  obtain ⟨completion, -, rfl⟩ := List.mem_map.mp hmem
  rfl

theorem dropCompletions (s : ExecutionScheduler Job Ctx Done Fault) : s.Silent s.dropCompletions := by
  refine ⟨_, rfl, fun event hmem => ?_⟩
  obtain ⟨completion, -, rfl⟩ := List.mem_map.mp hmem
  rfl

theorem shutdownEnd (s : ExecutionScheduler Job Ctx Done Fault) (call : Shutdown) :
    s.Silent (s.shutdownEnd call) := by
  unfold ExecutionScheduler.shutdownEnd
  dsimp only
  split_ifs
  · exact of_eq rfl
  · exact dropCompletions { s with workers := [], pending := [] }

end Silent

/-- A break leaves the buffer alone, and so does an admission. -/
theorem ready_breakWith (failure : Fault) : (s.breakWith failure).ready = s.ready := by
  cases hb : s.broken with
  | some _ => rw [breakWith_of_broken s failure (by simp [hb])]
  | none => rw [breakWith_of_unbroken s failure hb]

theorem ready_admitJob (job : Job) (context : Ctx) (start : Option Fault) :
    (s.admitJob job context start).2.ready = s.ready := by
  rcases s.admit_cases job context start with ⟨he, -⟩ | ⟨-, -, he⟩
  · rw [he]
  · obtain ⟨cancelled, hq⟩ := s.enqueue_eq job context
    rw [he]
    rcases (s.enqueue job context).ensureWorker_cases start with
      ⟨-, he⟩ | ⟨failure, -, he⟩ | ⟨-, -, he⟩
    · rw [he, hq]
      rfl
    · rw [he]
      refine (ready_breakWith failure).trans ?_
      rw [hq]
    · rw [he, hq]
      rfl

/-- An admitted job is recorded under the ticket that was next. -/
theorem history_admitJob (job : Job) (context : Ctx) (start : Option Fault) :
    s.Silent (s.admitJob job context start).2 ∨
      (s.record (.admitted s.nextTicket job context)).Silent (s.admitJob job context start).2 := by
  rcases s.admit_cases job context start with ⟨he, -⟩ | ⟨-, -, he⟩
  · rw [he]; exact Or.inl (.of_eq rfl)
  · rw [he]
    obtain ⟨cancelled, hq⟩ := s.enqueue_eq job context
    have hfirst : (s.record (.admitted s.nextTicket job context)).Silent (s.enqueue job context) := by
      rw [hq]; exact .of_eq rfl
    exact Or.inr (hfirst.trans (Silent.ensureWorker (s.enqueue job context) start))

theorem history_admit_of_admitted (job : Job) (context : Ctx) (start : Option Fault)
    (h : (s.admitJob job context start).1 = .admitted) :
    (s.record (.admitted s.nextTicket job context)).Silent (s.admitJob job context start).2 := by
  rcases s.admit_cases job context start with ⟨-, hne⟩ | ⟨-, -, he⟩
  · exact absurd h hne
  · rw [he]
    obtain ⟨cancelled, hq⟩ := s.enqueue_eq job context
    have hfirst : (s.record (.admitted s.nextTicket job context)).Silent (s.enqueue job context) := by
      rw [hq]; exact .of_eq rfl
    exact hfirst.trans (Silent.ensureWorker (s.enqueue job context) start)

/-! ### Running the worker threads -/

/-- The action is one of a worker thread. -/
def IsWorker (action : Action Job Ctx Done Fault) : Prop :=
  (∃ worker, action = .takeAdmitted worker) ∨ ∃ worker result, action = .finish worker result

/-- A thread inside `run_blocking` can come back with a completion. -/
theorem finishes_one {s : ExecutionScheduler Job Ctx Done Fault} (hc : s.calls ≠ [])
    (completed : Done) : ∃ worker s', step (.finish worker (.ok completed)) s = some s' ∧
      s'.pending = s.pending ∧ s'.calls.length + 1 = s.calls.length ∧ ∀ p, s'.work p = s.work p := by
  obtain ⟨admitted, hmem⟩ := List.exists_mem_of_ne_nil s.calls hc
  obtain ⟨thread, hthread, hcall⟩ := List.mem_filterMap.mp hmem
  obtain ⟨worker, hw⟩ := List.mem_iff_getElem?.mp hthread
  cases thread with
  | calling running =>
    cases hcall
    refine ⟨worker, s.workerFinishes worker admitted (.ok completed), by simp [step, hw], rfl, ?_,
      fun p => work_workerFinishes_ok p hw completed⟩
    have := (filterMap_set_perm Worker.call? s.threads worker .waiting _ hw).length_eq
    simp only [Worker.call?, Option.toList_some, Option.toList_none, List.length_append,
      List.length_nil] at this
    rw [workerFinishes_ok]
    simp only [calls]
    simp at this
    omega
  | waiting => cases hcall
  | returned => cases hcall

/-- A thread that waits can take the oldest queued job. -/
theorem takes_one {s : ExecutionScheduler Job Ctx Done Fault} (hok : s.WorkersOk)
    (hp : s.pending ≠ []) (hc : s.calls = []) : ∃ worker s', step (.takeAdmitted worker) s = some s' ∧
      s'.pending.length + 1 = s.pending.length ∧ s'.calls.length = 1 ∧ ∀ p, s'.work p = s.work p := by
  obtain ⟨worker, thread, hw, hne⟩ := hok.staffed hp
  have hwaiting : thread = .waiting := by
    cases thread with
    | waiting => rfl
    | returned => exact absurd rfl hne
    | calling admitted =>
      have : admitted ∈ s.calls := List.mem_filterMap.mpr ⟨_, List.mem_of_getElem? hw, rfl⟩
      simp [hc] at this
  subst hwaiting
  have hwait : s.takeAdmittedWait = true := by simp [takeAdmittedWait, hp]
  refine ⟨worker, s.workerTakes worker, by simp [step, hw, hwait], ?_⟩
  rcases s.workerTakes_cases worker with ⟨admitted, rest, -, hrest, he⟩ | ⟨hor, -⟩
  · have hlen := (filterMap_set_perm Worker.call? s.threads worker (.calling admitted) _ hw).length_eq
    have hcalls : (s.threads.filterMap Worker.call?).length = 0 := by
      rw [show s.threads.filterMap Worker.call? = [] from hc]; rfl
    simp only [Worker.call?, Option.toList_some, Option.toList_none, List.length_append,
      List.length_nil, List.length_singleton] at hlen
    refine ⟨?_, ?_, fun p => work_workerTakes p hw⟩
    · rw [he, hrest]; rfl
    · rw [he]
      simp only [calls]
      omega
  · rcases hor with hor | hor
    · exact absurd (hok.broken_empty hor).2 hp
    · exact absurd hor hp

/-- **Worker threads drain the queue.** From any state they can run until nothing is queued or
running, with every job finished and none lost. -/
theorem drains (completed : Done) : ∀ (n : ℕ) {s : ExecutionScheduler Job Ctx Done Fault},
    s.WorkersOk → 2 * s.pending.length + s.calls.length = n →
    ∃ s', Reach step (fun action _ => IsWorker action) s s' ∧ s'.pending = [] ∧ s'.calls = [] ∧
      ∀ p, s'.work p = s.work p := by
  intro n
  induction n using Nat.strong_induction_on with
  | _ n ih =>
    intro s hok hn
    by_cases hc : s.calls = []
    · by_cases hp : s.pending = []
      · exact ⟨s, .refl, hp, hc, fun _ => rfl⟩
      · obtain ⟨worker, s₁, hstep, hpending, hcalls, hwork⟩ := takes_one hok hp hc
        obtain ⟨s', hr, hp', hc', hwork'⟩ := ih (2 * s₁.pending.length + s₁.calls.length)
          (by rw [hc, List.length_nil] at hn; omega) (hok.step hstep) rfl
        have hone : Reach step (fun action _ => IsWorker action) s s₁ :=
          .single (Or.inl ⟨worker, rfl⟩) hstep
        exact ⟨s', hone.trans hr, hp', hc', fun p => (hwork' p).trans (hwork p)⟩
    · obtain ⟨worker, s₁, hstep, hpending, hcalls, hwork⟩ := finishes_one hc completed
      obtain ⟨s', hr, hp', hc', hwork'⟩ := ih (2 * s₁.pending.length + s₁.calls.length)
        (by rw [hpending]; omega) (hok.step hstep) rfl
      have hone : Reach step (fun action _ => IsWorker action) s s₁ :=
        .single (Or.inr ⟨worker, _, rfl⟩) hstep
      exact ⟨s', hone.trans hr, hp', hc', fun p => (hwork' p).trans (hwork p)⟩

end ExecutionScheduler

end DrExec.Scheduling.Scheduler
