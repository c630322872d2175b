import DrExec.Scheduling.Accounting

/-! # Exactly once

Every admitted ticket is in one place (`partition_of_reachable`): queued, running, buffered, or gone
by one exit. With the origins the ledger keeps, a ticket is called at most once and its completion
goes to at most one driver, as admitted (`scheduler_exactly_once`). A ticket is dropped only by a
break (`dropped_broken`), so without one an emptied scheduler has delivered everything. -/

namespace DrExec.Scheduling.Scheduler

variable {Job Ctx Done Fault : Type}

/-- Where an admitted ticket is. -/
inductive Place
  | pending
  | running
  | ready
  | left (exit : Exit)
  deriving DecidableEq, Repr

/-- How often ticket `t` has left by an exit. -/
def exitCount (history : List (Event Job Ctx Done)) (t : ℕ) (exit : Exit) : ℕ :=
  history.countP fun event => event.leaves t = some exit

/-- A ticket that has left did so by some exit. -/
theorem leftCount_eq_exits (t : ℕ) : ∀ history : List (Event Job Ctx Done),
    leftCount history t = exitCount history t .delivered + exitCount history t .released +
      exitCount history t .discarded + exitCount history t .dropped
  | [] => rfl
  | event :: history => by
    have ih := leftCount_eq_exits t history
    simp only [leftCount, exitCount, List.countP_cons] at ih ⊢
    cases event.leaves t with
    | none => simp only [Option.isSome_none]; simpa using ih
    | some exit =>
      cases exit <;> simp only [Option.isSome_some, Option.some.injEq, reduceCtorEq, decide_true,
        decide_false, if_true, Bool.false_eq_true, if_false] <;> omega

/-- The ticket an event hands to a driver. -/
def Event.delivers : Event Job Ctx Done → Option ℕ
  | .delivered _ completion => some completion.ticket
  | _ => none

theorem count_delivers (history : List (Event Job Ctx Done)) (t : ℕ) :
    (history.filterMap Event.delivers).count t = exitCount history t .delivered := by
  induction history with
  | nil => rfl
  | cons event history ih =>
    simp only [exitCount, List.countP_cons] at ih ⊢
    cases event with
    | delivered driver completion =>
      rw [List.filterMap_cons_some (f := Event.delivers) rfl, List.count_cons, ih]
      by_cases ht : completion.ticket = t <;> simp [Event.leaves, ht]
    | _ =>
      rw [List.filterMap_cons_none (f := Event.delivers) rfl, ih]
      simp [Event.leaves]

/-- The event is part of a break. -/
def Event.breaks : Event Job Ctx Done → Bool
  | .dropped _ => true
  | .raised _ => true
  | _ => false

theorem breaks_of_leaves_dropped {t : ℕ} {event : Event Job Ctx Done}
    (h : event.leaves t = some .dropped) : event.breaks = true := by
  cases event <;> simp [Event.leaves] at h <;> rfl

namespace ExecutionScheduler

open DrExec.Lib.Transition Ledger

variable {s s' : ExecutionScheduler Job Ctx Done Fault}

/-- How many entries ticket `t` has in a place. -/
def countAt (s : ExecutionScheduler Job Ctx Done Fault) (t : ℕ) : Place → ℕ
  | .pending => s.pendingCount t
  | .running => s.runningCount t
  | .ready => s.readyCount t
  | .left exit => exitCount s.history t exit

/-- The places together hold one entry of every ticket issued. -/
theorem countAt_sum (hl : s.ledger.Ok) (t : ℕ) :
    s.countAt t .pending + s.countAt t .running + s.countAt t .ready +
      (s.countAt t (.left .delivered) + s.countAt t (.left .released) +
        s.countAt t (.left .discarded) + s.countAt t (.left .dropped)) =
      if t < s.nextTicket then 1 else 0 := by
  have := hl.flow t
  rw [leftCount_eq_exits, ledger_runningCount] at this
  exact this

/-- **The partition of the tickets.** A ticket issued is in one place and in no other. -/
theorem partition_of_ok (hl : s.ledger.Ok) {t : ℕ} (ht : t < s.nextTicket) :
    ∃ place, s.countAt t place = 1 ∧ ∀ other, other ≠ place → s.countAt t other = 0 := by
  have hsum := countAt_sum hl t
  rw [if_pos ht] at hsum
  have hpos : ∃ place, 0 < s.countAt t place := by
    by_contra hnone
    simp only [not_exists, not_lt, Nat.le_zero] at hnone
    simp [hnone] at hsum
  obtain ⟨place, hplace⟩ := hpos
  refine ⟨place, ?_, fun other hne => ?_⟩
  · rcases place with _ | _ | _ | _ | _ | _ | _ <;> omega
  · rcases place with _ | _ | _ | _ | _ | _ | _ <;> rcases other with _ | _ | _ | _ | _ | _ | _ <;>
      first | exact absurd rfl hne | omega

/-! ### Only a break drops -/

/-- The history drops nothing unless the scheduler is broken. -/
def BreaksBroken (s : ExecutionScheduler Job Ctx Done Fault) : Prop :=
  ∀ event ∈ s.history, event.breaks = true → s.broken.isSome

namespace BreaksBroken

theorem of_broken (hb : s.broken.isSome) : s.BreaksBroken := fun _ _ _ => hb

/-- A section that adds no part of a break. -/
theorem append (h : s.BreaksBroken) (events : List (Event Job Ctx Done))
    (hh : s'.history = s.history ++ events) (he : ∀ event ∈ events, event.breaks = false)
    (hb : s'.broken = s.broken) : s'.BreaksBroken := by
  intro event hmem hbreaks
  rw [hh] at hmem
  rw [hb]
  rcases List.mem_append.mp hmem with hmem | hmem
  · exact h event hmem hbreaks
  · rw [he event hmem] at hbreaks; cases hbreaks

theorem breakWith (h : s.BreaksBroken) (failure : Fault) : (s.breakWith failure).BreaksBroken := by
  cases hb : s.broken with
  | some _ => rw [breakWith_of_broken s failure (by simp [hb])]; exact h
  | none => rw [breakWith_of_unbroken s failure hb]; exact of_broken rfl

theorem ensureWorker (h : s.BreaksBroken) (start : Option Fault) :
    (s.ensureWorker start).BreaksBroken := by
  rcases s.ensureWorker_cases start with ⟨-, he⟩ | ⟨failure, -, he⟩ | ⟨-, -, he⟩
  · rw [he]; exact h
  · rw [he]; exact h.breakWith failure
  · rw [he]; exact h

theorem discards_breaks_nothing (ready : List (Completion Ctx Done)) :
    ∀ event ∈ ready.map fun completion => (.discarded completion.ticket : Event Job Ctx Done),
      event.breaks = false := by
  intro event hmem
  obtain ⟨completion, -, rfl⟩ := List.mem_map.mp hmem
  rfl

theorem step (h : s.BreaksBroken) {action : Action Job Ctx Done Fault}
    (hstep : ExecutionScheduler.step action s = some s') : s'.BreaksBroken := by
  cases outcome_of_step hstep with
  | unchanged => exact h
  | admitJob job context start =>
    obtain ⟨cancelled, he⟩ := s.enqueue_eq job context
    have hqueued : (s.enqueue job context).BreaksBroken := by
      rw [he]
      exact h.append [.admitted s.nextTicket job context] rfl (by simp [Event.breaks]) rfl
    exact hqueued.ensureWorker start
  | takes worker =>
    rcases s.workerTakes_cases worker with ⟨admitted, rest, -, -, he⟩ | ⟨-, he⟩
    · rw [he]
      exact h.append [.called admitted.ticket admitted.job] rfl (by simp [Event.breaks]) rfl
    · rw [he]; exact h
  | finishes worker admitted result =>
    cases result with
    | ok completed =>
      rw [workerFinishes_ok]
      exact h.append [.returned admitted.ticket completed] rfl (by simp [Event.breaks]) rfl
    | error failure =>
      rcases s.workerFinishes_error_cases worker admitted failure with ⟨hb, he⟩ | ⟨-, he⟩
      · rw [he]; exact of_broken hb
      · rw [he]; exact of_broken rfl
  | taken driver ownedBy =>
    rcases s.takeCompletionNowait_cases ownedBy with ⟨completion, l₁, l₂, -, -, -, he⟩ | ⟨-, he⟩
    · rw [he]
      exact h.append [.delivered driver completion] rfl (by simp [Event.breaks]) rfl
    · rw [he]
      unfold noneUnlessBroken
      cases s.broken <;> exact h
  | released ownedBy =>
    rw [releaseOwned_eq]
    refine h.append _ rfl (fun event hmem => ?_) rfl
    obtain ⟨completion, -, rfl⟩ := List.mem_map.mp hmem
    rfl
  | shutdownEnd call joining =>
    unfold ExecutionScheduler.shutdownEnd
    dsimp only
    split_ifs
    · exact h
    · exact h.append _ rfl (discards_breaks_nothing s.ready) rfl
  | discarded =>
    exact h.append _ rfl (discards_breaks_nothing s.ready) rfl
  | cancelled | closed | shutdownBegin => exact h

end BreaksBroken

theorem breaksBroken_of_reachable {capacity : ℤ} {s₀ s : ExecutionScheduler Job Ctx Done Fault}
    (h0 : init capacity = some s₀) (h : Reachable step s₀ s) : s.BreaksBroken := by
  refine h.invariant ?_ fun u a v _ hu _ hs => hu.step hs
  obtain ⟨-, rfl⟩ := init_eq h0
  exact fun event hmem => absurd hmem (List.not_mem_nil)

/-- Nothing is dropped in an unbroken scheduler. -/
theorem exitCount_dropped_eq_zero (h : s.BreaksBroken) (hb : s.broken = none) (t : ℕ) :
    exitCount s.history t .dropped = 0 ∧ droppedCount s.history t = 0 := by
  constructor
  · refine List.countP_eq_zero.mpr fun event hmem hleaves => ?_
    have := h event hmem (breaks_of_leaves_dropped (of_decide_eq_true hleaves))
    simp [hb] at this
  · refine List.countP_eq_zero.mpr fun event hmem hdrops => ?_
    have := h event hmem (by cases event <;> simp_all [Event.drops, Event.breaks])
    simp [hb] at this

/-! ### Exactly once -/

/-- A ticket is handed to a driver at most once. -/
theorem delivered_le_one (hl : s.ledger.Ok) (t : ℕ) : exitCount s.history t .delivered ≤ 1 := by
  have := countAt_sum hl t
  simp only [countAt] at this
  split_ifs at this <;> omega

/-- The tickets handed to drivers are distinct. -/
theorem delivers_nodup (hl : s.ledger.Ok) : (s.history.filterMap Event.delivers).Nodup := by
  refine List.nodup_iff_count_le_one.mpr fun t => ?_
  rw [count_delivers]
  exact delivered_le_one hl t

/-- One ticket is handed over once: to one driver, as one completion. -/
theorem delivered_unique (hl : s.ledger.Ok) {driver driver' : ℕ} {c c' : Completion Ctx Done}
    (hc : .delivered driver c ∈ s.history) (hc' : .delivered driver' c' ∈ s.history)
    (ht : c.ticket = c'.ticket) : driver = driver' ∧ c = c' := by
  have := Lib.Lists.eq_of_nodup_filterMap (delivers_nodup hl) hc hc' rfl
    (congrArg some ht.symm)
  cases this
  exact ⟨rfl, rfl⟩

/-- The tickets admitted so far. -/
def admittedTickets (s : ExecutionScheduler Job Ctx Done Fault) : List ℕ :=
  s.history.filterMap Event.admits

/-- Every admitted ticket is called at most once and delivered at most once, as admitted; it is in
one place; and a scheduler that was never broken, released or discarded, and that is quiescent and
emptied, called and delivered each one. -/
structure ExactlyOnce (s : ExecutionScheduler Job Ctx Done Fault) : Prop where
  admitted_nodup : s.admittedTickets.Nodup
  called_le_one : ∀ t, calledCount s.history t ≤ 1
  called_own : ∀ t job, .called t job ∈ s.history → ∃ context, .admitted t job context ∈ s.history
  delivered_le_one : ∀ t, exitCount s.history t .delivered ≤ 1
  delivered_own : ∀ driver c, .delivered driver c ∈ s.history → Genuine s.history c ∧
    ∀ job context, .admitted c.ticket job context ∈ s.history → context = c.context
  partition : ∀ t ∈ s.admittedTickets,
    ∃ place, s.countAt t place = 1 ∧ ∀ other, other ≠ place → s.countAt t other = 0
  not_admitted : ∀ t, t ∉ s.admittedTickets → ∀ place, s.countAt t place = 0
  emptied : s.broken = none →
    (∀ t, .released t ∉ s.history) → (∀ t, .discarded t ∉ s.history) →
    s.quiescent = true → s.ready = [] →
    ∀ t ∈ s.admittedTickets, calledCount s.history t = 1 ∧ exitCount s.history t .delivered = 1

/-- **Exactly-once execution and delivery** in every state a scheduler reaches. -/
theorem scheduler_exactly_once {capacity : ℤ} {s₀ s : ExecutionScheduler Job Ctx Done Fault}
    (h0 : init capacity = some s₀) (h : Reachable step s₀ s) : s.ExactlyOnce := by
  have hl := ledger_ok_of_reachable h0 h
  have hw := workersOk_of_reachable h0 h
  have hbreaks := breaksBroken_of_reachable h0 h
  have hadmitted : s.admittedTickets = List.range s.nextTicket := hl.admitted
  have hsum := fun t => countAt_sum hl t
  have hcalled := fun t => hl.called t
  simp only [ledger_queuedCount] at hcalled
  constructor
  · rw [hadmitted]; exact List.nodup_range
  · intro t
    have := hcalled t
    change calledCount s.history t + _ + _ = _ at this
    split_ifs at this <;> omega
  · exact hl.called_origin
  · exact delivered_le_one hl
  · intro driver c hc
    have hgenuine := hl.delivered_origin driver c hc
    refine ⟨hgenuine, fun job context hadm => ?_⟩
    obtain ⟨job', hadm'⟩ := hgenuine.1
    have hnodup : (s.history.filterMap Event.admits).Nodup := by
      rw [show s.history.filterMap Event.admits = _ from hadmitted]; exact List.nodup_range
    cases Lib.Lists.eq_of_nodup_filterMap hnodup hadm hadm' rfl rfl
    rfl
  · intro t ht
    rw [hadmitted, List.mem_range] at ht
    exact partition_of_ok hl ht
  · intro t ht place
    rw [hadmitted, List.mem_range] at ht
    have := hsum t
    rw [if_neg ht] at this
    rcases place with _ | _ | _ | _ | _ | _ | _ <;> omega
  · intro hb hreleased hdiscarded hq hy t ht
    rw [hadmitted, List.mem_range] at ht
    simp only [quiescent, Bool.and_eq_true, beq_iff_eq, List.isEmpty_iff] at hq
    have hcalls : s.calls = [] := by
      have := hw.running_eq
      rw [hq.1] at this
      exact List.length_eq_zero_iff.mp (by exact_mod_cast this.symm)
    have hgone : s.countAt t (.left .released) = 0 ∧ s.countAt t (.left .discarded) = 0 := by
      constructor
      · refine List.countP_eq_zero.mpr fun event hmem hleaves => ?_
        cases event <;> simp [Event.leaves] at hleaves
        exact hreleased _ hmem
      · refine List.countP_eq_zero.mpr fun event hmem hleaves => ?_
        cases event <;> simp [Event.leaves] at hleaves
        exact hdiscarded _ hmem
    have hdropped := exitCount_dropped_eq_zero hbreaks hb t
    have hflow := hsum t
    have hcall := hcalled t
    change calledCount s.history t + _ + droppedCount s.history t =
      if t < s.nextTicket then 1 else 0 at hcall
    rw [if_pos ht] at hflow hcall
    have hpending : s.pendingCount t = 0 := by simp [pendingCount, hq.2]
    have hrunning : s.runningCount t = 0 := by simp [runningCount, hcalls]
    have hready : s.readyCount t = 0 := by simp [readyCount, hy]
    simp only [countAt] at hflow hgone
    omega

/-- One job admitted, executed and delivered to driver 5. -/
def oneDelivered : ExecutionScheduler ℕ ℕ ℕ ℕ where
  capacity := 1
  workers := [0]
  nextTicket := 1
  announced := 3
  threads := [.waiting]
  history := [.admitted 0 10 20, .called 0 10, .returned 0 30, .delivered 5 ⟨0, 30, 20⟩]

theorem oneDelivered_exactlyOnce : oneDelivered.ExactlyOnce := by
  have h0 : init 1 = some ({ capacity := 1 } : ExecutionScheduler ℕ ℕ ℕ ℕ) := by decide
  exact scheduler_exactly_once h0
    (.of_exec [.admitJob 10 20 none, .takeAdmitted 0, .finish 0 (.ok 30), .takeCompletion 5]
      (fun _ _ => trivial) (by decide))

end ExecutionScheduler

end DrExec.Scheduling.Scheduler
