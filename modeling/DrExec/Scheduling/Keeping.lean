import DrExec.Scheduling.Departure
import DrExec.Scheduling.Books

/-! # What a pool keeps for its streams

A completion that is buffered stays so until a stream that may claim it takes it, the map stream
that owns it departs, or no stream is left in the books (`ready_step`); a loop returns only when the
scheduler has no work that its stream may claim (`work_eq_zero_of_atEnd`). So a stream whose
consumer goes on and whose source does not fail is handed each completion that it may claim, or
another plain stream is (`consumes`), while the pool closes too. -/

namespace DrExec.Scheduling.Scheduler.ExecutionScheduler

open DrExec.Lib.Lists

variable {Job Ctx Done Fault : Type} {s s' : ExecutionScheduler Job Ctx Done Fault}

/-! ### Sections and what is buffered -/

/-- A worker thread only adds to what is buffered. -/
theorem ready_worker {action : Action Job Ctx Done Fault} (ha : IsWorker action)
    (h : step action s = some s') : s.ready ⊆ s'.ready := by
  rcases ha with ⟨worker, rfl⟩ | ⟨worker, result, rfl⟩
  · simp only [step] at h
    split at h
    · split_ifs at h
      cases h
      rcases s.workerTakes_cases worker with ⟨admitted, rest, -, -, he⟩ | ⟨-, he⟩
      · rw [he]
        exact List.Subset.refl _
      · rw [he]
        exact List.Subset.refl _
    · cases h
  · simp only [step] at h
    split at h
    · next admitted _ =>
      cases h
      cases result with
      | ok completed =>
        rw [workerFinishes_ok]
        exact List.subset_append_left _ _
      | error failure =>
        rcases s.workerFinishes_error_cases worker admitted failure with ⟨-, he⟩ | ⟨-, he⟩
        · rw [he]
          exact List.Subset.refl _
        · rw [he]
          exact List.Subset.refl _
    · cases h

/-- A submission that is turned away adds no work. -/
theorem work_admit_of_turned (hok : s.WorkersOk) (p : Ctx → Bool) (job : Job) (context : Ctx)
    (start : Option Fault) (h : (s.admitJob job context start).1 ≠ .admitted) :
    (s.admitJob job context start).2.work p ≤ s.work p := by
  rcases s.admit_cases job context start with ⟨he, -⟩ | ⟨hopen, hroom, he⟩
  · rw [he]
  · have hb := (hok.open_intake hopen).1
    have hbroken : (s.admitJob job context start).2.broken.isSome = true := by
      by_contra hnot
      refine h ?_
      unfold admitJob at hnot ⊢
      rw [if_neg (by simp [hopen]), if_neg (by omega)] at hnot ⊢
      dsimp only at hnot ⊢
      split_ifs at hnot ⊢ with hs
      · exact absurd hs hnot
      · rfl
    obtain ⟨cancelled, hq⟩ := s.enqueue_eq job context
    rw [he] at hbroken ⊢
    rcases (s.enqueue job context).ensureWorker_cases start with
      ⟨-, he⟩ | ⟨failure, -, he⟩ | ⟨-, -, he⟩
    · rw [he, hq] at hbroken
      simp [announceChange, hb] at hbroken
    · rw [he, breakWith_of_unbroken _ _ (by rw [hq]; exact hb), hq]
      simp only [announceChange, work, unfinished, finished, calls, List.countP_nil]
      omega
    · rw [he, hq] at hbroken
      simp [announceChange, hb] at hbroken

/-- **A section only adds to the history.** -/
theorem history_step {action : Action Job Ctx Done Fault} (h : step action s = some s') :
    s.history <+: s'.history := by
  have hsilent : ∀ {u : ExecutionScheduler Job Ctx Done Fault}, s.Silent u →
      s.history <+: u.history := by
    rintro u ⟨events, he, -⟩
    rw [he]
    exact List.prefix_append _ _
  cases outcome_of_step h with
  | unchanged | cancelled | closed | shutdownBegin => exact List.prefix_rfl
  | admitJob job context start =>
    obtain ⟨cancelled, hq⟩ := s.enqueue_eq job context
    obtain ⟨events, he, -⟩ := Silent.ensureWorker (s.enqueue job context) start
    rw [announceChange, he, hq]
    exact (List.prefix_append _ _).trans (List.prefix_append _ _)
  | takes worker => exact hsilent (Silent.workerTakes s worker)
  | finishes worker admitted result => exact hsilent (Silent.workerFinishes s worker admitted result)
  | taken driver ownedBy =>
    rcases s.takeCompletionNowait_cases ownedBy with ⟨completion, l₁, l₂, -, -, -, he⟩ | ⟨-, he⟩
    · rw [he]
      exact List.prefix_append _ _
    · rw [he]
      unfold noneUnlessBroken
      cases s.broken <;> exact List.prefix_rfl
  | released ownedBy => exact hsilent (Silent.releaseOwned s ownedBy)
  | shutdownEnd call => exact hsilent (Silent.shutdownEnd s call)
  | discarded => exact hsilent (Silent.dropCompletions s)

end DrExec.Scheduling.Scheduler.ExecutionScheduler

namespace DrExec.Scheduling.Pool

open DrExec.Lib.Transition Scheduler ExecutionScheduler

variable {Job C Done Fault : Type} {w w' : ExecutionPool Job C Done Fault}

/-! ### How a completion leaves the buffer -/

/-- A completion that is buffered no more: a stream took it, the map stream that owns it departed,
or no stream is in the books. -/
inductive Gone (w' : ExecutionPool Job C Done Fault) (completion : Completion (Context C) Done) : Prop
  | delivered (i : ℕ) : .delivered i completion ∈ w'.scheduler.history → Gone w' completion
  | released (i : ℕ) (stream : Stream Job C Done) : owns i completion.context = true →
      w'.streams[i]? = some stream → stream.endsOnOwnWork = true → stream.departed = true →
      Gone w' completion
  | discarded : w'.busy = 0 → Gone w' completion

/-- The last stream's bookkeeping discards what is left. -/
theorem busy_driveBookkeeping {i : ℕ} {stream : Stream Job C Done} {ending : Ending}
    (hi : w.streams[i]? = some stream) (hp : stream.phase = .bookkeeping ending) :
    (w.driveBookkeeping i stream ending).busy + 1 = w.busy := by
  have hstreams : (w.driveBookkeeping i stream ending).streams = (w.put i { stream with
      phase := if ending = Ending.closed then .ended .closed else .departing ending }).streams := by
    unfold ExecutionPool.driveBookkeeping
    dsimp only
    split_ifs <;> rfl
  have hput := busy_put hi { stream with
    phase := if ending = Ending.closed then .ended .closed else .departing ending }
  have hover : (if ending = Ending.closed then .ended .closed else .departing ending :
      Phase C Done).active = false := by split_ifs <;> rfl
  have hactive : stream.phase.active = true := by simp [hp, Phase.active]
  rw [hover, hactive] at hput
  rw [busy_congr hstreams]
  simpa using hput

theorem busy_finishClose (w : ExecutionPool Job C Done Fault) : w.finishClose.busy = w.busy := by
  refine (busy_congr ?_).trans (busy_wakeAll w)
  unfold ExecutionPool.finishClose
  dsimp only
  split_ifs <;> rfl

/-- **One step**: a buffered completion stays buffered, or is gone for a reason. -/
theorem ready_step (halarm : Alarmed w) (heff : Effect w w')
    {completion : Completion (Context C) Done} (h : completion ∈ w.scheduler.ready) :
    completion ∈ w'.scheduler.ready ∨ Gone w' completion := by
  cases heff with
  | unchanged | opened | moves | breaks | wakes | closes | shutsDown => exact .inl h
  | worker action scheduler ha hs => exact .inl (ready_worker ha hs h)
  | takes i stream =>
    have hscheduler := scheduler_driveTake w i stream
    rcases w.scheduler.takeCompletionNowait_cases (some (stream.ownedBy i)) with
      ⟨taken, l₁, l₂, hl, -, -, he⟩ | ⟨-, he⟩
    · rw [he] at hscheduler
      rw [hl, List.mem_append, List.mem_cons, or_left_comm] at h
      rcases h with rfl | h
      · exact .inr (.delivered i (by rw [hscheduler]; exact List.mem_append_right _ (by simp)))
      · exact .inl (by rw [hscheduler]; exact List.mem_append.mpr h)
    · refine .inl ?_
      rw [hscheduler, he]
      unfold noneUnlessBroken
      cases w.scheduler.broken <;> exact h
  | admits i stream submission start _ _ hc =>
    rw [scheduler_driveAdmit w i hc start, ready_admitJob]
    exact .inl h
  | keepsBooks i stream ending hi hp =>
    have hbusy := busy_driveBookkeeping hi hp
    have hcount := halarm.counted
    by_cases hlast : w.activeStreams - 1 = 0
    · exact .inr (.discarded (by omega))
    · refine .inl ?_
      unfold ExecutionPool.driveBookkeeping
      dsimp only
      rw [if_neg fun hand => hlast hand.1]
      exact h
  | departs i stream phase hi hphase =>
    have hlt := (List.getElem?_eq_some_iff.mp hi).1
    unfold ExecutionPool.releaseOwned
    split_ifs with hkind
    · cases hown : owns i completion.context with
      | true =>
        refine .inr (.released i { stream with phase := phase } hown ?_ hkind ?_)
        · simp [ExecutionPool.put, hlt]
        · rcases hphase with ⟨-, rfl⟩ | ⟨ending, -, rfl⟩ <;> rfl
      | false =>
        refine .inl ?_
        show completion ∈ (w.scheduler.releaseOwned (owns i)).ready
        rw [releaseOwned_eq]
        exact List.mem_filter.mpr ⟨h, by simp [hown]⟩
    · exact .inl h
  | cancels =>
    refine .inl ?_
    show completion ∈ w.scheduler.cancelAll.ready
    rw [cancelAll, cancelTokens_eq]
    exact h
  | joins scheduler hj hs =>
    simp only [ExecutionScheduler.step] at hs
    split at hs
    · next call hcall =>
      split_ifs at hs
      cases hs
      refine .inl ?_
      show completion ∈ (w.scheduler.shutdownEnd call).ready
      simp only [shutdownEnd, halarm.preserve call (List.mem_of_getElem? hcall), if_true]
      exact h
    · cases hs
  | finishes =>
    have hcount := halarm.counted
    by_cases hnone : w.activeStreams = 0
    · exact .inr (.discarded (by rw [busy_finishClose]; omega))
    · refine .inl ?_
      unfold ExecutionPool.finishClose ExecutionPool.wakeAll
      dsimp only
      rw [if_neg hnone]
      exact h

/-! ### The counter of a map stream -/

namespace Stream

variable (stream : Stream Job C Done)

theorem outstanding_enterFinally (ending : Ending) :
    (stream.enterFinally ending).outstanding = stream.outstanding := by
  obtain ⟨phase, he, -⟩ := stream.enterFinally_eq ending
  rw [he]

theorem outstanding_emptyPull : stream.emptyPull.outstanding = stream.outstanding := by
  obtain ⟨pull, phase, he, -⟩ := stream.emptyPull_eq
  rw [he]

theorem outstanding_pullDone (pull : Pull Job C) :
    (stream.pullDone pull).outstanding = stream.outstanding := by
  unfold pullDone
  dsimp only
  split
  · exact outstanding_emptyPull _
  · exact outstanding_enterFinally _ _
  · rfl

end Stream

/-- Only taking and submitting move the counter. -/
theorem Local.outstanding {i : ℕ} {stream stream' : Stream Job C Done}
    (h : Local w i stream stream') : stream'.outstanding = stream.outstanding := by
  cases h with
  | loopHead =>
    unfold Stream.loopHead
    dsimp only
    split_ifs
    · exact Stream.outstanding_emptyPull _
    · rfl
  | yieldTaken =>
    unfold Stream.yieldTaken
    dsimp only
    split_ifs <;> rfl
  | park =>
    unfold Stream.park
    dsimp only
    split_ifs <;> rfl
  | ends | cancelled | finalized => exact Stream.outstanding_enterFinally _ _
  | collect =>
    unfold Stream.collectPull
    split
    case h_3 | h_4 => exact Stream.outstanding_enterFinally _ _
    all_goals rfl
  | answered answer => cases answer <;> exact Stream.outstanding_pullDone _ _
  | goesOn | carriesNothing | resumes | settles | acquires => rfl

/-- **The counter of a map stream** is never below its work in the scheduler; no owner has work
before its stream is there. -/
structure Counted (w : ExecutionPool Job C Done Fault) : Prop where
  stream : ∀ (i : ℕ) (stream : Stream Job C Done), w.streams[i]? = some stream →
    stream.endsOnOwnWork = true → (w.scheduler.work (owns i) : ℤ) ≤ stream.outstanding
  fresh : ∀ owner, w.streams.length ≤ owner → w.scheduler.work (owns owner) = 0

namespace Counted

/-- A step that adds no work and moves no counter. -/
theorem keep (h : Counted w) (hwork : ∀ owner, w'.scheduler.work (owns owner) ≤
    w.scheduler.work (owns owner)) (hlen : w'.streams.length = w.streams.length)
    (hstreams : ∀ (j : ℕ) (stream' : Stream Job C Done), w'.streams[j]? = some stream' →
      ∃ stream, w.streams[j]? = some stream ∧ stream'.endsOnOwnWork = stream.endsOnOwnWork ∧
        stream'.outstanding = stream.outstanding) : Counted w' := by
  refine ⟨fun j stream' hj hkind => ?_, fun owner howner => ?_⟩
  · obtain ⟨stream, hst, hk, ho⟩ := hstreams j stream' hj
    have := h.stream j stream hst (hk ▸ hkind)
    have := hwork j
    omega
  · have := h.fresh owner (hlen ▸ howner)
    have := hwork owner
    omega

/-- A stream that takes counts down what it takes. -/
theorem takes (h : Counted w) {i : ℕ} {stream : Stream Job C Done}
    (hi : w.streams[i]? = some stream) : Counted (w.driveTake i stream) := by
  rcases driveTake_cases w i stream with ⟨completion, scheduler, ht, he⟩ | he | ⟨-, state, he⟩
  · have hown := (work_taken (fun _ => true) i (stream.ownedBy i) ht).1
    have hwork := fun j => (work_taken (owns j) i (stream.ownedBy i) ht).2
    rw [he]
    refine ⟨forall_put (fun hkind => ?_) fun j other hj _ hkind => ?_, fun owner howner => ?_⟩
    · have hself : owns i completion.context = true := by
        simpa [Stream.ownedBy, show stream.endsOnOwnWork = true from hkind] using hown
      have hcount := h.stream i stream hi hkind
      have hless := hwork i
      rw [if_pos hself] at hless
      show ((scheduler.record (.delivered i completion)).work (owns i) : ℤ) ≤
        stream.outstanding - 1
      omega
    · have hcount := h.stream j other hj hkind
      have hless := hwork j
      show ((scheduler.record (.delivered i completion)).work (owns j) : ℤ) ≤ other.outstanding
      omega
    · rw [length_put] at howner
      have hzero := h.fresh owner howner
      have hless := hwork owner
      show (scheduler.record (.delivered i completion)).work (owns owner) = 0
      omega
  · rw [he]
    exact h.keep (fun _ => le_rfl) (length_put w i _)
      (forall_put ⟨stream, hi, rfl, rfl⟩ fun j other hj _ => ⟨other, hj, rfl, rfl⟩)
  · rw [he]
    obtain ⟨phase, heq, -⟩ := stream.enterFinally_eq .raised
    rw [heq]
    exact h.keep (fun _ => le_rfl) (length_put _ i _)
      (forall_put ⟨stream, hi, rfl, rfl⟩ fun j other hj _ => ⟨other, hj, rfl, rfl⟩)

/-- A stream that submits counts up what is admitted. -/
theorem admits (h : Counted w) (ht : Tagged w) (hok : w.scheduler.WorkersOk) {i : ℕ}
    {stream : Stream Job C Done} (hi : w.streams[i]? = some stream)
    {submission : ExecutionSubmission Job (Context C)} (hc : stream.carried = some submission)
    (start : Option Fault) : Counted (w.driveAdmit i stream start) := by
  have hown := (ht.stream i stream hi).carried submission hc
  have hother : ∀ j, ¬ (stream.endsOnOwnWork = true ∧ i = j) →
      owns j submission.context = false := by
    intro j hne
    by_contra hj
    exact hne (stream.owns_of_ownedBy hown (by simpa using hj))
  obtain ⟨stream', he, hcases⟩ := driveAdmit_cases w i hc start
  rw [he]
  have hturned : (w.scheduler.admitJob submission.job submission.context start).1 ≠ .admitted →
      stream'.endsOnOwnWork = stream.endsOnOwnWork ∧ stream'.outstanding = stream.outstanding →
      Counted ({ w with scheduler :=
        (w.scheduler.admitJob submission.job submission.context start).2 }.put i stream') := by
    intro hne hsame
    exact h.keep (fun owner => work_admit_of_turned hok (owns owner) _ _ _ hne) (length_put _ i _)
      (forall_put ⟨stream, hi, hsame⟩ fun j other hj _ => ⟨other, hj, rfl, rfl⟩)
  rcases hcases with ⟨hr, rfl⟩ | ⟨hr, rfl⟩ | ⟨hr, rfl⟩
  · have hwork := fun j =>
      work_admit_of_admitted (owns j) submission.job submission.context start hr
    refine ⟨forall_put (fun hkind => ?_) fun j other hj hne hkind => ?_, fun owner howner => ?_⟩
    · have hcount := h.stream i stream hi hkind
      have hmore := hwork i
      have hone : (if owns i submission.context = true then 1 else 0) ≤ 1 := by split_ifs <;> simp
      show ((w.scheduler.admitJob submission.job submission.context start).2.work (owns i) : ℤ) ≤
        stream.outstanding + 1
      omega
    · have hcount := h.stream j other hj hkind
      have hmore := hwork j
      rw [hother j fun hij => hne hij.2.symm, if_neg Bool.false_ne_true] at hmore
      show ((w.scheduler.admitJob submission.job submission.context start).2.work (owns j) : ℤ) ≤
        other.outstanding
      omega
    · rw [length_put] at howner
      have hlt := (List.getElem?_eq_some_iff.mp hi).1
      have hzero := h.fresh owner howner
      have hmore := hwork owner
      rw [hother owner fun hij => by have := hij.2; dsimp only at howner; omega,
        if_neg Bool.false_ne_true] at hmore
      show (w.scheduler.admitJob submission.job submission.context start).2.work (owns owner) = 0
      omega
  · exact hturned (by rw [hr]; simp) ⟨rfl, rfl⟩
  · exact hturned (by rw [hr]; simp) ⟨rfl, rfl⟩

/-- **One step of a pool.** -/
theorem step (h : Counted w) (ht : Tagged w) (hok : w.scheduler.WorkersOk) (heff : Effect w w') :
    Counted w' := by
  have hsame : ∀ {v : ExecutionPool Job C Done Fault}, v.streams = w.streams →
      ∀ (j : ℕ) (stream' : Stream Job C Done), v.streams[j]? = some stream' →
        ∃ stream, w.streams[j]? = some stream ∧ stream'.endsOnOwnWork = stream.endsOnOwnWork ∧
          stream'.outstanding = stream.outstanding :=
    fun he j stream' hj => ⟨stream', he ▸ hj, rfl, rfl⟩
  have hwoken : ∀ {v : ExecutionPool Job C Done Fault}, v.streams = w.wakeAll.streams →
      ∀ (j : ℕ) (stream' : Stream Job C Done), v.streams[j]? = some stream' →
        ∃ stream, w.streams[j]? = some stream ∧ stream'.endsOnOwnWork = stream.endsOnOwnWork ∧
          stream'.outstanding = stream.outstanding := by
    intro v he j stream' hj
    obtain ⟨stream, wakeup, hst, rfl⟩ := keeps_wakeAll (he ▸ hj)
    exact ⟨stream, hst, rfl, rfl⟩
  cases heff with
  | unchanged => exact h
  | worker action scheduler ha hs =>
    exact h.keep (fun owner => work_worker_le (owns owner) ha hs) rfl (hsame rfl)
  | opened endsOnOwnWork width =>
    refine ⟨fun j stream hj hkind => ?_, fun owner howner => ?_⟩
    · rcases getElem?_openStream hj with hj | ⟨rfl, rfl⟩
      · exact h.stream j stream hj hkind
      · exact (by simpa using h.fresh w.streams.length le_rfl :
          (w.scheduler.work (owns w.streams.length) : ℤ) = 0).le
    · simp only [ExecutionPool.openStream, List.length_append, List.length_singleton] at howner
      exact h.fresh owner (by omega)
  | moves i stream stream' hi hlocal =>
    exact h.keep (fun _ => le_rfl) (length_put w i _)
      (forall_put ⟨stream, hi, hlocal.keeps.kind, hlocal.outstanding⟩
        fun j other hj _ => ⟨other, hj, rfl, rfl⟩)
  | breaks i stream hi =>
    obtain ⟨phase, heq, -⟩ := stream.enterFinally_eq .raised
    rw [heq]
    exact h.keep (fun _ => le_rfl) (length_put w i _)
      (forall_put ⟨stream, hi, rfl, rfl⟩ fun j other hj _ => ⟨other, hj, rfl, rfl⟩)
  | takes i stream hi => exact h.takes hi
  | admits i stream submission start hi hp hc => exact h.admits ht hok hi hc start
  | keepsBooks i stream ending hi hp =>
    have hwork : ∀ owner, (w.driveBookkeeping i stream ending).scheduler.work (owns owner) ≤
        w.scheduler.work (owns owner) := by
      intro owner
      rcases scheduler_driveBookkeeping w i stream ending with he | ⟨-, he⟩
      · rw [he]
      · rw [he]; exact work_dropCompletions_le (s := w.scheduler) (owns owner)
    have hstreams : (w.driveBookkeeping i stream ending).streams = (w.put i { stream with
        phase := if ending = Ending.closed then .ended .closed else .departing ending }).streams := by
      unfold ExecutionPool.driveBookkeeping
      dsimp only
      split_ifs <;> rfl
    refine h.keep hwork (by rw [hstreams]; exact length_put w i _) ?_
    rw [hstreams]
    exact forall_put ⟨stream, hi, rfl, rfl⟩ fun j other hj _ => ⟨other, hj, rfl, rfl⟩
  | departs i stream phase hi =>
    have hstreams : (w.releaseOwned i stream).streams = w.streams := by
      unfold ExecutionPool.releaseOwned
      split_ifs <;> rfl
    refine h.keep (fun owner => work_releaseOwned_pool w i stream (owns owner))
      ((length_put _ i _).trans (by rw [hstreams])) ?_
    exact forall_put ⟨stream, hi, rfl, rfl⟩ fun j other hj _ => ⟨other, hstreams ▸ hj, rfl, rfl⟩
  | wakes => exact h.keep (fun _ => le_rfl) (length_wakeAll w) (hwoken rfl)
  | closes => exact h.keep (fun _ => le_rfl) (length_wakeAll w) (hwoken rfl)
  | cancels =>
    refine h.keep (fun owner => ?_) rfl (hsame rfl)
    dsimp only
    rw [cancelAll, cancelTokens_eq]
    exact le_rfl
  | shutsDown => exact h.keep (fun _ => le_rfl) rfl (hsame rfl)
  | joins scheduler hj hs =>
    refine h.keep (fun owner => ?_) rfl (hsame rfl)
    simp only [ExecutionScheduler.step] at hs
    split at hs
    · next call _ =>
      split_ifs at hs
      cases hs
      exact work_shutdownEnd_le (owns owner) call
    · cases hs
  | finishes =>
    have hstreams : w.finishClose.streams = w.wakeAll.streams := by
      unfold ExecutionPool.finishClose
      dsimp only
      split_ifs <;> rfl
    refine h.keep (fun owner => ?_) (by rw [hstreams]; exact length_wakeAll w) (hwoken hstreams)
    rcases scheduler_finishClose w with he | he
    · rw [he]
    · rw [he]; exact work_dropCompletions_le (s := w.scheduler) (owns owner)

end Counted

theorem counted_of_reach {capacity : ℤ} {w₀ : ExecutionPool Job C Done Fault}
    (h0 : ExecutionPool.open? capacity = some w₀) (h : Reachable ExecutionPool.step w₀ w) :
    Counted w := by
  refine h.invariant ?_ fun u a v hr hu _ hs => ?_
  · obtain ⟨scheduler, hs, rfl⟩ := open?_eq h0
    obtain ⟨-, rfl⟩ := init_eq hs
    exact ⟨by simp, by simp [work, unfinished, finished, calls]⟩
  · exact hu.step (tagged_of_reach h0 hr)
      (workersOk_of_reachable (init_of_open? h0) (scheduler_reachable h0 hr)) (effect_of_step hs)

/-- **A loop returns** only when the scheduler has no work that its stream may claim. -/
theorem work_eq_zero_of_atEnd (h : Counted w) (hacc : w.scheduler.Accounted)
    (hok : w.scheduler.WorkersOk) {i : ℕ} {stream : Stream Job C Done}
    (hi : w.streams[i]? = some stream) (hend : stream.atEnd w.scheduler.hasResidents = true) :
    w.scheduler.work (stream.ownedBy i) = 0 := by
  simp only [Stream.atEnd, Bool.and_eq_true] at hend
  cases hkind : stream.endsOnOwnWork with
  | true =>
    have hcount := h.stream i stream hi hkind
    have hzero := hend.2
    rw [if_pos hkind, beq_iff_eq] at hzero
    rw [Stream.ownedBy, if_pos hkind]
    omega
  | false =>
    have hnone := hend.2
    simp only [hkind, Bool.false_eq_true, if_false, hasResidents, Bool.not_eq_true',
      decide_eq_false_iff_not] at hnone
    have hge := hacc.residents_ge
    have hrunning := hok.running_eq
    have hp : w.scheduler.pending = [] := List.length_eq_zero_iff.mp (by omega)
    have hr : w.scheduler.ready = [] := List.length_eq_zero_iff.mp (by omega)
    have hcalls : w.scheduler.calls = [] := List.length_eq_zero_iff.mp (by omega)
    simp [work, unfinished, finished, hp, hr, hcalls]

/-! ### A stream that goes on -/

/-- The stream is in its loop. -/
def Phase.looping : Phase C Done → Bool
  | settling true | finalizing _ | bookkeeping _ | departing _ | abandoned | ended _ => false
  | _ => true

namespace Stream

variable (stream : Stream Job C Done)

/-- The last pull of the stream raised, or it was cancelled. -/
def failed : Bool :=
  match stream.sourcePull with
  | some (.raised _) | some .cancelled => true
  | _ => false

/-- The stream is in its loop, and its source has not failed. -/
def consuming : Bool := stream.phase.looping && !stream.failed

variable {stream}

theorem consuming_iff : stream.consuming = true ↔
    stream.phase.looping = true ∧ stream.failed = false := by
  simp [consuming]

theorem active_of_consuming (h : stream.consuming = true) : stream.phase.active = true := by
  have hloop := (consuming_iff.mp h).1
  unfold Phase.looping at hloop
  unfold Phase.active
  split at hloop <;> simp_all

theorem not_departed_of_consuming (h : stream.consuming = true) : stream.departed = false := by
  have hloop := (consuming_iff.mp h).1
  unfold Phase.looping at hloop
  unfold departed
  split at hloop <;> simp_all

theorem consuming_emptyPull (h : stream.failed = false) : stream.emptyPull.consuming = true := by
  unfold failed at h
  unfold emptyPull
  split
  case h_3 hpull | h_4 hpull => simp [hpull] at h
  case h_5 hpull | h_6 hpull => simp [consuming, failed, hpull, Phase.looping]
  all_goals rfl

theorem consuming_mayPull (canAdmit : Bool) (h : stream.failed = false) :
    (if stream.mayPull canAdmit then stream.startPull else stream).failed = false := by
  split_ifs
  · unfold startPull failed
    dsimp only
    split_ifs <;> rfl
  · exact h

theorem consuming_loopHead (state : ExecutionPoolState) (h : stream.failed = false) :
    (stream.loopHead state).consuming = true := by
  unfold loopHead
  dsimp only
  split_ifs
  · exact consuming_emptyPull h
  · exact consuming_iff.mpr ⟨rfl, h⟩

theorem consuming_collectPull (state : ExecutionPoolState) (h : stream.failed = false) :
    (stream.collectPull state).consuming = true := by
  unfold collectPull
  split
  case h_3 hpull | h_4 hpull => simp [failed, hpull] at h
  case h_5 => exact consuming_iff.mpr ⟨rfl, h⟩
  all_goals rfl

/-- A pull that ends with an answer, or was cancelled as the pool closes. -/
theorem consuming_pullDone {pull : Pull Job C} (hloop : stream.phase.looping = true)
    (hraised : ∀ broken, pull ≠ .raised broken) (hcancelled : pull = .cancelled → stream.cancelling = true) :
    (stream.pullDone pull).consuming = true := by
  unfold pullDone
  dsimp only
  split
  · next hp =>
    cases pull with
    | raised broken => exact absurd rfl (hraised broken)
    | acquiring | asking => exact consuming_iff.mpr ⟨rfl, rfl⟩
    | done | cancelled => rfl
  · next ending hp => simp [hp, Phase.looping] at hloop
  · next hempty hfinal =>
    refine consuming_iff.mpr ⟨hloop, ?_⟩
    cases pull with
    | raised broken => exact absurd rfl (hraised broken)
    | cancelled =>
      have hcancelling := hcancelled rfl
      unfold cancelling at hcancelling
      split at hcancelling
      · next hp => exact absurd hp hempty
      · next ending hp => exact absurd hp (hfinal ending)
      · cases hcancelling
    | acquiring | asking | done => rfl

end Stream

/-- The consumer of stream `i` neither closes nor cancels it, and its source does not fail. -/
def spares (i : ℕ) (action : PoolAction Job C Done Fault) (w : ExecutionPool Job C Done Fault) : Bool :=
  match action with
  | .aclose j | .cancel j | .answer j (.raised _) => j != i
  | .answer j .cancelled => j != i || (w.streams[i]?).any Stream.cancelling
  | _ => true

/-- Stream `i` is in its loop, and its source has not failed. -/
def Consuming (i : ℕ) (w : ExecutionPool Job C Done Fault) : Prop :=
  ∃ stream, w.streams[i]? = some stream ∧ stream.consuming = true

namespace Consuming

variable {i : ℕ}

/-- One stream moves: stream `i` to where it goes on, or another one. -/
theorem put (h : Consuming i w) {j : ℕ} {stream' : Stream Job C Done}
    (hstreams : w'.streams = w.streams) (hself : j = i → stream'.consuming = true) :
    Consuming i (w'.put j stream') := by
  obtain ⟨stream, hi, hc⟩ := h
  have hlt := (List.getElem?_eq_some_iff.mp hi).1
  by_cases hji : j = i
  · subst hji
    exact ⟨stream', by simp [ExecutionPool.put, hstreams, hlt], hself rfl⟩
  · refine ⟨stream, ?_, hc⟩
    simpa [ExecutionPool.put, List.getElem?_set, hji, hstreams] using hi

theorem wakeAll (h : Consuming i w) (hstreams : w'.streams = w.wakeAll.streams) :
    Consuming i w' := by
  obtain ⟨stream, hi, hc⟩ := h
  rw [Consuming, hstreams]
  simp only [ExecutionPool.wakeAll, List.getElem?_mapIdx, hi, Option.map_some]
  refine ⟨_, rfl, ?_⟩
  split_ifs <;> exact hc

theorem openStream (h : Consuming i w) (endsOnOwnWork : Bool) (width : ℕ) :
    Consuming i (w.openStream endsOnOwnWork width) := by
  obtain ⟨stream, hi, hc⟩ := h
  have hlt := (List.getElem?_eq_some_iff.mp hi).1
  exact ⟨stream, by simpa [ExecutionPool.openStream, List.getElem?_append, hlt] using hi, hc⟩

/-- Where stream `i` may leave its loop: it found nothing to take, or its end condition holds. -/
def Leaves (i : ℕ) (w : ExecutionPool Job C Done Fault) : Prop :=
  ∃ stream, w.streams[i]? = some stream ∧
    ((∀ completion ∈ w.scheduler.ready, stream.ownedBy i completion.context = false) ∨
      stream.atEnd w.scheduler.hasResidents = true)

/-- A coroutine runs. -/
theorem drive (h : Consuming i w) {j : ℕ} {stream : Stream Job C Done} {start : Option Fault}
    (hj : w.streams[j]? = some stream) (hd : w.drive j stream start = some w') :
    Consuming i w' ∨ Leaves i w := by
  have hself : j = i → stream.phase.looping = true ∧ stream.failed = false := by
    rintro rfl
    obtain ⟨other, hi, hc⟩ := h
    rw [hj] at hi
    cases hi
    exact Stream.consuming_iff.mp hc
  have hin : ∀ {phase : Phase C Done}, phase.looping = true → j = i →
      ({ stream with phase := phase } : Stream Job C Done).consuming = true :=
    fun hphase he => Stream.consuming_iff.mpr ⟨hphase, (hself he).2⟩
  unfold ExecutionPool.drive at hd
  split at hd
  case h_1 =>
    cases hd
    exact .inl (h.put rfl fun he => Stream.consuming_loopHead _ (hself he).2)
  case h_2 =>
    cases hd
    rcases driveTake_cases w j stream with ⟨completion, scheduler, -, he⟩ | he | ⟨hb, state, he⟩
    · rw [he]
      exact .inl (h.put rfl fun he => Stream.consuming_iff.mpr ⟨rfl, (hself he).2⟩)
    · rw [he]
      exact .inl (h.put rfl (hin rfl))
    · by_cases hji : j = i
      · subst hji
        refine .inr ⟨stream, hj, .inl ?_⟩
        rcases w.scheduler.takeCompletionNowait_cases (some (stream.ownedBy j)) with
          ⟨taken, l₁, l₂, -, -, -, hfound⟩ | ⟨hnone, -⟩
        · unfold ExecutionPool.driveTake at he
          rw [hfound] at he
          have hstream := congrArg (fun v => (v.streams[j]?).map Stream.phase) he
          obtain ⟨phase, heq, hphase, -⟩ := stream.enterFinally_eq .raised
          have hlt := (List.getElem?_eq_some_iff.mp hj).1
          simp only [ExecutionPool.put, heq, List.getElem?_set_self hlt, Option.map_some,
            Option.some.injEq] at hstream
          rcases hphase with rfl | rfl | rfl | rfl <;> cases hstream
        · intro completion hmem
          obtain ⟨owned, he, hno⟩ := hnone completion hmem
          cases he
          exact hno
      · rw [he]
        exact .inl (h.put rfl fun he => absurd he hji)
  case h_3 =>
    cases hd
    exact .inl (h.put rfl fun he => Stream.consuming_iff.mpr
      ⟨rfl, Stream.consuming_mayPull _ (hself he).2⟩)
  case h_4 =>
    cases hd
    split_ifs with hend
    · by_cases hji : j = i
      · subst hji
        exact .inr ⟨stream, hj, .inr hend⟩
      · exact .inl (h.put rfl fun he => absurd he hji)
    · exact .inl (h.put rfl (hin rfl))
  case h_5 =>
    cases hd
    cases hc : stream.carried with
    | none =>
      unfold ExecutionPool.driveAdmit
      rw [hc]
      exact .inl (h.put rfl (hin rfl))
    | some submission =>
      obtain ⟨stream', he, hcases⟩ := driveAdmit_cases w j hc start
      rw [he]
      refine .inl (h.put rfl fun hji => ?_)
      rcases hcases with ⟨-, rfl⟩ | ⟨-, rfl⟩ | ⟨-, rfl⟩ <;>
        exact Stream.consuming_iff.mpr ⟨rfl, (hself hji).2⟩
  case h_6 =>
    cases hd
    exact .inl (h.put rfl fun he => Stream.consuming_collectPull _ (hself he).2)
  case h_7 =>
    cases hd
    exact .inl (h.put rfl fun he => Stream.consuming_iff.mpr
      ⟨rfl, Stream.consuming_mayPull _ (hself he).2⟩)
  case h_8 hp =>
    cases hd
    have hji : j ≠ i := fun he => by simpa [hp, Phase.looping] using (hself he).1
    unfold ExecutionPool.driveBookkeeping
    dsimp only
    split_ifs <;> exact .inl (h.put rfl fun he => absurd he hji)
  case h_9 hp =>
    cases hd
    have hji : j ≠ i := fun he => by simpa [hp, Phase.looping] using (hself he).1
    unfold ExecutionPool.releaseOwned
    split_ifs <;> exact .inl (h.put rfl fun he => absurd he hji)
  case h_10 => cases hd

/-- A task of the event loop, which leaves the consumer of stream `i` and its source alone. -/
theorem loopStep {action : PoolAction Job C Done Fault} (h : Consuming i w)
    (hok : spares i action w = true) (hs : w.loopStep action = some w') : Consuming i w' := by
  have hself : ∀ {j : ℕ} {stream : Stream Job C Done}, w.streams[j]? = some stream → j = i →
      stream.phase.looping = true ∧ stream.failed = false := by
    rintro j stream hj rfl
    obtain ⟨other, hi, hc⟩ := h
    rw [hj] at hi
    cases hi
    exact Stream.consuming_iff.mp hc
  have hin : ∀ {j : ℕ} {stream : Stream Job C Done} {phase : Phase C Done},
      w.streams[j]? = some stream → phase.looping = true → j = i →
      ({ stream with phase := phase } : Stream Job C Done).consuming = true :=
    fun hj hphase he => Stream.consuming_iff.mpr ⟨hphase, (hself hj he).2⟩
  cases action <;> simp only [ExecutionPool.loopStep, ExecutionPool.onStream,
    Option.bind_eq_some_iff, reduceCtorEq] at hs
  case runStream | mapStream => split_ifs at hs; cases hs; exact h.openStream _ _
  case anext j =>
    obtain ⟨stream, hj, hs⟩ := hs
    split at hs
    case h_1 => cases hs; exact h.put rfl (hin hj rfl)
    case h_2 =>
      split_ifs at hs
      cases hs
      exact h.put rfl (hin hj rfl)
    case h_3 => cases hs; exact h.put rfl (hin hj rfl)
    case h_4 hp =>
      cases hs
      exact h.put rfl fun he => by simpa [hp, Phase.looping] using (hself hj he).1
    case h_5 => cases hs
  case aclose j =>
    have hji : j ≠ i := by simpa [spares] using hok
    obtain ⟨stream, hj, hs⟩ := hs
    split at hs <;> cases hs
    refine h.put ?_ fun he => absurd he hji
    unfold ExecutionPool.releaseOwned
    split_ifs <;> rfl
  case finalize j =>
    obtain ⟨stream, hj, hs⟩ := hs
    split at hs
    case h_1 hp =>
      cases hs
      exact h.put rfl fun he => by simpa [hp, Phase.looping] using (hself hj he).1
    case h_2 => cases hs
  case cancel j =>
    have hji : j ≠ i := by simpa [spares] using hok
    obtain ⟨stream, hj, hs⟩ := hs
    split at hs <;> cases hs
    · exact h.put rfl fun he => absurd he hji
    · exact h
    · exact h
    · exact h
  case acquire j =>
    obtain ⟨stream, hj, hs⟩ := hs
    split at hs
    · split_ifs at hs
      cases hs
      exact h.put rfl fun he => Stream.consuming_iff.mpr ⟨(hself hj he).1, rfl⟩
    · cases hs
  case answer j answer =>
    obtain ⟨stream, hj, hs⟩ := hs
    have hput : Consuming i (w.put j (stream.answer j answer)) := by
      refine h.put rfl fun he => ?_
      subst he
      have hloop := (hself hj rfl).1
      cases answer with
      | raised => simp [spares] at hok
      | cancelled =>
        have hcancelling : stream.cancelling = true := by simpa [spares, hj] using hok
        exact Stream.consuming_pullDone hloop (fun _ h => by cases h) fun _ => hcancelling
      | submission | stop =>
        exact Stream.consuming_pullDone hloop (fun _ h => by cases h) (fun h => by cases h)
    split at hs
    · cases hs
      exact hput
    · split_ifs at hs
      cases hs
      exact hput
    · cases hs
  case wakeStreams => split_ifs at hs; cases hs; exact h.wakeAll rfl
  case drain => split_ifs at hs; cases hs; exact h.wakeAll rfl
  case cancelAll => split_ifs at hs; cases hs; exact h
  case closed =>
    split_ifs at hs
    cases hs
    refine h.wakeAll ?_
    unfold ExecutionPool.finishClose ExecutionPool.wakeAll
    dsimp only
    split_ifs <;> rfl

/-- **One step.** The stream stays in its loop, unless it may leave it. -/
theorem step {action : PoolAction Job C Done Fault} (h : Consuming i w)
    (hok : spares i action w = true) (hs : ExecutionPool.step action w = some w') :
    Consuming i w' ∨ Leaves i w := by
  unfold ExecutionPool.step at hs
  split at hs
  case h_1 | h_2 =>
    obtain ⟨scheduler, -, rfl⟩ := Option.map_eq_some_iff.mp hs
    exact .inl h
  case h_3 => split_ifs at hs; cases hs; exact .inl h
  case h_4 =>
    split_ifs at hs
    obtain ⟨scheduler, -, rfl⟩ := Option.map_eq_some_iff.mp hs
    exact .inl h
  case h_5 j start =>
    split_ifs at hs
    obtain ⟨stream, hj, hd⟩ := Option.bind_eq_some_iff.mp hs
    exact h.drive hj hd
  case h_6 =>
    split_ifs at hs
    exact .inl (h.loopStep hok hs)

end Consuming

/-! ### The kinds of streams -/

/-- Which streams are map streams. -/
def ExecutionPool.kinds (w : ExecutionPool Job C Done Fault) : List Bool :=
  w.streams.map Stream.endsOnOwnWork

theorem kinds_put {i : ℕ} {stream stream' : Stream Job C Done} (hi : w.streams[i]? = some stream)
    (hstreams : w'.streams = w.streams)
    (hkind : stream'.endsOnOwnWork = stream.endsOnOwnWork) : (w'.put i stream').kinds = w.kinds := by
  refine List.ext_getElem? fun j => ?_
  simp only [ExecutionPool.kinds, ExecutionPool.put, hstreams, List.getElem?_map,
    List.getElem?_set]
  split_ifs with hij hlt
  · subst hij
    simp [hi, hkind]
  · subst hij
    exact absurd (List.getElem?_eq_some_iff.mp hi).1 hlt
  · rfl

theorem kinds_wakeAll (hstreams : w'.streams = w.wakeAll.streams) : w'.kinds = w.kinds := by
  refine List.ext_getElem? fun j => ?_
  simp only [ExecutionPool.kinds, hstreams, ExecutionPool.wakeAll, List.getElem?_map,
    List.getElem?_mapIdx]
  cases w.streams[j]? with
  | none => rfl
  | some stream =>
    simp only [Option.map_some]
    split_ifs <;> rfl

/-- A stream keeps its kind. -/
theorem kinds_step (heff : Effect w w') : w.kinds <+: w'.kinds := by
  have heq : ∀ {v : ExecutionPool Job C Done Fault}, v.kinds = w.kinds → w.kinds <+: v.kinds :=
    fun h => h ▸ List.prefix_rfl
  cases heff with
  | opened endsOnOwnWork width =>
    simp only [ExecutionPool.kinds, ExecutionPool.openStream, List.map_append]
    exact List.prefix_append _ _
  | moves i stream stream' hi hlocal => exact heq (kinds_put hi rfl hlocal.keeps.kind)
  | breaks i stream hi =>
    obtain ⟨phase, heq', -⟩ := stream.enterFinally_eq .raised
    rw [heq']
    exact heq (kinds_put hi rfl rfl)
  | takes i stream hi =>
    obtain ⟨phase, heq', -⟩ := stream.enterFinally_eq .raised
    rcases driveTake_cases w i stream with ⟨completion, scheduler, -, he⟩ | he | ⟨-, state, he⟩
    · exact heq (he ▸ kinds_put hi rfl rfl)
    · exact heq (he ▸ kinds_put hi rfl rfl)
    · rw [heq'] at he
      exact heq (he ▸ kinds_put hi rfl rfl)
  | admits i stream submission start hi hp hc =>
    obtain ⟨stream', he, hcases⟩ := driveAdmit_cases w i hc start
    rw [he]
    refine heq (kinds_put hi rfl ?_)
    rcases hcases with ⟨-, rfl⟩ | ⟨-, rfl⟩ | ⟨-, rfl⟩ <;> rfl
  | keepsBooks i stream ending hi =>
    refine heq (kinds_put hi ?_ rfl)
    split_ifs <;> rfl
  | departs i stream phase hi =>
    refine heq (kinds_put hi ?_ rfl)
    unfold ExecutionPool.releaseOwned
    split_ifs <;> rfl
  | wakes | closes => exact heq (kinds_wakeAll rfl)
  | finishes =>
    refine heq (kinds_wakeAll ?_)
    unfold ExecutionPool.finishClose
    dsimp only
    split_ifs <;> rfl
  | unchanged | worker | cancels | shutsDown | joins => exact List.prefix_rfl

theorem kind_step (heff : Effect w w') {i : ℕ} {stream stream' : Stream Job C Done}
    (hi : w.streams[i]? = some stream) (hi' : w'.streams[i]? = some stream') :
    stream'.endsOnOwnWork = stream.endsOnOwnWork := by
  have hat : w.kinds[i]? = some stream.endsOnOwnWork := by
    rw [ExecutionPool.kinds, List.getElem?_map, hi, Option.map_some]
  have hat' : w'.kinds[i]? = some stream'.endsOnOwnWork := by
    rw [ExecutionPool.kinds, List.getElem?_map, hi', Option.map_some]
  obtain ⟨rest, he⟩ := kinds_step heff
  rw [← he, List.getElem?_append_left (List.getElem?_eq_some_iff.mp hat).1, hat] at hat'
  exact (Option.some.inj hat').symm

/-! ### What a stream that goes on receives -/

/-- A stream that may claim the completion was handed it. -/
def Received (w : ExecutionPool Job C Done Fault) (completion : Completion (Context C) Done) : Prop :=
  ∃ (i : ℕ) (stream : Stream Job C Done), w.streams[i]? = some stream ∧
    stream.ownedBy i completion.context = true ∧
      completion ∈ stream.received ++ stream.inHand

theorem received_of_delivered (h : Tagged w) {i : ℕ} {completion : Completion (Context C) Done}
    (hd : .delivered i completion ∈ w.scheduler.history) : Received w completion := by
  have hi := List.getElem?_eq_getElem (h.drivers i completion hd)
  have hst := h.stream i _ hi
  have hmem := mem_deliveries.mpr hd
  exact ⟨i, _, hi, hst.own completion hmem, hst.received ▸ hmem⟩

/-- **A stream that goes on** is handed each completion that it may claim, or another plain stream
is: while it is in its loop the completion stays buffered, and it leaves its loop only when the
completion is gone. -/
theorem consumes {capacity : ℤ} {w₀ : ExecutionPool Job C Done Fault}
    (h0 : ExecutionPool.open? capacity = some w₀) (h : Reachable ExecutionPool.step w₀ w) {i : ℕ}
    {stream : Stream Job C Done} (hi : w.streams[i]? = some stream)
    (hc : stream.consuming = true) {completion : Completion (Context C) Done}
    (hready : completion ∈ w.scheduler.ready) (hown : stream.ownedBy i completion.context = true)
    (h' : Reach ExecutionPool.step (fun action u => spares i action u = true) w w') :
    (Consuming i w' ∧ completion ∈ w'.scheduler.ready) ∨ Received w' completion := by
  have hinit := init_of_open? h0
  -- A stream keeps its kind, and a delivery stays in the history.
  suffices hinv : ((∃ stream', w'.streams[i]? = some stream' ∧ stream'.consuming = true ∧
      stream'.endsOnOwnWork = stream.endsOnOwnWork) ∧ completion ∈ w'.scheduler.ready) ∨
      ∃ j, .delivered j completion ∈ w'.scheduler.history by
    rcases hinv with ⟨⟨stream', hst, hc, -⟩, hready⟩ | ⟨j, hd⟩
    · exact .inl ⟨⟨stream', hst, hc⟩, hready⟩
    · exact .inr (received_of_delivered
        (tagged_of_reach h0 (h.trans (h'.mono fun _ _ _ => trivial))) hd)
  refine h'.invariant (I := fun v => ((∃ stream', v.streams[i]? = some stream' ∧
      stream'.consuming = true ∧ stream'.endsOnOwnWork = stream.endsOnOwnWork) ∧
      completion ∈ v.scheduler.ready) ∨ ∃ j, .delivered j completion ∈ v.scheduler.history)
    (.inl ⟨⟨stream, hi, hc, rfl⟩, hready⟩) fun u a v hr hu hok hs => ?_
  have hreach : Reachable ExecutionPool.step w₀ u := h.trans (hr.mono fun _ _ _ => trivial)
  have heff := effect_of_step hs
  rcases hu with ⟨⟨current, hst, hcur, hkind⟩, hready⟩ | ⟨j, hd⟩
  · have howned : current.ownedBy i completion.context = true := by
      rw [Stream.ownedBy, hkind]
      exact hown
    have hsched := scheduler_reachable h0 hreach
    rcases Consuming.step ⟨current, hst, hcur⟩ hok hs with ⟨next, hnext, hgoes⟩ | ⟨other, ho, hleaves⟩
    · rcases ready_step (alarmed_of_reach h0 hreach) heff hready with hkept | hgone
      · exact .inl ⟨⟨next, hnext, hgoes, (kind_step heff hst hnext).trans hkind⟩, hkept⟩
      · cases hgone with
        | delivered j hd => exact .inr ⟨j, hd⟩
        | released j other hj ho hkind hdep =>
          have hij := (current.owns_of_ownedBy howned hj).2
          subst hij
          rw [hnext] at ho
          cases ho
          rw [Stream.not_departed_of_consuming hgoes] at hdep
          cases hdep
        | discarded hzero =>
          have := inactive_of_busy hzero next (List.mem_of_getElem? hnext)
          rw [Stream.active_of_consuming hgoes] at this
          cases this
    · rw [hst] at ho
      cases ho
      rcases hleaves with hnone | hend
      · rw [hnone completion hready] at howned
        cases howned
      · have hzero := work_eq_zero_of_atEnd (counted_of_reach h0 hreach)
          (accounted_of_reachable hinit hsched) (workersOk_of_reachable hinit hsched) hst hend
        have hpos : 0 < u.scheduler.finished (current.ownedBy i) :=
          List.countP_pos_iff.mpr ⟨completion, hready, howned⟩
        simp only [work] at hzero
        omega
  · refine .inr ⟨j, ?_⟩
    rcases scheduler_step (closingOk_of_reach h0 hreach) heff with he | ⟨action, hstep⟩
    · rw [he]
      exact hd
    · exact (history_step hstep).subset hd

end DrExec.Scheduling.Pool
