import DrExec.Scheduling.Streams

/-! # The departure of a map stream

A map stream calls `release_owned` once, as it departs. From then on it submits nothing, so work of
its own in the scheduler only goes down (`Departed.step`); but what was queued or running as it left
is finished later, and then no driver can claim it. `drains` runs the worker threads until nothing
is queued or running, and `departure_releases_iff` is exactly when a departed stream leaves nothing
behind. -/

namespace DrExec.Scheduling.Pool

open DrExec.Lib.Transition Scheduler ExecutionScheduler

variable {Job C Done Fault : Type}

/-- `map_stream` has called `release_owned`. -/
def Stream.departed (stream : Stream Job C Done) : Bool :=
  match stream.phase with
  | .abandoned | .finalizing .closed | .bookkeeping .closed | .ended _ => true
  | _ => false

/-- The action makes map stream `i` call `release_owned`: its consumer closes it, or its
`_drive_stream` ended and its own `finally` block is next. -/
def Departs (w : ExecutionPool Job C Done Fault) (action : PoolAction Job C Done Fault) (i : ℕ) : Prop :=
  ∃ stream, w.streams[i]? = some stream ∧ stream.endsOnOwnWork = true ∧
    (action = .aclose i ∨ ∃ start ending, action = .drive i start ∧ stream.phase = .departing ending)

/-- Map stream `i` has departed and the scheduler holds no work of its own. -/
structure Departed (i : ℕ) (w : ExecutionPool Job C Done Fault) : Prop where
  departed : ∃ stream, w.streams[i]? = some stream ∧ stream.departed = true
  nothing : w.scheduler.work (owns i) = 0

theorem Stream.departed_enterFinally_closed (stream : Stream Job C Done) :
    (stream.enterFinally .closed).departed = true := by
  obtain ⟨phase, he, hphase, hne⟩ := stream.enterFinally_eq .closed
  rw [he]
  rcases hphase with rfl | rfl | rfl | rfl
  · rfl
  · rfl
  · exact absurd rfl (hne rfl)
  · rfl

theorem Stream.departed_pullDone {stream : Stream Job C Done} (pull : Pull Job C)
    (hd : stream.departed = true) : (stream.pullDone pull).departed = true := by
  unfold Stream.pullDone
  dsimp only
  split
  · next hp => simp [Stream.departed, hp] at hd
  · next ending hp =>
    have : ending = .closed := by cases ending <;> simp_all [Stream.departed]
    subst this
    exact departed_enterFinally_closed _
  · exact hd

/-- A departed stream stays departed. -/
theorem Local.departed {w : ExecutionPool Job C Done Fault} {i : ℕ} {stream stream' : Stream Job C Done}
    (h : Local w i stream stream') (hd : stream.departed = true) : stream'.departed = true := by
  cases h with
  | loopHead hp => simp [Stream.departed, hp] at hd
  | yieldTaken completion hp => simp [Stream.departed, hp] at hd
  | ends hp => simp [Stream.departed, hp] at hd
  | goesOn hp => simp [Stream.departed, hp] at hd
  | carriesNothing hp => simp [Stream.departed, hp] at hd
  | collect hp => simp [Stream.departed, hp] at hd
  | park hp => simp [Stream.departed, hp] at hd
  | resumes hp => rcases hp with hp | hp <;> simp [Stream.departed, hp] at hd
  | settles cancelled hp => simp [Stream.departed, hp] at hd
  | cancelled hp => simp [Stream.departed, hp] at hd
  | finalized hp => exact stream.departed_enterFinally_closed
  | acquires => exact hd
  | answered answer => cases answer <;> exact Stream.departed_pullDone _ hd

/-- What `release_owned` leaves of another owner's work is at most what there was. -/
theorem work_releaseOwned_pool (w : ExecutionPool Job C Done Fault) (i : ℕ)
    (stream : Stream Job C Done) (p : Context C → Bool) :
    (w.releaseOwned i stream).scheduler.work p ≤ w.scheduler.work p := by
  unfold ExecutionPool.releaseOwned
  split_ifs
  · exact work_releaseOwned_le p (owns i)
  · exact le_rfl

/-- **A departed stream gets no more work.** -/
theorem Departed.step {w w' : ExecutionPool Job C Done Fault} {i : ℕ} (h : Departed i w)
    (ht : Tagged w) (heff : Effect w w') : Departed i w' := by
  obtain ⟨⟨stream, hi, hd⟩, hz⟩ := h
  -- Another stream of the list leaves stream `i` in its place.
  have hkeep : ∀ (v : ExecutionPool Job C Done Fault) (j : ℕ) (other : Stream Job C Done),
      v.streams[i]? = some stream → j ≠ i →
      ∃ kept, (v.put j other).streams[i]? = some kept ∧ kept.departed = true := by
    intro v j other hv hne
    refine ⟨stream, ?_, hd⟩
    simpa [ExecutionPool.put, List.getElem?_set, hne] using hv
  have hwoken : ∃ woken, w.wakeAll.streams[i]? = some woken ∧ woken.departed = true := by
    simp only [ExecutionPool.wakeAll, List.getElem?_mapIdx, hi, Option.map_some]
    refine ⟨_, rfl, ?_⟩
    split_ifs <;> exact hd
  have hzero : ∀ {n : ℕ}, n ≤ w.scheduler.work (owns i) → n = 0 := fun hn => by omega
  cases heff with
  | unchanged => exact ⟨⟨stream, hi, hd⟩, hz⟩
  | worker action scheduler haction hs =>
    exact ⟨⟨stream, hi, hd⟩, hzero (work_worker_le (owns i) haction hs)⟩
  | opened endsOnOwnWork width =>
    have hlt := (List.getElem?_eq_some_iff.mp hi).1
    refine ⟨⟨stream, ?_, hd⟩, hz⟩
    simpa [ExecutionPool.openStream, List.getElem?_append, hlt] using hi
  | moves j other other' hj hlocal =>
    refine ⟨?_, hz⟩
    by_cases hji : j = i
    · subst hji
      have hlt := (List.getElem?_eq_some_iff.mp hi).1
      rw [hi] at hj
      cases hj
      exact ⟨other', by simp [ExecutionPool.put, hlt], hlocal.departed hd⟩
    · exact hkeep w j other' hi hji
  | breaks j other hj hp =>
    have hji : j ≠ i := by
      rintro rfl
      rw [hi] at hj
      cases hj
      simp [Stream.departed, hp] at hd
    exact ⟨hkeep { w with state := .broken } j _ hi hji, hz⟩
  | takes j other hj hp =>
    have hji : j ≠ i := by
      rintro rfl
      rw [hi] at hj
      cases hj
      simp [Stream.departed, hp] at hd
    rcases driveTake_cases w j other with ⟨completion, scheduler, htake, he⟩ | he | ⟨-, state, he⟩
    · rw [he]
      refine ⟨hkeep _ j _ hi hji, hzero ?_⟩
      have := (work_taken (owns i) j (other.ownedBy j) htake).2
      change (scheduler.record _).work (owns i) ≤ _
      omega
    · rw [he]; exact ⟨hkeep _ j _ hi hji, hz⟩
    · rw [he]; exact ⟨hkeep { w with state := state } j _ hi hji, hz⟩
  | admits j other submission start hj hp hc =>
    have hji : j ≠ i := by
      rintro rfl
      rw [hi] at hj
      cases hj
      simp [Stream.departed, hp] at hd
    obtain ⟨other', he, -⟩ := driveAdmit_cases w j hc start
    have hne : owns i submission.context = false := by
      by_contra hown
      exact hji (Stream.owns_of_ownedBy other ((ht.stream j other hj).carried submission hc)
        (by simpa using hown)).2
    rw [he]
    exact ⟨hkeep _ j _ hi hji, hzero (work_admit_le (owns i) submission.job hne start)⟩
  | keepsBooks j other ending hj hp =>
    have hwork : (w.driveBookkeeping j other ending).scheduler.work (owns i) ≤
        w.scheduler.work (owns i) := by
      rcases scheduler_driveBookkeeping w j other ending with he | ⟨-, he⟩
      · rw [he]
      · rw [he]; exact work_dropCompletions_le (s := w.scheduler) (owns i)
    have hstreams : (w.driveBookkeeping j other ending).streams = (w.put j { other with
        phase := if ending = Ending.closed then .ended .closed else .departing ending }).streams := by
      unfold ExecutionPool.driveBookkeeping
      dsimp only
      split_ifs <;> rfl
    refine ⟨?_, hzero hwork⟩
    rw [hstreams]
    by_cases hji : j = i
    · subst hji
      have hlt := (List.getElem?_eq_some_iff.mp hi).1
      rw [hi] at hj
      cases hj
      have hclosed : ending = .closed := by
        cases ending <;> simp_all [Stream.departed]
      subst hclosed
      exact ⟨{ stream with phase := .ended .closed }, by simp [ExecutionPool.put, hlt], rfl⟩
    · exact hkeep w j _ hi hji
  | departs j other phase hj hphase =>
    have hji : j ≠ i := by
      rintro rfl
      rw [hi] at hj
      cases hj
      rcases hphase with ⟨hp, -⟩ | ⟨ending, hp, -⟩ <;> simp [Stream.departed, hp] at hd
    have hstreams : (w.releaseOwned j other).streams = w.streams := by
      unfold ExecutionPool.releaseOwned
      split_ifs <;> rfl
    exact ⟨hkeep _ j _ (by rw [hstreams]; exact hi) hji,
      hzero (work_releaseOwned_pool w j other (owns i))⟩
  | wakes => exact ⟨hwoken, hz⟩
  | closes => exact ⟨hwoken, hz⟩
  | cancels =>
    refine ⟨⟨stream, hi, hd⟩, ?_⟩
    change w.scheduler.cancelAll.work (owns i) = 0
    rw [cancelAll, cancelTokens_eq]
    exact hz
  | shutsDown => exact ⟨⟨stream, hi, hd⟩, hz⟩
  | joins scheduler hjoin hs =>
    refine ⟨⟨stream, hi, hd⟩, hzero ?_⟩
    simp only [ExecutionScheduler.step] at hs
    split at hs
    · next call _ =>
      split_ifs at hs
      cases hs
      exact work_shutdownEnd_le (owns i) call
    · cases hs
  | finishes =>
    have hstreams : w.finishClose.streams = w.wakeAll.streams := by
      unfold ExecutionPool.finishClose
      dsimp only
      split_ifs <;> rfl
    refine ⟨by rw [hstreams]; exact hwoken, hzero ?_⟩
    rcases scheduler_finishClose w with he | he
    · rw [he]
    · rw [he]; exact work_dropCompletions_le (s := w.scheduler) (owns i)

/-! ### What a departure leaves behind -/

/-- The step at which stream `i` departs: its buffered completions are released, its queued and
running jobs stay. -/
theorem departed_of_departs {w w' : ExecutionPool Job C Done Fault}
    {action : PoolAction Job C Done Fault} {i : ℕ} (hd : Departs w action i)
    (hs : ExecutionPool.step action w = some w') :
    (∃ stream, w'.streams[i]? = some stream ∧ stream.departed = true) ∧
      w'.scheduler.unfinished (owns i) = w.scheduler.unfinished (owns i) ∧
      w'.scheduler.finished (owns i) = 0 := by
  obtain ⟨stream, hi, hk, hact⟩ := hd
  have hlt := (List.getElem?_eq_some_iff.mp hi).1
  have hrelease : w.releaseOwned i stream =
      { w with scheduler := w.scheduler.releaseOwned (owns i) } := by
    simp [ExecutionPool.releaseOwned, hk]
  obtain ⟨phase, hphase, hw'⟩ : ∃ phase : Phase C Done,
      ({ stream with phase := phase } : Stream Job C Done).departed = true ∧
      w' = (w.releaseOwned i stream).put i { stream with phase := phase } := by
    rcases hact with rfl | ⟨start, ending, rfl, hp⟩
    · simp only [ExecutionPool.step, ExecutionPool.loopStep, ExecutionPool.onStream, hi,
        Option.bind_some] at hs
      split_ifs at hs
      split at hs
      · cases hs; exact ⟨.abandoned, rfl, rfl⟩
      · cases hs
    · simp only [ExecutionPool.step, ExecutionPool.onStream, hi, Option.bind_some,
        ExecutionPool.drive, hp] at hs
      split_ifs at hs
      cases hs
      exact ⟨.ended ending, rfl, rfl⟩
  subst hw'
  have hself := releaseOwned_self (s := w.scheduler) (owns i)
  rw [hrelease]
  exact ⟨⟨{ stream with phase := phase }, by simp [ExecutionPool.put, hlt], hphase⟩, hself.1,
    hself.2⟩

/-- Steps of worker threads are steps of the pool. -/
theorem reachable_of_workers {w : ExecutionPool Job C Done Fault}
    {scheduler : ExecutionScheduler Job (Context C) Done Fault}
    (h : Reach ExecutionScheduler.step (fun action _ => IsWorker action) w.scheduler scheduler) :
    Reachable ExecutionPool.step w { w with scheduler := scheduler } := by
  induction h with
  | refl => exact .refl
  | @tail t u a _ ha hs ih =>
    rcases ha with ⟨worker, rfl⟩ | ⟨worker, result, rfl⟩
    · exact ih.tail (a := .takeAdmitted worker) trivial (by simp [ExecutionPool.step, hs])
    · exact ih.tail (a := .finish worker result) trivial (by simp [ExecutionPool.step, hs])

/-- **What a departed map stream leaves behind.** Whenever a map stream departs, in any run: no
later state in which its jobs have all finished counts a completion of it as resident, if and only
if none of its jobs is queued or running as it departs. -/
theorem departure_releases_iff [Inhabited Done] {capacity : ℤ}
    {w₀ w w' : ExecutionPool Job C Done Fault} (h0 : ExecutionPool.open? capacity = some w₀)
    (h : Reachable ExecutionPool.step w₀ w) {action : PoolAction Job C Done Fault} {i : ℕ}
    (hd : Departs w action i) (hs : ExecutionPool.step action w = some w') :
    (∀ w'', Reachable ExecutionPool.step w' w'' → w''.scheduler.unfinished (owns i) = 0 →
      w''.scheduler.finished (owns i) = 0) ↔ w.scheduler.unfinished (owns i) = 0 := by
  obtain ⟨hstream, hunfinished, hfinished⟩ := departed_of_departs hd hs
  have hr' : Reachable ExecutionPool.step w₀ w' := h.tail trivial hs
  constructor
  · intro hall
    have hok := workersOk_of_reachable (init_of_open? h0) (scheduler_reachable h0 hr')
    obtain ⟨scheduler, hrun, hp, hc, hwork⟩ := drains default _ hok rfl
    have hidle : scheduler.unfinished (owns i) = 0 := by simp [unfinished, hp, hc]
    have hnone := hall _ (reachable_of_workers hrun) hidle
    have := hwork (owns i)
    simp only [work] at this hnone
    omega
  · intro hzero w'' hr _
    have hdeparted : Departed i w'' := by
      refine hr.invariant (I := Departed i) ⟨hstream, ?_⟩ fun u a v hru hu _ hsu =>
        hu.step (tagged_of_reach h0 (hr'.trans hru)) (effect_of_step hsu)
      simp only [work]
      omega
    have := hdeparted.nothing
    simp only [work] at this
    omega

/-- A pool of one slot whose only stream was cancelled while its job runs, about to depart. -/
def leaving : ExecutionPool ℕ ℕ ℕ ℕ where
  scheduler :=
    { capacity := 1
      tokens := [(0, ⟨0⟩)]
      workers := [0]
      nextTicket := 1
      residents := 1
      running := 1
      announced := 1
      threads := [.calling ⟨0, 7, .owned 0 9, ⟨0⟩⟩]
      history := [.admitted 0 7 (.owned 0 9), .called 0 7] }
  streams :=
    [{ endsOnOwnWork := true
       permits := 0
       outstanding := 1
       phase := .departing .raised
       pulled := [⟨7, 9⟩] }]

theorem leaving_reachable :
    Reachable ExecutionPool.step { scheduler := { capacity := 1 } } leaving := by
  have hrun : exec ExecutionPool.step
      [[.mapStream none], List.replicate 6 (.drive 0 none),
        [.acquire 0, .answer 0 (.submission ⟨7, 9⟩), .anext 0, .anext 0],
        List.replicate 15 (.drive 0 none),
        [.takeAdmitted 0, .cancel 0, .anext 0, .drive 0 none]].flatten
      ({ scheduler := { capacity := 1 } } : ExecutionPool ℕ ℕ ℕ ℕ) = some leaving := by
    decide +kernel
  exact .of_exec _ (fun _ _ => trivial) hrun

/-- The pool after its stream departed. -/
def departedPool : ExecutionPool ℕ ℕ ℕ ℕ :=
  { leaving with
    scheduler := { leaving.scheduler with announced := 2 }
    streams :=
      [{ endsOnOwnWork := true
         permits := 0
         outstanding := 1
         phase := .ended .raised
         pulled := [⟨7, 9⟩] }] }

theorem leaving_departs : Departs leaving (.drive 0 none) 0 :=
  ⟨_, rfl, rfl, Or.inr ⟨none, .raised, rfl, rfl⟩⟩

theorem leaving_releases_iff :
    (∀ w'', Reachable ExecutionPool.step departedPool w'' →
      w''.scheduler.unfinished (owns 0) = 0 → w''.scheduler.finished (owns 0) = 0) ↔
      leaving.scheduler.unfinished (owns 0) = 0 := by
  have h0 : ExecutionPool.open? 1 =
      some ({ scheduler := { capacity := 1 } } : ExecutionPool ℕ ℕ ℕ ℕ) := by decide
  exact departure_releases_iff h0 leaving_reachable leaving_departs (by decide)

/-- **A departed map stream can hold capacity.** Its job finishes after it left, and the completion
fills the pool for good. -/
theorem departed_stream_holds_capacity :
    ¬ ∀ (capacity : ℤ) (w₀ w w' w'' : ExecutionPool ℕ ℕ ℕ ℕ) (action : PoolAction ℕ ℕ ℕ ℕ) (i : ℕ),
      ExecutionPool.open? capacity = some w₀ → Reachable ExecutionPool.step w₀ w →
      Departs w action i → ExecutionPool.step action w = some w' →
      Reachable ExecutionPool.step w' w'' → w''.scheduler.unfinished (owns i) = 0 →
      w''.scheduler.finished (owns i) = 0 := by
  intro hall
  have h0 : ExecutionPool.open? 1 =
      some ({ scheduler := { capacity := 1 } } : ExecutionPool ℕ ℕ ℕ ℕ) := by decide
  have hlater : Reachable ExecutionPool.step departedPool
      { departedPool with
        scheduler := departedPool.scheduler.workerFinishes 0 ⟨0, 7, .owned 0 9, ⟨0⟩⟩ (.ok 5) } :=
    .of_exec [.finish 0 (.ok 5)] (fun _ _ => trivial) (by decide)
  have := hall 1 _ leaving departedPool _ _ 0 h0 leaving_reachable leaving_departs (by decide)
    hlater (by decide)
  exact absurd this (by decide)

end DrExec.Scheduling.Pool
