import DrExec.Scheduling.Pool
import DrExec.Scheduling.Work

/-! # What holds of streams in every run

Every step of the pool is one section of its scheduler or none (`scheduler_step`), so the scheduler
of a pool is in a state a scheduler reaches. In every run a stream submits, takes and receives only
work of its own kind: a map stream its own, a plain stream that of plain streams (`Tagged`). -/

namespace DrExec.Scheduling.Pool

open DrExec.Lib.Transition Scheduler ExecutionScheduler

variable {Job C Done Fault : Type}

/-! ### The steps of a pool -/

/-- The steps of one stream that run no section of the scheduler. -/
inductive Local (w : ExecutionPool Job C Done Fault) (i : ℕ) (stream : Stream Job C Done) :
    Stream Job C Done → Prop
  | loopHead : stream.phase = .top → Local w i stream (stream.loopHead w.state)
  | yieldTaken (completion : Completion (Context C) Done) : stream.phase = .took completion →
      Local w i stream (stream.yieldTaken w.scheduler.canAdmit completion)
  | ends : stream.phase = .checkEnd → stream.atEnd w.scheduler.hasResidents = true →
      Local w i stream (stream.enterFinally .returned)
  | goesOn : stream.phase = .checkEnd → stream.atEnd w.scheduler.hasResidents = false →
      Local w i stream { stream with phase := .admitCarried }
  | carriesNothing : stream.phase = .admitCarried → stream.carried = none →
      Local w i stream { stream with phase := .collect }
  | collect : stream.phase = .collect → Local w i stream (stream.collectPull w.state)
  | park : stream.phase = .pull → Local w i stream (stream.park w.scheduler.canAdmit)
  | resumes : stream.phase = .yielded ∨ stream.phase = .settling false →
      Local w i stream { stream with phase := .top }
  | settles (cancelled : Bool) : stream.phase = .parked →
      Local w i stream { stream with phase := .settling cancelled }
  | cancelled : stream.phase = .settling true → Local w i stream (stream.enterFinally .raised)
  | finalized : stream.phase = .abandoned → Local w i stream (stream.enterFinally .closed)
  | acquires : stream.sourcePull = some .acquiring → 0 < stream.permits →
      Local w i stream { stream with permits := stream.permits - 1, sourcePull := some .asking }
  | answered (answer : Answer Job C) :
      stream.sourcePull = some .asking ∨ stream.sourcePull = some .acquiring ∧
        stream.cancelling = true ∧ answer = .cancelled →
      Local w i stream (stream.answer i answer)

/-- What one step of a pool does. -/
inductive Effect (w : ExecutionPool Job C Done Fault) : ExecutionPool Job C Done Fault → Prop
  | unchanged : Effect w w
  | worker (action : Action Job (Context C) Done Fault)
      (scheduler : ExecutionScheduler Job (Context C) Done Fault) :
      ((∃ thread, action = .takeAdmitted thread) ∨
        ∃ thread result, action = .finish thread result) →
      ExecutionScheduler.step action w.scheduler = some scheduler →
      Effect w { w with scheduler := scheduler }
  | opened (endsOnOwnWork : Bool) (width : ℕ) : w.state = .running →
      Effect w (w.openStream endsOnOwnWork width)
  | moves (i : ℕ) (stream stream' : Stream Job C Done) : w.streams[i]? = some stream →
      Local w i stream stream' → Effect w (w.put i stream')
  | breaks (i : ℕ) (stream : Stream Job C Done) : w.streams[i]? = some stream →
      stream.phase = .collect → stream.sourceBroke = true → w.state = .running →
      Effect w ({ w with state := .broken }.put i (stream.enterFinally .raised))
  | takes (i : ℕ) (stream : Stream Job C Done) : w.streams[i]? = some stream →
      stream.phase = .take → Effect w (w.driveTake i stream)
  | admits (i : ℕ) (stream : Stream Job C Done) (submission : ExecutionSubmission Job (Context C))
      (start : Option Fault) : w.streams[i]? = some stream → stream.phase = .admitCarried →
      stream.carried = some submission → Effect w (w.driveAdmit i stream start)
  | keepsBooks (i : ℕ) (stream : Stream Job C Done) (ending : Ending) : w.streams[i]? = some stream →
      stream.phase = .bookkeeping ending → Effect w (w.driveBookkeeping i stream ending)
  | departs (i : ℕ) (stream : Stream Job C Done) (phase : Phase C Done) : w.streams[i]? = some stream →
      (stream.phase = .yielded ∧ phase = .abandoned) ∨
        (∃ ending, stream.phase = .departing ending ∧ phase = .ended ending) →
      Effect w ((w.releaseOwned i stream).put i { stream with phase := phase })
  | wakes : w.woken < w.scheduler.announced → Effect w { w.wakeAll with woken := w.woken + 1 }
  | closes : w.closing = .open → Effect w w.close
  | cancels : w.closing ≠ .open → Effect w { w with scheduler := w.scheduler.cancelAll }
  | shutsDown : w.closing = .quiescing →
      Effect w { w with scheduler := w.scheduler.shutdownBegin true, closing := .joining }
  | joins (scheduler : ExecutionScheduler Job (Context C) Done Fault) : w.closing = .joining →
      ExecutionScheduler.step (.shutdownEnd 0) w.scheduler = some scheduler →
      Effect w { w with scheduler := scheduler, closing := .joined }
  | finishes : w.closing = .joined → Effect w w.finishClose

/-- What a source raised leaves the loop. -/
theorem Stream.collectPull_of_broke {stream : Stream Job C Done} (h : stream.sourceBroke = true)
    (state : ExecutionPoolState) : stream.collectPull state = stream.enterFinally .raised := by
  unfold sourceBroke at h
  split at h
  · next hpull =>
    unfold collectPull
    rw [hpull]
  · cases h

/-- A finished pull is read: the pool's state is as it was, or the source raised `SchedulerBroken` in
a pool that was running. -/
theorem driveCollect_cases (w : ExecutionPool Job C Done Fault) (i : ℕ)
    (stream : Stream Job C Done) :
    w.driveCollect i stream = w.put i (stream.collectPull w.state) ∨
      (stream.sourceBroke = true ∧ w.state = .running ∧ w.driveCollect i stream =
        { w with state := .broken }.put i (stream.enterFinally .raised)) := by
  unfold ExecutionPool.driveCollect
  dsimp only
  split_ifs with hbroke
  · exact .inr ⟨hbroke.1, hbroke.2, by rw [Stream.collectPull_of_broke hbroke.1]⟩
  · exact .inl rfl

theorem effect_of_drive {w w' : ExecutionPool Job C Done Fault} {i : ℕ} {stream : Stream Job C Done}
    (hi : w.streams[i]? = some stream) {start : Option Fault} (h : w.drive i stream start = some w') :
    Effect w w' := by
  unfold ExecutionPool.drive at h
  split at h
  · next hp => cases h; exact .moves i stream _ hi (.loopHead hp)
  · next hp => cases h; exact .takes i stream hi hp
  · next completion hp => cases h; exact .moves i stream _ hi (.yieldTaken completion hp)
  · next hp =>
    cases h
    split_ifs with hend
    · exact .moves i stream _ hi (.ends hp hend)
    · rw [Bool.not_eq_true] at hend
      exact .moves i stream _ hi (.goesOn hp hend)
  · next hp =>
    cases h
    cases hc : stream.carried with
    | none =>
      have : w.driveAdmit i stream start = w.put i { stream with phase := .collect } := by
        simp only [ExecutionPool.driveAdmit, hc]
      rw [this]
      exact .moves i stream _ hi (.carriesNothing hp hc)
    | some submission => exact .admits i stream submission start hi hp hc
  · next hp =>
    cases h
    rcases driveCollect_cases w i stream with he | ⟨hbroke, hrun, he⟩
    · rw [he]
      exact .moves i stream _ hi (.collect hp)
    · rw [he]
      exact .breaks i stream hi hp hbroke hrun
  · next hp => cases h; exact .moves i stream _ hi (.park hp)
  · next ending hp => cases h; exact .keepsBooks i stream ending hi hp
  · next ending hp => cases h; exact .departs i stream _ hi (Or.inr ⟨ending, hp, rfl⟩)
  · cases h

theorem effect_of_loopStep {w w' : ExecutionPool Job C Done Fault}
    {action : PoolAction Job C Done Fault} (h : w.loopStep action = some w') : Effect w w' := by
  cases action <;> simp only [ExecutionPool.loopStep, ExecutionPool.onStream,
    Option.bind_eq_some_iff, reduceCtorEq] at h
  case runStream =>
    split_ifs at h with hrun
    cases h
    exact .opened false 0 hrun
  case mapStream concurrency =>
    split_ifs at h with hrun
    cases h
    exact .opened true _ hrun.1
  case anext i =>
    obtain ⟨stream, hi, h⟩ := h
    split at h
    · next hp => cases h; exact .moves i stream _ hi (.resumes (Or.inl hp))
    · next hp =>
      split_ifs at h
      cases h
      exact .moves i stream _ hi (.settles false hp)
    · next hp => cases h; exact .moves i stream _ hi (.resumes (Or.inr hp))
    · next hp => cases h; exact .moves i stream _ hi (.cancelled hp)
    · cases h
  case aclose i =>
    obtain ⟨stream, hi, h⟩ := h
    split at h
    · next hp => cases h; exact .departs i stream _ hi (Or.inl ⟨hp, rfl⟩)
    · cases h
  case finalize i =>
    obtain ⟨stream, hi, h⟩ := h
    split at h
    · next hp => cases h; exact .moves i stream _ hi (.finalized hp)
    · cases h
  case cancel i =>
    obtain ⟨stream, hi, h⟩ := h
    split at h
    · next hp => cases h; exact .moves i stream _ hi (.settles true hp)
    · cases h; exact .unchanged
    · cases h; exact .unchanged
    · cases h; exact .unchanged
    · cases h
  case acquire i =>
    obtain ⟨stream, hi, h⟩ := h
    split at h
    · next hpull =>
      split_ifs at h with hpermit
      cases h
      simp only [Bool.and_eq_true, decide_eq_true_eq] at hpermit
      exact .moves i stream _ hi (.acquires hpull hpermit.1)
    · cases h
  case answer i answer =>
    obtain ⟨stream, hi, h⟩ := h
    split at h
    · next hpull => cases h; exact .moves i stream _ hi (.answered answer (Or.inl hpull))
    · next hpull =>
      split_ifs at h with hcancel
      cases h
      refine .moves i stream _ hi (.answered answer (Or.inr ⟨hpull, ?_⟩))
      cases answer <;> simp_all
    · cases h
  case wakeStreams =>
    split_ifs at h with hqueued
    cases h
    exact .wakes hqueued
  case drain =>
    split_ifs at h with hopen
    cases h
    exact .closes hopen
  case cancelAll =>
    split_ifs at h with hclosing
    cases h
    exact .cancels hclosing.1
  case closed =>
    split_ifs at h with hjoined
    cases h
    exact .finishes hjoined

/-- **The steps of a pool**, case by case. -/
theorem effect_of_step {w w' : ExecutionPool Job C Done Fault} {action : PoolAction Job C Done Fault}
    (h : ExecutionPool.step action w = some w') : Effect w w' := by
  unfold ExecutionPool.step at h
  split at h
  · next worker =>
    obtain ⟨scheduler, hs, rfl⟩ := Option.map_eq_some_iff.mp h
    exact .worker _ scheduler (Or.inl ⟨worker, rfl⟩) hs
  · next worker result =>
    obtain ⟨scheduler, hs, rfl⟩ := Option.map_eq_some_iff.mp h
    exact .worker _ scheduler (Or.inr ⟨worker, result, rfl⟩) hs
  · split_ifs at h with hq
    cases h
    exact .shutsDown hq.1
  · split_ifs at h with hj
    obtain ⟨scheduler, hs, rfl⟩ := Option.map_eq_some_iff.mp h
    exact .joins scheduler hj hs
  · next i start =>
    split_ifs at h
    obtain ⟨stream, hi, hd⟩ := Option.bind_eq_some_iff.mp h
    exact effect_of_drive hi hd
  · split_ifs at h
    exact effect_of_loopStep h

/-! ### The scheduler of a pool -/

theorem scheduler_driveTake (w : ExecutionPool Job C Done Fault) (i : ℕ)
    (stream : Stream Job C Done) : (w.driveTake i stream).scheduler =
      recordTaken i (w.scheduler.takeCompletionNowait (some (stream.ownedBy i))).1
        (w.scheduler.takeCompletionNowait (some (stream.ownedBy i))).2 := by
  unfold ExecutionPool.driveTake
  dsimp only
  split <;> rfl

/-- A stream that takes is handed a completion, or finds none, or sees the break. -/
theorem driveTake_cases (w : ExecutionPool Job C Done Fault) (i : ℕ) (stream : Stream Job C Done) :
    (∃ completion scheduler, w.scheduler.takeCompletionNowait (some (stream.ownedBy i)) =
        (.ok (some completion), scheduler) ∧
      w.driveTake i stream = { w with scheduler := scheduler.record (.delivered i completion) }.put i
        { stream with outstanding := stream.outstanding - 1, phase := .took completion }) ∨
      w.driveTake i stream = w.put i { stream with phase := .checkEnd } ∨
      (w.scheduler.broken.isSome = true ∧ ∃ state, w.driveTake i stream =
        { w with state := state }.put i (stream.enterFinally .raised)) := by
  unfold ExecutionPool.driveTake
  rcases w.scheduler.takeCompletionNowait_cases (some (stream.ownedBy i)) with
    ⟨completion, l₁, l₂, -, -, -, he⟩ | ⟨-, he⟩
  · exact Or.inl ⟨completion, _, he, by rw [he]; rfl⟩
  · rw [he]
    unfold noneUnlessBroken
    cases hb : w.scheduler.broken with
    | none => exact Or.inr (Or.inl rfl)
    | some failure => exact Or.inr (Or.inr ⟨rfl, _, rfl⟩)

/-- A stream that submits is admitted, or finds the intake closed, or no room. -/
theorem driveAdmit_cases (w : ExecutionPool Job C Done Fault) (i : ℕ) {stream : Stream Job C Done}
    {submission : ExecutionSubmission Job (Context C)} (hc : stream.carried = some submission)
    (start : Option Fault) :
    ∃ stream', w.driveAdmit i stream start =
        { w with
          scheduler := (w.scheduler.admitJob submission.job submission.context start).2 }.put i
            stream' ∧
      (((w.scheduler.admitJob submission.job submission.context start).1 = .admitted ∧ stream' =
          { stream with carried := none, outstanding := stream.outstanding + 1, phase := .top }) ∨
        ((w.scheduler.admitJob submission.job submission.context start).1 = .intakeClosed ∧ stream' =
          { stream with carried := none, exhausted := true, phase := .top }) ∨
        ((w.scheduler.admitJob submission.job submission.context start).1 = .noRoom ∧ stream' =
          { stream with phase := .collect })) := by
  unfold ExecutionPool.driveAdmit
  split
  · next hnone => rw [hc] at hnone; cases hnone
  · next found hsome =>
    rw [hc] at hsome
    cases hsome
    dsimp only
    split
    · next hr => exact ⟨_, rfl, Or.inl ⟨hr, rfl⟩⟩
    · next hr => exact ⟨_, rfl, Or.inr (Or.inl ⟨hr, rfl⟩)⟩
    · next hr => exact ⟨_, rfl, Or.inr (Or.inr ⟨hr, rfl⟩)⟩

theorem scheduler_driveAdmit (w : ExecutionPool Job C Done Fault) (i : ℕ)
    {stream : Stream Job C Done} {submission : ExecutionSubmission Job (Context C)}
    (hc : stream.carried = some submission) (start : Option Fault) :
    (w.driveAdmit i stream start).scheduler =
      (w.scheduler.admitJob submission.job submission.context start).2 := by
  obtain ⟨stream', he, -⟩ := driveAdmit_cases w i hc start
  rw [he]
  rfl

theorem scheduler_driveBookkeeping (w : ExecutionPool Job C Done Fault) (i : ℕ)
    (stream : Stream Job C Done) (ending : Ending) :
    (w.driveBookkeeping i stream ending).scheduler = w.scheduler ∨
      w.shutdownComplete = true ∧
        (w.driveBookkeeping i stream ending).scheduler = w.scheduler.discardCompletions := by
  unfold ExecutionPool.driveBookkeeping
  dsimp only
  by_cases h : w.activeStreams - 1 = 0 ∧ w.shutdownComplete = true
  · rw [if_pos h]; exact Or.inr ⟨h.2, rfl⟩
  · rw [if_neg h]; exact Or.inl rfl

theorem scheduler_finishClose (w : ExecutionPool Job C Done Fault) :
    w.finishClose.scheduler = w.scheduler ∨
      w.finishClose.scheduler = w.scheduler.discardCompletions := by
  unfold ExecutionPool.finishClose ExecutionPool.wakeAll
  dsimp only
  by_cases h : w.activeStreams = 0
  · rw [if_pos h]; exact Or.inr rfl
  · rw [if_neg h]; exact Or.inl rfl

/-- The close task is where the scheduler's flags say it is. -/
structure ClosingOk (w : ExecutionPool Job C Done Fault) : Prop where
  shut : w.closing = .joined ∨ w.closing = .finished → w.scheduler.shutdownReturned = true
  complete : w.shutdownComplete = true → w.closing = .finished

/-- **Every step of a pool is a section of its scheduler or none.** -/
theorem scheduler_step {w w' : ExecutionPool Job C Done Fault} (hw : ClosingOk w)
    (h : Effect w w') : w'.scheduler = w.scheduler ∨
      ∃ action, ExecutionScheduler.step action w.scheduler = some w'.scheduler := by
  have hdiscard : w.scheduler.shutdownReturned = true →
      ExecutionScheduler.step .discardCompletions w.scheduler =
        some w.scheduler.discardCompletions := fun hs => by simp [ExecutionScheduler.step, hs]
  cases h with
  | worker action scheduler _ hs => exact Or.inr ⟨action, hs⟩
  | takes i stream =>
    rw [scheduler_driveTake]
    exact Or.inr ⟨.takeCompletionNowait i (some (stream.ownedBy i)), rfl⟩
  | admits i stream submission start _ _ hc =>
    rw [scheduler_driveAdmit w i hc start]
    exact Or.inr ⟨.admitJob submission.job submission.context start, rfl⟩
  | keepsBooks i stream ending =>
    rcases scheduler_driveBookkeeping w i stream ending with he | ⟨hc, he⟩
    · exact Or.inl he
    · rw [he]
      exact Or.inr ⟨.discardCompletions, hdiscard (hw.shut (Or.inr (hw.complete hc)))⟩
  | departs i stream phase =>
    simp only [ExecutionPool.releaseOwned, ExecutionPool.put]
    split_ifs
    · exact Or.inr ⟨.releaseOwned (owns i), rfl⟩
    · exact Or.inl rfl
  | closes => exact Or.inr ⟨.closeIntake, rfl⟩
  | cancels => exact Or.inr ⟨.cancelAll, rfl⟩
  | shutsDown => exact Or.inr ⟨.shutdownBegin true, rfl⟩
  | joins scheduler _ hs => exact Or.inr ⟨.shutdownEnd 0, hs⟩
  | finishes hj =>
    rcases scheduler_finishClose w with he | he
    · exact Or.inl he
    · rw [he]
      exact Or.inr ⟨.discardCompletions, hdiscard (hw.shut (Or.inl hj))⟩
  | unchanged | opened | moves | breaks | wakes => exact Or.inl rfl

/-- The close task's place, after a step. -/
theorem closing_step {w w' : ExecutionPool Job C Done Fault} (h : Effect w w') :
    (w'.closing = w.closing ∧ w'.shutdownComplete = w.shutdownComplete) ∨
      (w.closing ≠ .finished ∧ w'.shutdownComplete = w.shutdownComplete ∧
        (w'.closing = .quiescing ∨ w'.closing = .joining ∨
          w'.closing = .joined ∧ w'.scheduler.shutdownReturned = true)) ∨
      (w.closing = .joined ∧ w'.closing = .finished) := by
  cases h with
  | takes i stream =>
    unfold ExecutionPool.driveTake
    dsimp only
    split <;> exact Or.inl ⟨rfl, rfl⟩
  | admits i stream submission start _ _ hc =>
    obtain ⟨stream', he, -⟩ := driveAdmit_cases w i hc start
    rw [he]
    exact Or.inl ⟨rfl, rfl⟩
  | keepsBooks i stream ending =>
    unfold ExecutionPool.driveBookkeeping
    dsimp only
    split_ifs <;> exact Or.inl ⟨rfl, rfl⟩
  | departs i stream phase =>
    simp only [ExecutionPool.releaseOwned]
    split_ifs <;> exact Or.inl ⟨rfl, rfl⟩
  | closes hopen => exact Or.inr (Or.inl ⟨by simp [hopen], rfl, Or.inl rfl⟩)
  | shutsDown hq => exact Or.inr (Or.inl ⟨by simp [hq], rfl, Or.inr (Or.inl rfl)⟩)
  | joins scheduler hj hs =>
    refine Or.inr (Or.inl ⟨by simp [hj], rfl, Or.inr (Or.inr ⟨rfl, ?_⟩)⟩)
    simp only [ExecutionScheduler.step] at hs
    split at hs
    · split_ifs at hs
      cases hs
      rfl
    · cases hs
  | finishes hj =>
    refine Or.inr (Or.inr ⟨hj, ?_⟩)
    unfold ExecutionPool.finishClose
    rfl
  | unchanged | worker | opened | moves | breaks | wakes | cancels => exact Or.inl ⟨rfl, rfl⟩

theorem ClosingOk.step {w w' : ExecutionPool Job C Done Fault} (hw : ClosingOk w)
    (h : Effect w w') : ClosingOk w' := by
  have hkeep : w.scheduler.shutdownReturned = true → w'.scheduler.shutdownReturned = true := by
    intro hs
    rcases scheduler_step hw h with he | ⟨action, hstep⟩
    · rw [he]; exact hs
    · exact shutdownReturned_step hstep hs
  rcases closing_step h with ⟨hc, hcomplete⟩ | ⟨hne, hcomplete, hc⟩ | ⟨hj, hc⟩
  · exact ⟨fun hcl => hkeep (hw.shut (by rwa [hc] at hcl)),
      fun hcl => hc.trans (hw.complete (hcomplete ▸ hcl))⟩
  · refine ⟨fun hcl => ?_, fun hcl => absurd (hw.complete (hcomplete ▸ hcl)) hne⟩
    rcases hc with hc | hc | ⟨-, hs⟩
    · simp [hc] at hcl
    · simp [hc] at hcl
    · exact hs
  · exact ⟨fun _ => hkeep (hw.shut (Or.inl hj)), fun _ => hc⟩

/-- The pools reached from one of a given capacity. -/
theorem open?_eq {capacity : ℤ} {w₀ : ExecutionPool Job C Done Fault}
    (h0 : ExecutionPool.open? capacity = some w₀) :
    ∃ scheduler, init capacity = some scheduler ∧ w₀ = { scheduler := scheduler } := by
  obtain ⟨scheduler, hs, rfl⟩ := Option.map_eq_some_iff.mp h0
  exact ⟨scheduler, hs, rfl⟩

theorem closingOk_of_reach {ok : PoolAction Job C Done Fault → ExecutionPool Job C Done Fault → Prop}
    {capacity : ℤ} {w₀ w : ExecutionPool Job C Done Fault}
    (h0 : ExecutionPool.open? capacity = some w₀) (h : Reach ExecutionPool.step ok w₀ w) :
    ClosingOk w := by
  refine h.invariant ?_ fun u a v _ hu _ hs => hu.step (effect_of_step hs)
  obtain ⟨scheduler, -, rfl⟩ := open?_eq h0
  constructor <;> simp

/-- **The scheduler of a pool** is in a state a scheduler reaches. -/
theorem scheduler_reachable {ok : PoolAction Job C Done Fault → ExecutionPool Job C Done Fault → Prop}
    {capacity : ℤ} {w₀ w : ExecutionPool Job C Done Fault}
    (h0 : ExecutionPool.open? capacity = some w₀) (h : Reach ExecutionPool.step ok w₀ w) :
    Reachable ExecutionScheduler.step w₀.scheduler w.scheduler :=
  h.simulate ExecutionPool.scheduler fun _ _ _ hr _ hs =>
    (scheduler_step (closingOk_of_reach h0 hr) (effect_of_step hs)).imp_right
      fun ⟨action, hstep⟩ => ⟨action, trivial, hstep⟩

theorem init_of_open? {capacity : ℤ} {w₀ : ExecutionPool Job C Done Fault}
    (h0 : ExecutionPool.open? capacity = some w₀) : init capacity = some w₀.scheduler := by
  obtain ⟨scheduler, hs, rfl⟩ := open?_eq h0
  exact hs

/-! ### What a stream carries -/

namespace Stream

variable (stream : Stream Job C Done)

/-- The completion a stream took and has not yielded. -/
def inHand : List (Completion (Context C) Done) :=
  match stream.phase with
  | .took completion => [completion]
  | _ => []

/-- The submission a finished pull brought. -/
def brought : List (ExecutionSubmission Job (Context C)) :=
  match stream.sourcePull with
  | some (.done (some submission)) => [submission]
  | _ => []

theorem ownedBy_tag (owner : ℕ) (context : C) : stream.ownedBy owner (stream.tag owner context) := by
  unfold ownedBy tag
  split_ifs <;> simp [owns, unowned]

/-- Two streams own no context in common, except that plain streams share theirs. -/
theorem owns_of_ownedBy {owner other : ℕ} {context : Context C}
    (h : stream.ownedBy owner context = true) (ho : owns other context = true) :
    stream.endsOnOwnWork = true ∧ owner = other := by
  unfold ownedBy at h
  split_ifs at h with hk
  · cases context with
    | bare => simp [owns] at h
    | owned submitter context =>
      simp only [owns, decide_eq_true_eq] at h ho
      exact ⟨hk, h.symm.trans ho⟩
  · cases context <;> simp [owns, unowned] at h ho

/-- A stream enters its `finally` block with its locals as they are. -/
theorem enterFinally_eq (ending : Ending) : ∃ phase, stream.enterFinally ending =
    { stream with phase := phase } ∧
      (phase = .bookkeeping ending ∨ phase = .finalizing ending ∨ phase = .departing .raised ∨
        phase = .ended .closed) ∧ (ending = .closed → phase ≠ .departing .raised) := by
  unfold enterFinally leaveFinally
  split
  · exact ⟨_, rfl, by simp⟩
  · exact ⟨_, rfl, by simp⟩
  · exact ⟨_, rfl, by simp⟩
  · split_ifs with h <;> exact ⟨_, rfl, by simp, by simp [h]⟩
  · exact ⟨_, rfl, by simp⟩
  · exact ⟨_, rfl, by simp⟩

/-- A cancelled pull is dropped, or awaited, or its exception goes on. -/
theorem emptyPull_eq : ∃ pull phase, stream.emptyPull =
    { stream with sourcePull := pull, phase := phase } ∧
      (pull = none ∨ pull = stream.sourcePull) ∧
      (phase = .take ∨ phase = .emptying ∨ phase = .bookkeeping .raised ∨
        phase = .finalizing .raised ∨ phase = .departing .raised ∨ phase = .ended .closed) := by
  unfold emptyPull
  split
  · exact ⟨none, .take, rfl, by simp⟩
  · exact ⟨none, .take, rfl, by simp⟩
  · exact ⟨none, .take, rfl, by simp⟩
  · obtain ⟨phase, he, hphase, -⟩ := stream.enterFinally_eq .raised
    exact ⟨stream.sourcePull, phase, he, Or.inr rfl, by tauto⟩
  · exact ⟨stream.sourcePull, .emptying, rfl, by simp⟩
  · exact ⟨stream.sourcePull, .emptying, rfl, by simp⟩

/-- A stream that moved kept its kind, what it carries, and what it received. -/
structure Keeps (owner : ℕ) (stream stream' : Stream Job C Done) : Prop where
  kind : stream'.endsOnOwnWork = stream.endsOnOwnWork
  carried : ∀ submission, stream'.carried = some submission →
    stream.carried = some submission ∨ submission ∈ stream.brought
  brought : ∀ submission ∈ stream'.brought, submission ∈ stream.brought ∨
    ∃ context, submission.context = stream.tag owner context
  received : stream'.received ++ stream'.inHand = stream.received ++ stream.inHand

namespace Keeps

variable {stream} {owner : ℕ}

/-- A stream that only went to another phase. -/
theorem phase {phase : Phase C Done} (h : stream.inHand = [])
    (h' : ({ stream with phase := phase } : Stream Job C Done).inHand = []) :
    stream.Keeps owner { stream with phase := phase } :=
  ⟨rfl, fun _ hs => Or.inl hs, fun _ hs => Or.inl hs, by rw [h, h']⟩

theorem enterFinally (ending : Ending) (h : stream.inHand = []) :
    stream.Keeps owner (stream.enterFinally ending) := by
  obtain ⟨next, he, hnext, -⟩ := stream.enterFinally_eq ending
  rw [he]
  exact phase h (by rcases hnext with rfl | rfl | rfl | rfl <;> rfl)

/-- A new pull has brought nothing. -/
theorem startPull : stream.Keeps owner stream.startPull := by
  refine ⟨rfl, fun _ hs => Or.inl hs, fun submission hs => ?_, rfl⟩
  unfold Stream.startPull Stream.brought at hs
  split_ifs at hs <;> simp at hs

/-- A pull that ends brings a submission of the stream's kind. -/
theorem pullDone {pull : Pull Job C}
    (hpull : ∀ submission, pull = .done (some submission) →
      ∃ context, submission.context = stream.tag owner context) :
    stream.Keeps owner (stream.pullDone pull) := by
  have hread : stream.Keeps owner { stream with sourcePull := some pull } := by
    refine ⟨rfl, fun _ hs => Or.inl hs, fun submission hs => ?_, rfl⟩
    unfold Stream.brought at hs
    split at hs
    · next found he =>
      simp only [List.mem_singleton] at hs
      subst hs
      exact Or.inr (hpull submission (by simpa using he))
    · simp at hs
  unfold Stream.pullDone
  dsimp only
  split
  · next hp =>
    obtain ⟨next, phase, he, hnext, hphase⟩ :=
      ({ stream with sourcePull := some pull } : Stream Job C Done).emptyPull_eq
    rw [he]
    refine ⟨rfl, fun _ hs => Or.inl hs, fun submission hs => ?_, ?_⟩
    · rcases hnext with rfl | rfl
      · simp [Stream.brought] at hs
      · exact hread.brought submission hs
    · simp only [Stream.inHand, hp]
      rcases hphase with rfl | rfl | rfl | rfl | rfl | rfl <;> rfl
  · next ending hp =>
    obtain ⟨next, he, hnext, -⟩ :=
      ({ stream with sourcePull := some pull } : Stream Job C Done).enterFinally_eq ending
    rw [he]
    refine ⟨rfl, fun _ hs => Or.inl hs, hread.brought, ?_⟩
    simp only [Stream.inHand, hp]
    rcases hnext with rfl | rfl | rfl | rfl <;> rfl
  · exact hread

end Keeps

end Stream

theorem Local.keeps {w : ExecutionPool Job C Done Fault} {i : ℕ} {stream stream' : Stream Job C Done}
    (h : Local w i stream stream') : stream.Keeps i stream' := by
  cases h with
  | loopHead hp =>
    have hin : stream.inHand = [] := by simp [Stream.inHand, hp]
    unfold Stream.loopHead
    dsimp only
    split_ifs
    · have hhead : stream.Keeps i
          { stream with wakeup := false, exhausted := true, carried := none } :=
        ⟨rfl, (fun _ hs => nomatch hs), fun _ hs => Or.inl hs, rfl⟩
      obtain ⟨pull, next, he, hpull, hnext⟩ := ({ stream with
        wakeup := false, exhausted := true, carried := none } : Stream Job C Done).emptyPull_eq
      rw [he]
      refine ⟨rfl, hhead.carried, fun submission hs => ?_, ?_⟩
      · rcases hpull with rfl | rfl
        · simp [Stream.brought] at hs
        · exact Or.inl hs
      · rw [hin]
        rcases hnext with rfl | rfl | rfl | rfl | rfl | rfl <;> rfl
    · exact ⟨rfl, fun _ hs => Or.inl hs, fun _ hs => Or.inl hs, by rw [hin]; rfl⟩
  | yieldTaken completion hp =>
    unfold Stream.yieldTaken
    dsimp only
    have hin : stream.inHand = [completion] := by simp [Stream.inHand, hp]
    split_ifs
    all_goals
      refine ⟨rfl, fun _ hs => Or.inl hs, fun submission hs => ?_, ?_⟩
      · first
          | exact Or.inl hs
          | exact (Stream.Keeps.startPull : stream.Keeps i stream.startPull).brought submission hs
      · rw [hin]; simp [Stream.inHand, Stream.startPull]
  | ends hp => exact .enterFinally .returned (by simp [Stream.inHand, hp])
  | goesOn hp => exact .phase (by simp [Stream.inHand, hp]) rfl
  | carriesNothing hp => exact .phase (by simp [Stream.inHand, hp]) rfl
  | collect hp =>
    have hin : stream.inHand = [] := by simp [Stream.inHand, hp]
    unfold Stream.collectPull
    split
    · exact ⟨rfl, fun _ hs => Or.inl hs, fun _ hs => by simp [Stream.brought] at hs,
        by rw [hin]; rfl⟩
    · next submission hpull =>
      refine ⟨rfl, fun found hs => ?_, fun _ hs => by simp [Stream.brought] at hs, by rw [hin]; rfl⟩
      dsimp only at hs
      split_ifs at hs
      · cases hs
        exact Or.inr (by simp [Stream.brought, hpull])
      · exact Or.inl hs
    · exact .enterFinally .raised hin
    · exact .enterFinally .raised hin
    · exact .phase hin rfl
  | park hp =>
    have hin : stream.inHand = [] := by simp [Stream.inHand, hp]
    unfold Stream.park
    dsimp only
    split_ifs
    · exact ⟨rfl, fun _ hs => Or.inl hs,
        (Stream.Keeps.startPull : stream.Keeps i stream.startPull).brought, by rw [hin]; rfl⟩
    · exact .phase hin rfl
  | resumes hp =>
    exact .phase (by rcases hp with hp | hp <;> simp [Stream.inHand, hp]) rfl
  | settles cancelled hp => exact .phase (by simp [Stream.inHand, hp]) rfl
  | cancelled hp => exact .enterFinally .raised (by simp [Stream.inHand, hp])
  | finalized hp => exact .enterFinally .closed (by simp [Stream.inHand, hp])
  | acquires hpull =>
    refine ⟨rfl, fun _ hs => Or.inl hs, fun submission hs => ?_, rfl⟩
    simp [Stream.brought] at hs
  | answered answer =>
    cases answer with
    | submission submission =>
      have hkeeps : Stream.Keeps i { stream with pulled := stream.pulled ++ [submission] }
          (({ stream with pulled := stream.pulled ++ [submission] } : Stream Job C Done).pullDone
            (.done (some ⟨submission.job, stream.tag i submission.context⟩))) :=
        .pullDone fun found he => ⟨submission.context, by cases he; rfl⟩
      exact ⟨hkeeps.kind, hkeeps.carried, hkeeps.brought, hkeeps.received⟩
    | stop =>
      have hkeeps : ∀ permits, Stream.Keeps i { stream with permits := permits, sourceStopped := true }
          (({ stream with permits := permits, sourceStopped := true } :
            Stream Job C Done).pullDone (.done none)) :=
        fun permits => .pullDone fun found he => by cases he
      exact ⟨(hkeeps _).kind, (hkeeps _).carried, (hkeeps _).brought, (hkeeps _).received⟩
    | raised => exact .pullDone fun found he => by cases he
    | cancelled => exact .pullDone fun found he => by cases he

/-! ### Every stream keeps to its own kind -/

/-- What stream `owner` carries, was brought and received is of its own kind, and the history has
what it received. -/
structure Stream.Tagged (owner : ℕ) (history : List (Event Job (Context C) Done))
    (stream : Stream Job C Done) : Prop where
  carried : ∀ submission, stream.carried = some submission →
    stream.ownedBy owner submission.context = true
  brought : ∀ submission ∈ stream.brought, stream.ownedBy owner submission.context = true
  received : deliveries owner history = stream.received ++ stream.inHand
  own : ∀ completion ∈ deliveries owner history, stream.ownedBy owner completion.context = true

/-- Every stream is tagged, and only streams are handed completions. -/
structure Tagged (w : ExecutionPool Job C Done Fault) : Prop where
  stream : ∀ (i : ℕ) (stream : Stream Job C Done), w.streams[i]? = some stream → stream.Tagged i w.scheduler.history
  drivers : ∀ driver completion, .delivered driver completion ∈ w.scheduler.history →
    driver < w.streams.length

theorem Stream.Tagged.keeps {owner : ℕ} {history : List (Event Job (Context C) Done)}
    {stream stream' : Stream Job C Done} (h : stream.Tagged owner history)
    (hk : stream.Keeps owner stream') : stream'.Tagged owner history := by
  have hown : stream'.ownedBy owner = stream.ownedBy owner := by
    unfold Stream.ownedBy
    rw [hk.kind]
  constructor
  · intro submission hs
    rw [hown]
    rcases hk.carried submission hs with hs | hs
    · exact h.carried submission hs
    · exact h.brought submission hs
  · intro submission hs
    rw [hown]
    rcases hk.brought submission hs with hs | ⟨context, hs⟩
    · exact h.brought submission hs
    · rw [hs]; exact stream.ownedBy_tag owner context
  · rw [hk.received]; exact h.received
  · rw [hown]; exact h.own

theorem Stream.Tagged.history {owner : ℕ} {history history' : List (Event Job (Context C) Done)}
    {stream : Stream Job C Done} (h : stream.Tagged owner history)
    (hd : deliveries owner history' = deliveries owner history) : stream.Tagged owner history' :=
  ⟨h.carried, h.brought, hd ▸ h.received, hd ▸ h.own⟩

/-- A property of every stream, after one stream is put. -/
theorem forall_put {w : ExecutionPool Job C Done Fault} {i : ℕ} {stream' : Stream Job C Done}
    {P : ℕ → Stream Job C Done → Prop} (hi : P i stream')
    (h : ∀ (j : ℕ) (stream : Stream Job C Done), w.streams[j]? = some stream → j ≠ i → P j stream) :
    ∀ (j : ℕ) (stream : Stream Job C Done), (w.put i stream').streams[j]? = some stream → P j stream := by
  intro j stream hj
  simp only [ExecutionPool.put, List.getElem?_set] at hj
  split_ifs at hj with he hlt
  · cases hj; exact he ▸ hi
  · exact h j stream hj (Ne.symm he)

theorem getElem?_openStream {w : ExecutionPool Job C Done Fault} {endsOnOwnWork : Bool} {width j : ℕ}
    {stream : Stream Job C Done}
    (h : (w.openStream endsOnOwnWork width).streams[j]? = some stream) :
    w.streams[j]? = some stream ∨
      j = w.streams.length ∧ stream = { endsOnOwnWork := endsOnOwnWork, permits := width } := by
  simp only [ExecutionPool.openStream, List.getElem?_append] at h
  split_ifs at h with hlt
  · exact Or.inl h
  · obtain ⟨hj, rfl⟩ := List.getElem?_eq_some_iff.mp h
    rw [List.length_singleton] at hj
    exact Or.inr ⟨by omega, by simp⟩

theorem length_put (w : ExecutionPool Job C Done Fault) (i : ℕ) (stream : Stream Job C Done) :
    (w.put i stream).streams.length = w.streams.length := List.length_set

/-- `_wake_streams` changes nothing but wakeups. -/
theorem keeps_wakeAll {w : ExecutionPool Job C Done Fault} {j : ℕ} {stream' : Stream Job C Done}
    (h : w.wakeAll.streams[j]? = some stream') :
    ∃ stream wakeup, w.streams[j]? = some stream ∧ stream' = { stream with wakeup := wakeup } := by
  simp only [ExecutionPool.wakeAll, List.getElem?_mapIdx, Option.map_eq_some_iff] at h
  obtain ⟨stream, hj, rfl⟩ := h
  split_ifs
  · exact ⟨stream, true, hj, rfl⟩
  · exact ⟨stream, stream.wakeup, hj, rfl⟩

theorem length_wakeAll (w : ExecutionPool Job C Done Fault) :
    w.wakeAll.streams.length = w.streams.length := List.length_mapIdx

namespace Tagged

variable {w w' : ExecutionPool Job C Done Fault}

/-- A step that hands no completion to a driver. -/
theorem silent (h : Tagged w) (hs : w.scheduler.Silent w'.scheduler)
    (hstreams : ∀ (j : ℕ) (stream' : Stream Job C Done), w'.streams[j]? = some stream' →
      ∃ stream, w.streams[j]? = some stream ∧ stream.Keeps j stream')
    (hlen : w'.streams.length = w.streams.length) : Tagged w' := by
  constructor
  · intro j stream' hj
    obtain ⟨stream, hst, hk⟩ := hstreams j stream' hj
    exact ((h.stream j stream hst).keeps hk).history (hs.deliveries_eq j)
  · intro driver completion hd
    rw [hlen]
    exact h.drivers driver completion (hs.delivered_mem hd)

theorem keeps_self (h : w'.streams = w.streams) : ∀ (j : ℕ) (stream' : Stream Job C Done), w'.streams[j]? = some stream' →
    ∃ stream, w.streams[j]? = some stream ∧ stream.Keeps j stream' := fun _ stream' hj =>
  ⟨stream', h ▸ hj, rfl, fun _ hs => Or.inl hs, fun _ hs => Or.inl hs, rfl⟩

theorem keeps_put {i : ℕ} {stream stream' : Stream Job C Done} (hi : w.streams[i]? = some stream)
    (hk : stream.Keeps i stream') : ∀ (j : ℕ) (new : Stream Job C Done), (w.put i stream').streams[j]? = some new →
      ∃ old, w.streams[j]? = some old ∧ old.Keeps j new :=
  forall_put ⟨stream, hi, hk⟩ fun _ old hj _ =>
    ⟨old, hj, rfl, fun _ hs => Or.inl hs, fun _ hs => Or.inl hs, rfl⟩

theorem keeps_woken (hstreams : w'.streams = w.wakeAll.streams) :
    ∀ (j : ℕ) (stream' : Stream Job C Done), w'.streams[j]? = some stream' →
      ∃ stream, w.streams[j]? = some stream ∧ stream.Keeps j stream' := by
  intro j stream' hj
  rw [hstreams] at hj
  obtain ⟨stream, wakeup, hst, rfl⟩ := keeps_wakeAll hj
  exact ⟨stream, hst, rfl, fun _ hs => Or.inl hs, fun _ hs => Or.inl hs, rfl⟩

theorem opened (h : Tagged w) (endsOnOwnWork : Bool) (width : ℕ) :
    Tagged (w.openStream endsOnOwnWork width) := by
  constructor
  · intro j stream hj
    rcases getElem?_openStream hj with hj | ⟨rfl, rfl⟩
    · exact h.stream j stream hj
    · have hnone : deliveries w.streams.length w.scheduler.history = [] := by
        refine List.filterMap_eq_nil_iff.mpr fun event hmem => ?_
        cases event with
        | delivered driver completion =>
          have hlt := h.drivers driver completion hmem
          simp only [ite_eq_right_iff, reduceCtorEq, imp_false]
          omega
        | _ => rfl
      refine ⟨(fun _ hs => nomatch hs), (fun _ hs => nomatch hs), hnone, fun completion hc => ?_⟩
      rw [show deliveries _ (w.openStream endsOnOwnWork width).scheduler.history = [] from hnone] at hc
      cases hc
  · intro driver completion hd
    have := h.drivers driver completion hd
    simp only [ExecutionPool.openStream, List.length_append, List.length_singleton]
    omega

/-- A stream takes a completion of its own kind, or nothing. -/
theorem takes (h : Tagged w) {i : ℕ} {stream : Stream Job C Done} (hi : w.streams[i]? = some stream)
    (hp : stream.phase = .take) : Tagged (w.driveTake i stream) := by
  have hin : stream.inHand = [] := by simp [Stream.inHand, hp]
  rcases driveTake_cases w i stream with ⟨completion, scheduler, ht, he⟩ | he | ⟨-, state, he⟩
  · rw [he]
    have hown := (work_taken (fun _ => true) i (stream.ownedBy i) ht).1
    have hh : scheduler.history = w.scheduler.history := history_taken ht
    have hst := h.stream i stream hi
    constructor
    · have hd : ∀ j, deliveries j (scheduler.record (.delivered i completion)).history =
          deliveries j w.scheduler.history ++ if i = j then [completion] else [] := by
        intro j
        rw [deliveries_delivered, hh]
      refine forall_put ⟨hst.carried, hst.brought, (hd i).trans ?_, fun c hc => ?_⟩
        fun j other hj hne => (h.stream j other hj).history ((hd j).trans ?_)
      · rw [if_pos rfl, hst.received, hin, List.append_nil]
        rfl
      · have hc : c ∈ deliveries i w.scheduler.history ++ [completion] := by
          have hdi := hd i
          rw [if_pos rfl] at hdi
          exact hdi ▸ hc
        rcases List.mem_append.mp hc with hc | hc
        · exact hst.own c hc
        · rw [List.mem_singleton] at hc; subst hc; exact hown
      · rw [if_neg (Ne.symm hne), List.append_nil]
    · intro driver c hc
      rw [length_put]
      simp only [ExecutionPool.put, record, hh, List.mem_append, List.mem_singleton] at hc
      rcases hc with hc | hc
      · exact h.drivers driver c hc
      · cases hc; exact (List.getElem?_eq_some_iff.mp hi).1
  · rw [he]
    exact h.silent (.of_eq rfl) (keeps_put hi (.phase hin rfl)) (length_put w i _)
  · rw [he]
    exact h.silent (.of_eq rfl) (keeps_put hi (.enterFinally .raised hin)) (length_put w i _)

/-- A stream submits a job of its own kind. -/
theorem admits (h : Tagged w) {i : ℕ} {stream : Stream Job C Done} (hi : w.streams[i]? = some stream)
    (hp : stream.phase = .admitCarried) {submission : ExecutionSubmission Job (Context C)}
    (hc : stream.carried = some submission) (start : Option Fault) :
    Tagged (w.driveAdmit i stream start) := by
  have hin : stream.inHand = [] := by simp [Stream.inHand, hp]
  obtain ⟨stream', hput, hcases⟩ := driveAdmit_cases w i hc start
  have hk : stream.Keeps i stream' := by
    rcases hcases with ⟨-, rfl⟩ | ⟨-, rfl⟩ | ⟨-, rfl⟩
    · exact ⟨rfl, (fun _ hs => nomatch hs), fun _ hs => Or.inl hs, by rw [hin]; rfl⟩
    · exact ⟨rfl, (fun _ hs => nomatch hs), fun _ hs => Or.inl hs, by rw [hin]; rfl⟩
    · exact .phase hin rfl
  have hrecord : Tagged { w with
      scheduler := w.scheduler.record
        (.admitted w.scheduler.nextTicket submission.job submission.context) } := by
    constructor
    · intro j other hj
      exact (h.stream j other hj).history (deliveries_admitted ..)
    · intro driver completion hd
      exact h.drivers driver completion (by simpa [record] using hd)
  rw [hput]
  rcases w.scheduler.history_admitJob submission.job submission.context start with hs | hs
  · exact h.silent hs (keeps_put hi hk) (length_put _ i _)
  · exact hrecord.silent hs (keeps_put hi hk) (length_put _ i _)

/-- **Every step keeps streams to their own kind.** -/
theorem step (h : Tagged w) (heff : Effect w w') : Tagged w' := by
  cases heff with
  | unchanged => exact h
  | worker action scheduler haction hs =>
    exact h.silent (Silent.worker haction hs) (keeps_self rfl) rfl
  | opened endsOnOwnWork width => exact h.opened endsOnOwnWork width
  | moves i stream stream' hi hlocal =>
    exact h.silent (.of_eq rfl) (keeps_put hi hlocal.keeps) (length_put w i _)
  | breaks i stream hi hp =>
    have hin : stream.inHand = [] := by simp [Stream.inHand, hp]
    exact h.silent (.of_eq rfl) (keeps_put hi (.enterFinally .raised hin)) (length_put w i _)
  | takes i stream hi hp => exact h.takes hi hp
  | admits i stream submission start hi hp hc => exact h.admits hi hp hc start
  | keepsBooks i stream ending hi hp =>
    have hsilent : w.scheduler.Silent (w.driveBookkeeping i stream ending).scheduler := by
      rcases scheduler_driveBookkeeping w i stream ending with he | ⟨-, he⟩
      · exact .of_eq (by rw [he])
      · rw [he]; exact Silent.dropCompletions w.scheduler
    have hin : stream.inHand = [] := by simp [Stream.inHand, hp]
    have hstreams : (w.driveBookkeeping i stream ending).streams = (w.put i
        { stream with
          phase := if ending = .closed then .ended .closed else .departing ending }).streams := by
      unfold ExecutionPool.driveBookkeeping
      dsimp only
      split_ifs <;> rfl
    refine h.silent hsilent ?_ (by rw [hstreams]; exact length_put w i _)
    rw [hstreams]
    exact keeps_put hi (.phase hin (by split_ifs <;> rfl))
  | departs i stream phase hi hphase =>
    have hin : stream.inHand = [] := by
      rcases hphase with ⟨hp, -⟩ | ⟨ending, hp, -⟩ <;> simp [Stream.inHand, hp]
    have hsilent : w.scheduler.Silent (w.releaseOwned i stream).scheduler := by
      unfold ExecutionPool.releaseOwned
      split_ifs
      · exact Silent.releaseOwned w.scheduler (owns i)
      · exact .of_eq rfl
    have hstreams : (w.releaseOwned i stream).streams = w.streams := by
      unfold ExecutionPool.releaseOwned
      split_ifs <;> rfl
    have hk : stream.Keeps i { stream with phase := phase } := .phase hin (by
      rcases hphase with ⟨-, rfl⟩ | ⟨ending, -, rfl⟩ <;> rfl)
    refine h.silent hsilent ?_ ?_
    · exact fun j new hj => keeps_put hi hk j new (by
        simpa only [ExecutionPool.put, hstreams] using hj)
    · rw [length_put, hstreams]
  | wakes => exact h.silent (.of_eq rfl) (keeps_woken rfl) (length_wakeAll w)
  | closes => exact h.silent (.of_eq rfl) (keeps_woken rfl) (length_wakeAll w)
  | cancels =>
    refine h.silent (.of_eq ?_) (keeps_self rfl) rfl
    rw [cancelAll, cancelTokens_eq]
    rfl
  | shutsDown => exact h.silent (.of_eq rfl) (keeps_self rfl) rfl
  | joins scheduler hj hs =>
    simp only [ExecutionScheduler.step] at hs
    split at hs
    · next call _ =>
      split_ifs at hs
      cases hs
      exact h.silent (Silent.shutdownEnd w.scheduler call) (keeps_self rfl) rfl
    · cases hs
  | finishes =>
    have hsilent : w.scheduler.Silent w.finishClose.scheduler := by
      rcases scheduler_finishClose w with he | he
      · exact .of_eq (by rw [he])
      · rw [he]; exact Silent.dropCompletions w.scheduler
    have hstreams : w.finishClose.streams = w.wakeAll.streams := by
      unfold ExecutionPool.finishClose
      dsimp only
      split_ifs <;> rfl
    exact h.silent hsilent (keeps_woken hstreams) (by rw [hstreams]; exact length_wakeAll w)

end Tagged

theorem tagged_of_reach {ok : PoolAction Job C Done Fault → ExecutionPool Job C Done Fault → Prop}
    {capacity : ℤ} {w₀ w : ExecutionPool Job C Done Fault}
    (h0 : ExecutionPool.open? capacity = some w₀) (h : Reach ExecutionPool.step ok w₀ w) :
    Tagged w := by
  refine h.invariant ?_ fun u a v _ hu _ hs => hu.step (effect_of_step hs)
  obtain ⟨scheduler, hs, rfl⟩ := open?_eq h0
  obtain ⟨-, rfl⟩ := init_eq hs
  constructor <;> simp

end DrExec.Scheduling.Pool
