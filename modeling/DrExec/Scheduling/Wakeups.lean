import DrExec.Scheduling.Books
import DrExec.Scheduling.Changes

/-! # No wakeup is lost

A stream clears its wakeup at the head of its loop, looks at what it could do one thing after the
other, and parks. In between and afterwards worker threads and other streams change what it has
looked at. A change that could help a stream is announced to the pool or wakes it at once (`news`),
so each thing the stream has looked at without success is still as it was, or the stream is woken
(`Alert`). A parked stream has looked at everything (`no_lost_wakeup`). -/

namespace DrExec.Scheduling.Scheduler.ExecutionScheduler

variable {Job Ctx Done Fault : Type} {s s' : ExecutionScheduler Job Ctx Done Fault}

/-! ### What the scheduler announces -/

/-- Nothing changed that a driver of the scheduler looks at. -/
structure Silently (s s' : ExecutionScheduler Job Ctx Done Fault) : Prop where
  announced : s'.announced = s.announced
  ready : s'.ready = s.ready
  broken : s'.broken = s.broken
  residents : s'.residents = s.residents
  capacity : s'.capacity = s.capacity
  intakeClosed : s'.intakeClosed = s.intakeClosed

theorem silently_self (s : ExecutionScheduler Job Ctx Done Fault) : Silently s s := by
  constructor <;> rfl

theorem announced_breakWith (failure : Fault) : (s.breakWith failure).announced = s.announced := by
  cases hb : s.broken with
  | some broken => rw [breakWith_of_broken _ _ (by simp [hb])]
  | none => rw [breakWith_of_unbroken _ _ hb]

theorem announced_ensureWorker (start : Option Fault) :
    s.announced ≤ (s.ensureWorker start).announced := by
  rcases s.ensureWorker_cases start with ⟨-, he⟩ | ⟨failure, -, he⟩ | ⟨-, -, he⟩
  · rw [he]
  · rw [he]
    exact (announced_breakWith failure).ge.trans (Nat.le_succ _)
  · rw [he]

/-- **A section that changes what a driver looks at is announced.** -/
theorem announces (h : Outcome s s') : s.announced < s'.announced ∨ Silently s s' := by
  cases h with
  | unchanged => exact .inr (silently_self s)
  | admitJob job context start =>
    have hqueued : (s.enqueue job context).announced = s.announced := by
      unfold enqueue
      dsimp only
      split_ifs <;> rfl
    exact .inl (Nat.lt_succ_of_le (hqueued.ge.trans (announced_ensureWorker start)))
  | takes worker =>
    rcases s.workerTakes_cases worker with ⟨admitted, rest, -, -, he⟩ | ⟨-, he⟩
    · rw [he]
      exact .inr ⟨rfl, rfl, rfl, rfl, rfl, rfl⟩
    · rw [he]
      exact .inr ⟨rfl, rfl, rfl, rfl, rfl, rfl⟩
  | finishes worker admitted result =>
    refine .inl ?_
    cases result with
    | ok completed => exact Nat.lt_succ_self _
    | error failure =>
      rcases s.workerFinishes_error_cases worker admitted failure with ⟨-, he⟩ | ⟨-, he⟩
      · rw [he]
        exact Nat.lt_succ_self _
      · rw [he]
        exact Nat.lt_succ_self _
  | taken driver ownedBy =>
    rcases s.takeCompletionNowait_cases ownedBy with ⟨completion, l₁, l₂, -, -, -, he⟩ | ⟨-, he⟩
    · rw [he]
      exact .inl (Nat.lt_succ_self _)
    · rw [he]
      refine .inr ?_
      unfold noneUnlessBroken
      cases s.broken <;> exact silently_self s
  | released ownedBy =>
    rw [releaseOwned_eq]
    exact .inl (Nat.lt_succ_self _)
  | shutdownEnd call joining =>
    refine .inl ?_
    unfold shutdownEnd
    dsimp only
    split_ifs <;> exact Nat.lt_succ_self _
  | cancelled | closed | shutdownBegin | discarded => exact .inl (Nat.lt_succ_self _)

end DrExec.Scheduling.Scheduler.ExecutionScheduler

namespace DrExec.Scheduling.Pool

open DrExec.Lib.Transition Scheduler ExecutionScheduler

variable {Job C Done Fault : Type} {w w' : ExecutionPool Job C Done Fault} {i : ℕ}
  {stream stream' : Stream Job C Done}

/-! ### What a stream has to be told -/

/-- The wakeup of the stream is set, or a callback that sets it is queued. -/
def Signalled (w : ExecutionPool Job C Done Fault) (stream : Stream Job C Done) : Prop :=
  stream.wakeup = true ∨ w.woken < w.scheduler.announced

/-- The step of the loop a stream has come to: `take`, the end condition, the submission, the pull
and the wait. -/
def Phase.place : Phase C Done → ℕ
  | take => 1
  | checkEnd => 2
  | admitCarried => 3
  | collect | pull => 4
  | parked => 5
  | _ => 0

/-- The stream still has to do with its source: it has not taken account of a pool that was closed. -/
def Stream.sourced (stream : Stream Job C Done) : Bool :=
  !stream.exhausted || stream.carried.isSome || stream.sourcePull.isSome

/-- What the stream has looked at without success is as it was, or the stream is signalled. -/
structure Alert (w : ExecutionPool Job C Done Fault) (i : ℕ) (stream : Stream Job C Done) : Prop where
  emptying : stream.phase = .emptying → stream.exhausted = true ∧ stream.carried = none
  left : 1 ≤ stream.phase.place → w.closing ≠ .open → stream.sourced = true → Signalled w stream
  broken : 2 ≤ stream.phase.place → w.scheduler.broken.isSome = true → Signalled w stream
  ready : 2 ≤ stream.phase.place → ∀ completion ∈ w.scheduler.ready,
    stream.ownedBy i completion.context = true → Signalled w stream
  ended : 3 ≤ stream.phase.place → stream.atEnd w.scheduler.hasResidents = true → Signalled w stream
  admissible : 4 ≤ stream.phase.place → stream.carried.isSome = true →
    w.scheduler.canAdmit = true ∨ w.scheduler.intakeClosed = true → Signalled w stream
  pulls : 5 ≤ stream.phase.place → stream.mayPull w.scheduler.canAdmit = true → Signalled w stream

namespace Alert

/-- A stream at no step of its loop has looked at nothing. -/
theorem of_place (h : stream.phase.place = 0) (hphase : stream.phase ≠ .emptying) :
    Alert w i stream := by
  constructor
  · exact fun hp => absurd hp hphase
  all_goals
    intro hplace
    rw [h] at hplace
    omega

/-- A stream that is signalled. -/
theorem of_signalled (hsignalled : Signalled w stream)
    (hemptying : stream.phase = .emptying → stream.exhausted = true ∧ stream.carried = none) :
    Alert w i stream :=
  ⟨hemptying, fun _ _ _ => hsignalled, fun _ _ => hsignalled, fun _ _ _ _ => hsignalled,
    fun _ _ => hsignalled, fun _ _ _ => hsignalled, fun _ _ => hsignalled⟩

theorem enterFinally (ending : Ending) : Alert w i (stream.enterFinally ending) := by
  obtain ⟨next, he, hnext, -⟩ := stream.enterFinally_eq ending
  rw [he]
  rcases hnext with rfl | rfl | rfl | rfl <;> exact .of_place rfl nofun

/-- A stream that has given up its source has nothing to do with it. -/
theorem emptyPull (h : stream.exhausted = true ∧ stream.carried = none) :
    Alert w i stream.emptyPull := by
  have hdropped : Alert w i { stream with sourcePull := none, phase := .take } := by
    refine ⟨nofun, fun _ _ hsourced => ?_, ?_, ?_, ?_, ?_, ?_⟩
    · simp [Stream.sourced, h.1, h.2] at hsourced
    all_goals
      intro hplace
      simp [Phase.place] at hplace
  unfold Stream.emptyPull
  split
  · exact hdropped
  · exact hdropped
  · exact hdropped
  · exact enterFinally .raised
  · exact ⟨fun _ => h, nofun, nofun, nofun, nofun, nofun, nofun⟩
  · exact ⟨fun _ => h, nofun, nofun, nofun, nofun, nofun, nofun⟩

/-- The task of the pull is done. -/
theorem pullDone (h : Alert w i stream) (hpull : stream.sourcePull.isSome = true)
    (pull : Pull Job C) : Alert w i (stream.pullDone pull) := by
  unfold Stream.pullDone
  dsimp only
  split
  · next hp => exact emptyPull (h.emptying hp)
  · exact enterFinally _
  · exact ⟨h.emptying, fun hplace hstate _ => h.left hplace hstate (by simp [Stream.sourced, hpull]),
      h.broken, h.ready, h.ended, h.admissible, fun hplace hmay => by
        simp [Stream.mayPull] at hmay⟩

/-- A stream goes on to the next step of its loop. -/
theorem goesOn (h : Alert w i stream) {phase : Phase C Done} (hphase : phase ≠ .emptying)
    (hfirst : 1 ≤ stream.phase.place)
    (hbroken : stream.phase.place < 2 → w.scheduler.broken = none ∧
      ∀ completion ∈ w.scheduler.ready, stream.ownedBy i completion.context = false)
    (hended : stream.phase.place < 3 → 3 ≤ phase.place →
      stream.atEnd w.scheduler.hasResidents = false)
    (hadmissible : stream.phase.place < 4 → 4 ≤ phase.place → stream.carried.isSome = true →
      w.scheduler.canAdmit = false ∧ w.scheduler.intakeClosed = false)
    (hpulls : 5 ≤ phase.place → stream.mayPull w.scheduler.canAdmit = false) :
    Alert w i { stream with phase := phase } := by
  refine ⟨fun hp => absurd hp hphase, fun _ => h.left hfirst, fun _ hb => ?_, fun _ completion hmem ho => ?_,
    fun hp he => ?_, fun hp hc ha => ?_, fun hp hm => ?_⟩
  · by_cases hlt : stream.phase.place < 2
    · rw [(hbroken hlt).1] at hb
      cases hb
    · exact h.broken (by omega) hb
  · by_cases hlt : stream.phase.place < 2
    · exact absurd (((hbroken hlt).2 completion hmem).symm.trans ho) Bool.false_ne_true
    · exact h.ready (by omega) completion hmem ho
  · by_cases hlt : stream.phase.place < 3
    · exact absurd ((hended hlt hp).symm.trans he) Bool.false_ne_true
    · exact h.ended (by omega) he
  · by_cases hlt : stream.phase.place < 4
    · obtain ⟨hnot, hopen⟩ := hadmissible hlt hp hc
      simp [hnot, hopen] at ha
    · exact h.admissible (by omega) hc ha
  · exact absurd ((hpulls hp).symm.trans hm) Bool.false_ne_true

/-- The next pull is started, and the stream waits. -/
theorem park (h : Alert w i stream) (hp : stream.phase = .pull) :
    Alert w i (stream.park w.scheduler.canAdmit) := by
  have hplace : stream.phase.place = 4 := by rw [hp]; rfl
  unfold Stream.park
  dsimp only
  split_ifs with hmay
  · have hexhausted : stream.exhausted = false := by
      simp only [Stream.mayPull, Bool.and_eq_true, Bool.not_eq_true'] at hmay
      exact hmay.1.1.1
    exact ⟨(fun h => by cases h),
      fun _ hstate _ => h.left (by omega) hstate (by simp [Stream.sourced, hexhausted]),
      fun _ => h.broken (by omega), fun _ => h.ready (by omega), fun _ => h.ended (by omega),
      fun _ => h.admissible (by omega),
      fun _ hagain => by simp [Stream.mayPull, Stream.startPull] at hagain⟩
  · rw [Bool.not_eq_true] at hmay
    exact h.goesOn (fun h => by cases h) (by omega) (by omega) (by omega) (by omega) fun _ => hmay

/-- A finished pull is read. -/
theorem collectPull (h : Alert w i stream) (hp : stream.phase = .collect) :
    Alert w i (stream.collectPull w.state) := by
  have hplace : stream.phase.place = 4 := by rw [hp]; rfl
  unfold Stream.collectPull
  split
  · exact .of_place rfl nofun
  · exact .of_place rfl nofun
  · exact enterFinally .raised
  · exact enterFinally .raised
  · exact h.goesOn nofun (by omega) (by omega) (by omega) (by omega) nofun

end Alert

theorem Local.alert (hstopped : w.closing ≠ .open → w.state ≠ .running)
    (hlocal : Local w i stream stream') (h : Alert w i stream) : Alert w i stream' := by
  cases hlocal with
  | loopHead hp =>
    unfold Stream.loopHead
    dsimp only
    split_ifs with hstate
    · exact .emptyPull ⟨rfl, rfl⟩
    · refine ⟨nofun, fun _ hleft => absurd (hstopped hleft) hstate, ?_, ?_, ?_, ?_, ?_⟩
      all_goals
        intro hplace
        simp [Phase.place] at hplace
  | yieldTaken completion hp => exact .of_place rfl nofun
  | ends hp => exact .enterFinally .returned
  | goesOn hp hend =>
    have hplace : stream.phase.place = 2 := by rw [hp]; rfl
    exact h.goesOn nofun (by omega) (by omega) (fun _ _ => hend) nofun nofun
  | carriesNothing hp hc =>
    have hplace : stream.phase.place = 3 := by rw [hp]; rfl
    exact h.goesOn nofun (by omega) (by omega) (by omega) (fun _ _ => by simp [hc]) nofun
  | collect hp => exact h.collectPull hp
  | park hp => exact h.park hp
  | resumes hp => exact .of_place rfl nofun
  | settles cancelled hp => exact .of_place rfl nofun
  | cancelled hp => exact .enterFinally .raised
  | finalized hp => exact .enterFinally .closed
  | acquires hpull =>
    exact ⟨h.emptying,
      fun hplace hstate _ => h.left hplace hstate (by simp [Stream.sourced, hpull]), h.broken,
      h.ready, h.ended, h.admissible, fun _ hmay => by simp [Stream.mayPull] at hmay⟩
  | answered answer hpull =>
    have hsome : stream.sourcePull.isSome = true := by
      rcases hpull with hpull | ⟨hpull, -⟩ <;> simp [hpull]
    cases answer with
    | submission submission =>
      have hpulled : Alert w i { stream with pulled := stream.pulled ++ [submission] } :=
        ⟨h.emptying, h.left, h.broken, h.ready, h.ended, h.admissible, h.pulls⟩
      exact hpulled.pullDone hsome _
    | stop =>
      have hstopped : Alert w i { stream with
          permits := if stream.endsOnOwnWork then stream.permits + 1 else stream.permits
          sourceStopped := true } :=
        ⟨h.emptying, h.left, h.broken, h.ready, h.ended, h.admissible, h.pulls⟩
      exact hstopped.pullDone hsome _
    | raised => exact h.pullDone hsome _
    | cancelled => exact h.pullDone hsome _

/-- **A step of the stream** leaves nothing it could do behind. -/
theorem Change.alert (hstopped : w.closing ≠ .open → w.state ≠ .running)
    (hchange : Change w i stream stream') (h : Alert w i stream) : Alert w i stream' := by
  cases hchange with
  | moves stream' hlocal => exact hlocal.alert hstopped h
  | brokeOff hp => exact .enterFinally .raised
  | foundNone hp hbroken hready =>
    have hplace : stream.phase.place = 1 := by rw [hp]; rfl
    exact h.goesOn nofun (by omega) (fun _ => ⟨hbroken, hready⟩) nofun nofun nofun
  | noRoom submission hp hc hopen hfull =>
    have hplace : stream.phase.place = 3 := by rw [hp]; rfl
    exact h.goesOn nofun (by omega) (by omega) (by omega) (fun _ _ _ => ⟨hfull, hopen⟩) nofun
  | took completion hp | admitted submission hp hc | refused submission hp hc =>
    exact .of_place rfl nofun
  | keepsBooks ending hp => split_ifs <;> exact .of_place rfl nofun
  | departs phase hphase =>
    rcases hphase with ⟨hp, rfl⟩ | ⟨ending, hp, rfl⟩ <;> exact .of_place rfl nofun

/-! ### What is announced -/

/-- Nothing changed that a stream looks at, and the pool was not closed. -/
structure Still (w w' : ExecutionPool Job C Done Fault) : Prop extends
    Silently w.scheduler w'.scheduler where
  closing : w'.closing ≠ .open → w.closing ≠ .open
  woken : w'.woken = w.woken

/-- The streams stay alert while nothing changes. -/
theorem Alert.still (h : Alert w i stream) (hw : Still w w') : Alert w' i stream := by
  have hsignalled : Signalled w stream → Signalled w' stream := by
    unfold Signalled
    rw [hw.woken, hw.announced]
    exact id
  have hroom : w'.scheduler.canAdmit = w.scheduler.canAdmit := by
    simp only [canAdmit, hw.residents, hw.capacity, hw.intakeClosed]
  have hresidents : w'.scheduler.hasResidents = w.scheduler.hasResidents := by
    simp only [hasResidents, hw.residents]
  refine ⟨h.emptying, fun hplace hclosing hsourced => ?_, fun hplace hb => ?_,
    fun hplace completion hmem ho => ?_, fun hplace hend => ?_, fun hplace hc ha => ?_,
    fun hplace hmay => ?_⟩
  · exact hsignalled (h.left hplace (hw.closing hclosing) hsourced)
  · exact hsignalled (h.broken hplace (hw.broken ▸ hb))
  · exact hsignalled (h.ready hplace completion (hw.ready ▸ hmem) ho)
  · exact hsignalled (h.ended hplace (hresidents ▸ hend))
  · exact hsignalled (h.admissible hplace hc (by rwa [hroom, hw.intakeClosed] at ha))
  · exact hsignalled (h.pulls hplace (hroom ▸ hmay))

theorem announced_of_effect (hclosing : ClosingOk w) (heff : Effect w w') :
    w.scheduler.announced < w'.scheduler.announced ∨ Silently w.scheduler w'.scheduler := by
  rcases scheduler_step hclosing heff with he | ⟨action, hs⟩
  · rw [he]
    exact .inr (silently_self _)
  · exact announces (outcome_of_step hs)

/-- **The news of a step**: it is announced, or every stream in the books is woken at once, or
nothing changed that a stream looks at. -/
theorem news (hclosing : ClosingOk w) (heff : Effect w w') :
    (w'.woken = w.woken ∧ w.scheduler.announced < w'.scheduler.announced) ∨
      (w'.woken ≤ max w.woken w'.scheduler.announced ∧ ∀ j ∈ w'.registered,
        ∀ new, w'.streams[j]? = some new → new.wakeup = true) ∨
      Still w w' := by
  have hkept : (w'.closing ≠ .open → w.closing ≠ .open) → w'.woken = w.woken →
      (w'.woken = w.woken ∧ w.scheduler.announced < w'.scheduler.announced) ∨
        (w'.woken ≤ max w.woken w'.scheduler.announced ∧ ∀ j ∈ w'.registered,
          ∀ new, w'.streams[j]? = some new → new.wakeup = true) ∨
        Still w w' := by
    intro hopen hwoken
    rcases announced_of_effect hclosing heff with hlt | hsilent
    · exact .inl ⟨hwoken, hlt⟩
    · exact .inr (.inr ⟨hsilent, hopen, hwoken⟩)
  have hwakes : w'.streams = w.wakeAll.streams → w'.registered = w.registered →
      ∀ j ∈ w'.registered, ∀ new, w'.streams[j]? = some new → new.wakeup = true := by
    intro hstreams hregistered j hj new hnew
    rw [hstreams] at hnew
    rw [hregistered] at hj
    simp only [ExecutionPool.wakeAll, List.getElem?_mapIdx, Option.map_eq_some_iff] at hnew
    obtain ⟨old, -, rfl⟩ := hnew
    rw [if_pos hj]
  cases heff with
  | takes i stream =>
    rcases driveTake_cases w i stream with ⟨completion, scheduler, -, he⟩ | he | ⟨-, state, he⟩ <;>
      exact hkept (by rw [he]; exact id) (by rw [he]; rfl)
  | admits i stream submission start _ _ hc =>
    obtain ⟨stream', he, -⟩ := driveAdmit_cases w i hc start
    exact hkept (by rw [he]; exact id) (by rw [he]; rfl)
  | keepsBooks i stream ending =>
    unfold ExecutionPool.driveBookkeeping at hkept ⊢
    dsimp only at hkept ⊢
    split_ifs at hkept ⊢ <;> exact hkept id rfl
  | departs i stream phase =>
    unfold ExecutionPool.releaseOwned at hkept ⊢
    split_ifs at hkept ⊢ <;> exact hkept id rfl
  | shutsDown hq => exact hkept (fun _ => by simp [hq]) rfl
  | joins scheduler hj => exact hkept (fun _ => by simp [hj]) rfl
  | wakes hqueued => exact .inr (.inl ⟨le_max_of_le_right hqueued, hwakes rfl rfl⟩)
  | closes => exact .inr (.inl ⟨le_max_left _ _, hwakes rfl rfl⟩)
  | finishes =>
    refine .inr (.inl ⟨?_, hwakes ?_ ?_⟩)
    · refine le_of_eq_of_le ?_ (le_max_left _ _)
      unfold ExecutionPool.finishClose
      dsimp only
      split_ifs <;> rfl
    all_goals
      unfold ExecutionPool.finishClose
      dsimp only
      split_ifs <;> rfl
  | unchanged | worker | opened | moves | breaks | cancels => exact hkept id rfl

/-! ### In every run -/

/-- No callback has run that was not queued, and every stream is alert. -/
structure Heard (w : ExecutionPool Job C Done Fault) : Prop where
  queued : w.woken ≤ w.scheduler.announced
  alert : ∀ (i : ℕ) (stream : Stream Job C Done), w.streams[i]? = some stream → Alert w i stream

/-- **Every step keeps the streams alert.** -/
theorem Heard.step (h : Heard w) (hclosing : ClosingOk w)
    (hstopped : w.closing ≠ .open → w.state ≠ .running) (hbooks : Books w') (heff : Effect w w') :
    Heard w' := by
  have hannounced : w.scheduler.announced ≤ w'.scheduler.announced := by
    rcases announced_of_effect hclosing heff with hlt | hsilent
    · exact hlt.le
    · exact hsilent.announced.ge
  have hqueued := h.queued
  have hold : ∀ (i : ℕ) (stream' : Stream Job C Done), w'.streams[i]? = some stream' →
      Alert w i stream' := by
    intro i stream' hi'
    rcases change_of_effect heff hi' with ⟨stream, hi, rfl | rfl | hchange⟩ | ⟨-, kind, width, rfl⟩
    · exact h.alert i stream' hi
    · exact .of_signalled (.inl rfl) (h.alert i stream hi).emptying
    · exact hchange.alert hstopped (h.alert i stream hi)
    · exact .of_place rfl nofun
  rcases news hclosing heff with ⟨hwoken, hlt⟩ | ⟨hwoken, hall⟩ | hstill
  · refine ⟨by omega, fun i stream' hi' => ?_⟩
    exact .of_signalled (.inr (by omega)) (hold i stream' hi').emptying
  · refine ⟨by omega, fun i stream' hi' => ?_⟩
    by_cases hbooked : stream'.booked = true
    · have hwakeup := hall i ((hbooks.registered i).mpr ⟨stream', hi', hbooked⟩) stream' hi'
      exact .of_signalled (.inl hwakeup) (hold i stream' hi').emptying
    · have hover : stream'.phase.active = false := by
        by_contra hactive
        rw [Bool.not_eq_false] at hactive
        exact hbooked (Stream.booked_of_active hactive)
      unfold Phase.active at hover
      split at hover
      · next ending hp => exact .of_place (by rw [hp]; rfl) (by rw [hp]; nofun)
      · next ending hp => exact .of_place (by rw [hp]; rfl) (by rw [hp]; nofun)
      · cases hover
  · refine ⟨by rw [hstill.woken]; omega, fun i stream' hi' => (hold i stream' hi').still hstill⟩

theorem heard_of_reach {ok : PoolAction Job C Done Fault → ExecutionPool Job C Done Fault → Prop}
    {capacity : ℤ} {w₀ : ExecutionPool Job C Done Fault}
    (h0 : ExecutionPool.open? capacity = some w₀) (h : Reach ExecutionPool.step ok w₀ w) :
    Heard w := by
  refine h.invariant ?_ fun u a v hr hu hok hs =>
    hu.step (closingOk_of_reach h0 hr) (alarmed_of_reach h0 (hr.mono fun _ _ _ => trivial)).stopped
      (books_of_reach h0 (hr.tail hok hs)) (effect_of_step hs)
  obtain ⟨scheduler, -, rfl⟩ := open?_eq h0
  exact ⟨Nat.zero_le _, by simp⟩

/-- The task of the pull is done. -/
def Stream.pullFinished (stream : Stream Job C Done) : Bool :=
  match stream.sourcePull with
  | some (.done _) | some (.raised _) | some .cancelled => true
  | _ => false

/-- What a parked stream could do if its loop went round. It gives up its source once the pool has
left `RUNNING` because it was closed or because its scheduler broke. -/
inductive Progress (w : ExecutionPool Job C Done Fault) (i : ℕ) (stream : Stream Job C Done) : Prop
  | takes (completion : Completion (Context C) Done) : completion ∈ w.scheduler.ready →
      stream.ownedBy i completion.context = true → Progress w i stream
  | admits : stream.carried.isSome = true →
      w.scheduler.canAdmit = true ∨ w.scheduler.intakeClosed = true → Progress w i stream
  | pulls : stream.mayPull w.scheduler.canAdmit = true → Progress w i stream
  | collects : stream.pullFinished = true → Progress w i stream
  | givesUp : w.state ≠ .running → w.closing ≠ .open ∨ w.scheduler.broken.isSome = true →
      stream.sourced = true → Progress w i stream
  | breaksOff : w.scheduler.broken.isSome = true → Progress w i stream
  | ends : stream.atEnd w.scheduler.hasResidents = true → Progress w i stream

/-- **No wakeup is lost**: a parked stream that could do something is woken, or its wakeup is under
way, or its pull is done, which wakes it too. -/
theorem no_lost_wakeup {capacity : ℤ} {w₀ : ExecutionPool Job C Done Fault}
    (h0 : ExecutionPool.open? capacity = some w₀) (h : Reachable ExecutionPool.step w₀ w)
    (hi : w.streams[i]? = some stream) (hp : stream.phase = .parked) (hprogress : Progress w i stream) :
    Signalled w stream ∨ stream.pullFinished = true := by
  have halert := (heard_of_reach h0 h).alert i stream hi
  have hplace : stream.phase.place = 5 := by rw [hp]; rfl
  cases hprogress with
  | takes completion hmem ho => exact .inl (halert.ready (by omega) completion hmem ho)
  | admits hc ha => exact .inl (halert.admissible (by omega) hc ha)
  | pulls hmay => exact .inl (halert.pulls (by omega) hmay)
  | collects hdone => exact .inr hdone
  | givesUp _ hcause hsourced =>
    rcases hcause with hclosing | hb
    · exact .inl (halert.left (by omega) hclosing hsourced)
    · exact .inl (halert.broken (by omega) hb)
  | breaksOff hb => exact .inl (halert.broken (by omega) hb)
  | ends hend => exact .inl (halert.ended (by omega) hend)

/-- A pool that drains, whose stream has given up its source and waits for its job. -/
def draining : ExecutionPool ℕ ℕ ℕ ℕ where
  scheduler :=
    { capacity := 1
      tokens := [(0, ⟨0⟩)]
      workers := [0]
      nextTicket := 1
      residents := 1
      running := 1
      intakeClosed := true
      announced := 2
      threads := [.calling ⟨0, 7, .bare 9, ⟨0⟩⟩]
      history := [.admitted 0 7 (.bare 9), .called 0 7] }
  state := .draining
  activeStreams := 1
  closing := .quiescing
  streams :=
    [{ endsOnOwnWork := false
       permits := 0
       exhausted := true
       outstanding := 1
       phase := .parked
       pulled := [⟨7, 9⟩] }]
  registered := [0]
  woken := 2

theorem draining_reachable :
    Reachable ExecutionPool.step { scheduler := { capacity := 1 } } draining := by
  have hrun : exec ExecutionPool.step
      [[.runStream], List.replicate 6 (.drive 0 none),
        [.answer 0 (.submission ⟨7, 9⟩), .anext 0, .anext 0], List.replicate 15 (.drive 0 none),
        [.takeAdmitted 0, .drain, .wakeStreams, .wakeStreams, .anext 0, .anext 0],
        List.replicate 6 (.drive 0 none)].flatten
      ({ scheduler := { capacity := 1 } } : ExecutionPool ℕ ℕ ℕ ℕ) = some draining := by
    decide +kernel
  exact .of_exec _ (fun _ _ => trivial) hrun

/-- The job of the waiting stream finishes: its wakeup is under way. -/
theorem finished_signalled :
    ∃ w : ExecutionPool ℕ ℕ ℕ ℕ, ExecutionPool.step (.finish 0 (.ok 5)) draining = some w ∧
      ∃ stream, w.streams[0]? = some stream ∧ (Signalled w stream ∨ stream.pullFinished = true) :=
  have h0 : ExecutionPool.open? 1 =
    some ({ scheduler := { capacity := 1 } } : ExecutionPool ℕ ℕ ℕ ℕ) := rfl
  ⟨_, rfl, _, rfl, no_lost_wakeup h0
    (draining_reachable.tail (a := .finish 0 (.ok 5)) trivial rfl) (i := 0) rfl rfl
    (.takes ⟨0, 5, .bare 9⟩ (by decide) (by decide))⟩

/-- A stream of a pool that left `RUNNING` sleeps once it has given up its source: there is nothing
it could do before its job finishes. -/
theorem draining_stream_sleeps :
    ¬ ∀ (capacity : ℤ) (w₀ w : ExecutionPool ℕ ℕ ℕ ℕ) (i : ℕ) (stream : Stream ℕ ℕ ℕ),
      ExecutionPool.open? capacity = some w₀ → Reachable ExecutionPool.step w₀ w →
      w.streams[i]? = some stream → stream.phase = .parked →
      Progress w i stream ∨ w.state ≠ .running →
      Signalled w stream ∨ stream.pullFinished = true := by
  intro hall
  rcases hall 1 _ draining 0 _ rfl draining_reachable rfl rfl (.inr nofun) with
    (hwakeup | hqueued) | hdone
  · exact absurd hwakeup (by decide)
  · exact absurd hqueued (by decide)
  · exact absurd hdone (by decide)

end DrExec.Scheduling.Pool
