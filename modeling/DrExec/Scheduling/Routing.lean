import DrExec.Scheduling.Streams

/-! # Stream routing

A run stays calm if nothing breaks the scheduler or the pool or closes it and every map stream is
left to run to its end. In a calm run the local counter `outstanding` of a map stream is the number of its
jobs that are queued, running or buffered (`Routed`), so when its loop returns it has handed on
every completion of its source and no other. -/

namespace DrExec.Scheduling.Pool

open DrExec.Lib.Transition Scheduler ExecutionScheduler

variable {Job C Done Fault : Type}

/-- A map stream that ends, or will end, otherwise than by the return of its loop. -/
def Stream.stopped (stream : Stream Job C Done) : Bool :=
  stream.endsOnOwnWork && match stream.phase with
    | .settling true | .abandoned => true
    | .finalizing ending | .bookkeeping ending | .departing ending | .ended ending =>
      ending ≠ .returned
    | _ => false

/-- The loop of the stream has returned. -/
def Stream.finishing (stream : Stream Job C Done) : Bool :=
  match stream.phase with
  | .finalizing _ | .bookkeeping _ | .departing _ | .ended _ => true
  | _ => false

/-- Nothing broke the scheduler or the pool or closed the pool, and no map stream was stopped. -/
structure Calm (w : ExecutionPool Job C Done Fault) : Prop where
  unbroken : w.scheduler.broken = none
  notBroken : w.state ≠ .broken
  notClosing : w.closing = .open
  notStopped : ∀ stream ∈ w.streams, stream.stopped = false

/-- The action leads to a calm state. -/
def StaysCalm (action : PoolAction Job C Done Fault) (w : ExecutionPool Job C Done Fault) : Prop :=
  ∀ w', ExecutionPool.step action w = some w' → Calm w'

instance (w : ExecutionPool Job C Done Fault) : Decidable (Calm w) :=
  decidable_of_iff (w.scheduler.broken.isNone = true ∧ w.state ≠ .broken ∧ w.closing = .open ∧
      ∀ stream ∈ w.streams, stream.stopped = false)
    ⟨fun ⟨hb, hn, hc, hs⟩ => ⟨Option.isNone_iff_eq_none.mp hb, hn, hc, hs⟩,
      fun ⟨hb, hn, hc, hs⟩ => ⟨Option.isNone_iff_eq_none.mpr hb, hn, hc, hs⟩⟩

instance (action : PoolAction Job C Done Fault) (w : ExecutionPool Job C Done Fault) :
    Decidable (StaysCalm action w) :=
  match h : ExecutionPool.step action w with
  | none => .isTrue fun w' hw => by rw [h] at hw; cases hw
  | some w' => decidable_of_iff (Calm w')
      ⟨fun hc w'' hw => by rw [h] at hw; cases hw; exact hc, fun hc => hc w' h⟩

/-- A submission of `map_stream` as the scheduler gets it. -/
def submitted (owner : ℕ) (submission : ExecutionSubmission Job C) : Job × Context C :=
  (submission.job, .owned owner submission.context)

/-- **What holds of a map stream in a calm run.** What its source gave is admitted, carried or
brought; `outstanding` counts its work in the scheduler; its loop returns with nothing left. -/
structure Stream.Routed (owner : ℕ) (scheduler : ExecutionScheduler Job (Context C) Done Fault)
    (stream : Stream Job C Done) : Prop where
  submitted : stream.pulled.map (submitted owner) =
    (admissions (owns owner) scheduler.history).map Prod.snd ++
      (stream.carried.toList ++ stream.brought).map fun submission =>
        (submission.job, submission.context)
  outstanding : stream.outstanding = scheduler.work (owns owner)
  balance : (admissions (owns owner) scheduler.history).length =
    (deliveries owner scheduler.history).length + scheduler.work (owns owner)
  carried_idle : stream.carried.isSome = true → stream.sourcePull = none
  exhausted_idle : stream.exhausted = true → stream.sourcePull = none
  finished : stream.finishing = true →
    stream.exhausted = true ∧ stream.carried = none ∧ stream.outstanding = 0
  not_emptying : stream.phase ≠ .emptying
  source : stream.exhausted = true ∨ stream.sourcePull = some (.done none) →
    stream.sourceStopped = true

theorem Stream.brought_eq_nil {stream : Stream Job C Done} (h : stream.sourcePull = none) :
    stream.brought = [] := by
  simp [Stream.brought, h]

namespace Stream.Routed

variable {owner : ℕ} {scheduler scheduler' : ExecutionScheduler Job (Context C) Done Fault}
  {stream stream' : Stream Job C Done}

/-- A section that leaves the work and the log of the owner alone. -/
theorem frame (h : stream.Routed owner scheduler)
    (hw : scheduler'.work (owns owner) = scheduler.work (owns owner))
    (ha : admissions (owns owner) scheduler'.history = admissions (owns owner) scheduler.history)
    (hd : deliveries owner scheduler'.history = deliveries owner scheduler.history) :
    stream.Routed owner scheduler' where
  submitted := by rw [ha]; exact h.submitted
  outstanding := by rw [hw]; exact h.outstanding
  balance := by rw [ha, hd, hw]; exact h.balance
  carried_idle := h.carried_idle
  exhausted_idle := h.exhausted_idle
  finished := h.finished
  not_emptying := h.not_emptying
  source := h.source

/-- A stream that only went to another phase of its loop. -/
theorem phase (h : stream.Routed owner scheduler) (next : Phase C Done)
    (hf : ({ stream with phase := next } : Stream Job C Done).finishing = false)
    (he : next ≠ .emptying) :
    ({ stream with phase := next } : Stream Job C Done).Routed owner scheduler where
  submitted := h.submitted
  outstanding := h.outstanding
  balance := h.balance
  carried_idle := h.carried_idle
  exhausted_idle := h.exhausted_idle
  finished hfin := by rw [hf] at hfin; cases hfin
  not_emptying := he
  source := h.source

/-- The stream takes one of its completions. -/
theorem took (h : stream.Routed owner scheduler) (completion : Completion (Context C) Done)
    (hw : scheduler.work (owns owner) = scheduler'.work (owns owner) + 1)
    (ha : admissions (owns owner) scheduler'.history = admissions (owns owner) scheduler.history)
    (hd : deliveries owner scheduler'.history =
      deliveries owner scheduler.history ++ [completion]) :
    ({ stream with outstanding := stream.outstanding - 1, phase := .took completion } :
      Stream Job C Done).Routed owner scheduler' where
  submitted := by rw [ha]; exact h.submitted
  outstanding := by
    have := h.outstanding
    dsimp only
    omega
  balance := by
    have := h.balance
    rw [ha, hd, List.length_append, List.length_singleton]
    omega
  carried_idle := h.carried_idle
  exhausted_idle := h.exhausted_idle
  finished hf := by simp [Stream.finishing] at hf
  not_emptying := by simp
  source := h.source

/-- What the stream carries is admitted. -/
theorem admitted (h : stream.Routed owner scheduler) (ticket : ℕ)
    {submission : ExecutionSubmission Job (Context C)} (hc : stream.carried = some submission)
    (hw : scheduler'.work (owns owner) = scheduler.work (owns owner) + 1)
    (ha : admissions (owns owner) scheduler'.history =
      admissions (owns owner) scheduler.history ++ [(ticket, submission.job, submission.context)])
    (hd : deliveries owner scheduler'.history = deliveries owner scheduler.history) :
    ({ stream with carried := none, outstanding := stream.outstanding + 1, phase := .top } :
      Stream Job C Done).Routed owner scheduler' where
  submitted := by
    have hsub := h.submitted
    have hb := Stream.brought_eq_nil (h.carried_idle (by simp [hc]))
    have hb' : ({ stream with
        carried := none, outstanding := stream.outstanding + 1, phase := .top } :
          Stream Job C Done).brought = [] := hb
    rw [hc, hb] at hsub
    rw [ha, hb', hsub]
    simp
  outstanding := by
    have := h.outstanding
    dsimp only
    omega
  balance := by
    have := h.balance
    rw [ha, hd, List.length_append, List.length_singleton]
    omega
  carried_idle hcar := by simp at hcar
  exhausted_idle := h.exhausted_idle
  finished hf := by simp [Stream.finishing] at hf
  not_emptying := by simp
  source := h.source

/-- Permits and receipts are no part of it. -/
theorem receipt (h : stream.Routed owner scheduler) (permits : ℕ)
    (received : List (Completion (Context C) Done)) :
    ({ stream with permits := permits, received := received } : Stream Job C Done).Routed owner
      scheduler :=
  ⟨h.submitted, h.outstanding, h.balance, h.carried_idle, h.exhausted_idle, h.finished,
    h.not_emptying, h.source⟩

/-- A pull is started only by a stream that carries nothing and is not exhausted. -/
theorem startPull (h : stream.Routed owner scheduler) {canAdmit : Bool}
    (hp : stream.mayPull canAdmit = true) (next : Phase C Done)
    (hf : ({ stream with phase := next } : Stream Job C Done).finishing = false)
    (he : next ≠ .emptying) :
    ({ stream.startPull with phase := next } : Stream Job C Done).Routed owner scheduler := by
  simp only [Stream.mayPull, Bool.and_eq_true, Bool.not_eq_true', Option.isNone_iff_eq_none] at hp
  obtain ⟨⟨⟨hex, hcar⟩, hpull⟩, -⟩ := hp
  refine ⟨?_, h.outstanding, h.balance, ?_, ?_, fun hfin => ?_, he, ?_⟩
  · have hb : stream.startPull.brought = stream.brought := by
      unfold Stream.startPull Stream.brought
      rw [hpull]
      split_ifs <;> rfl
    have hs := h.submitted
    rw [← hb] at hs
    exact hs
  · simp [Stream.startPull, hcar]
  · simp [Stream.startPull, hex]
  · have : ({ stream.startPull with phase := next } : Stream Job C Done).finishing =
      ({ stream with phase := next } : Stream Job C Done).finishing := rfl
    rw [this, hf] at hfin
    cases hfin
  · simp only [Stream.startPull, hex, Bool.false_eq_true, false_or]
    split_ifs <;> simp

theorem carried_none (h : stream.Routed owner scheduler) (hpull : stream.sourcePull.isSome = true) :
    stream.carried = none := by
  by_contra hne
  have := h.carried_idle (Option.isSome_iff_ne_none.mpr hne)
  simp [this] at hpull

theorem not_exhausted (h : stream.Routed owner scheduler)
    (hpull : stream.sourcePull.isSome = true) : stream.exhausted = false := by
  by_contra hne
  have := h.exhausted_idle (by simpa using hne)
  simp [this] at hpull

/-- A pull that ends while its stream runs its loop. -/
theorem pullDone (h : stream.Routed owner scheduler) (hpull : stream.sourcePull.isSome = true)
    {pull : Pull Job C} {pulled : List (ExecutionSubmission Job C)} {permits : ℕ}
    {sourceStopped : Bool} (hstop : pull = .done none → sourceStopped = true)
    (hs : pulled.map (Pool.submitted owner) = stream.pulled.map (Pool.submitted owner) ++
      ({ stream with sourcePull := some pull } : Stream Job C Done).brought.map
        fun submission => (submission.job, submission.context))
    (hb : stream.brought = []) :
    (({ stream with pulled := pulled, permits := permits, sourceStopped := sourceStopped } :
      Stream Job C Done).pullDone pull).Routed owner scheduler := by
  have hcar := h.carried_none hpull
  have hex := h.not_exhausted hpull
  have hfin : stream.finishing = false := by
    by_contra hne
    have := (h.finished (by simpa using hne)).1
    simp [this] at hex
  have hdone : ({ stream with
        pulled := pulled, permits := permits, sourceStopped := sourceStopped } :
          Stream Job C Done).pullDone pull =
      { stream with
        pulled := pulled
        permits := permits
        sourceStopped := sourceStopped
        sourcePull := some pull } := by
    unfold Stream.pullDone
    dsimp only
    split
    · next hp => exact absurd hp h.not_emptying
    · next ending hp => simp [Stream.finishing, hp] at hfin
    · rfl
  rw [hdone]
  refine ⟨?_, h.outstanding, h.balance, by simp [hcar], by simp [hex], fun hf => ?_, h.not_emptying,
    fun hs' => hstop (by simpa [hex] using hs')⟩
  · have hsub := h.submitted
    rw [hb, hcar] at hsub
    simp only [Option.toList_none, List.map_nil, List.append_nil] at hsub
    rw [hs, hsub, hcar]
    rfl
  · have : stream.finishing = true := hf
    rw [hfin] at this
    cases this

end Stream.Routed

/-- An exception stops a map stream. -/
theorem Stream.stopped_enterFinally_raised {stream : Stream Job C Done}
    (hkind : stream.endsOnOwnWork = true) : ¬ (stream.enterFinally .raised).stopped = false := by
  obtain ⟨phase, he, hphase, -⟩ := stream.enterFinally_eq .raised
  rw [he]
  rcases hphase with rfl | rfl | rfl | rfl <;> simp [Stream.stopped, hkind]

/-- **A map stream's own steps** in a calm run. -/
theorem Stream.Routed.local {w : ExecutionPool Job C Done Fault} {i : ℕ}
    {stream stream' : Stream Job C Done} (h : stream.Routed i w.scheduler) (hrun : w.state = .running)
    (hkind : stream.endsOnOwnWork = true) (hstop : stream.stopped = false)
    (hstop' : stream'.stopped = false) (hlocal : Local w i stream stream') :
    stream'.Routed i w.scheduler := by
  cases hlocal with
  | loopHead hp =>
    have hhead : stream.loopHead w.state = { stream with wakeup := false, phase := .take } := by
      simp [Stream.loopHead, hrun]
    rw [hhead]
    exact ⟨h.submitted, h.outstanding, h.balance, h.carried_idle, h.exhausted_idle,
      fun hf => by simp [Stream.finishing] at hf, by simp, h.source⟩
  | yieldTaken completion hp =>
    unfold Stream.yieldTaken
    dsimp only
    split_ifs with hpull
    · exact (h.startPull hpull .yielded rfl (by simp)).receipt _ _
    · exact (h.startPull hpull .yielded rfl (by simp)).receipt _ _
    · exact (h.phase .yielded rfl (by simp)).receipt _ _
  | ends hp hend =>
    simp only [Stream.atEnd, hkind, if_true, Bool.and_eq_true, Option.isNone_iff_eq_none,
      beq_iff_eq] at hend
    have hpull := h.exhausted_idle hend.1.1
    have he : stream.enterFinally .returned = { stream with phase := .bookkeeping .returned } := by
      simp [Stream.enterFinally, hpull]
    rw [he]
    exact ⟨h.submitted, h.outstanding, h.balance, h.carried_idle, h.exhausted_idle,
      fun _ => ⟨hend.1.1, hend.1.2, hend.2⟩, by simp, h.source⟩
  | goesOn hp => exact h.phase _ rfl (by simp)
  | carriesNothing hp hc => exact h.phase _ rfl (by simp)
  | collect hp =>
    unfold Stream.collectPull at hstop' ⊢
    split at hstop'
    · next hpull =>
      refine ⟨?_, h.outstanding, h.balance, fun _ => rfl, fun _ => rfl,
        fun hf => by simp [Stream.finishing] at hf, by simp, fun _ => h.source (Or.inr hpull)⟩
      simpa [Stream.brought, hpull] using h.submitted
    · next submission hpull =>
      have hcar : stream.carried = none := h.carried_none (by simp [hpull])
      refine ⟨?_, h.outstanding, h.balance, fun _ => rfl, fun _ => rfl,
        fun hf => by simp [Stream.finishing] at hf, by simp,
        fun hs => h.source (Or.inl (by simpa using hs))⟩
      simpa [Stream.brought, hpull, hrun, hcar] using h.submitted
    · exact absurd hstop' (stopped_enterFinally_raised hkind)
    · exact absurd hstop' (stopped_enterFinally_raised hkind)
    · exact h.phase _ rfl (by simp)
  | park hp =>
    unfold Stream.park
    dsimp only
    split_ifs with hpull
    · exact h.startPull hpull _ rfl (by simp)
    · exact h.phase _ rfl (by simp)
  | resumes hp => exact h.phase _ rfl (by simp)
  | settles cancelled hp => exact h.phase _ rfl (by simp)
  | cancelled hp => simp [Stream.stopped, hkind, hp] at hstop
  | finalized hp => simp [Stream.stopped, hkind, hp] at hstop
  | acquires hpull hpermit =>
    have hsome : stream.sourcePull.isSome = true := by simp [hpull]
    refine ⟨?_, h.outstanding, h.balance, ?_, ?_, h.finished, h.not_emptying,
      fun hs => h.source (Or.inl (by simpa using hs))⟩
    · simpa [Stream.brought, hpull] using h.submitted
    · simp [h.carried_none hsome]
    · simp [h.not_exhausted hsome]
  | answered answer hpull =>
    have hsome : stream.sourcePull.isSome = true := by
      rcases hpull with hpull | ⟨hpull, -⟩ <;> simp [hpull]
    have hb : stream.brought = [] := by
      rcases hpull with hpull | ⟨hpull, -⟩ <;> simp [Stream.brought, hpull]
    cases answer with
    | submission submission =>
      exact h.pullDone hsome (by simp) (by simp [Stream.brought, Stream.tag, hkind, Pool.submitted]) hb
    | stop => exact h.pullDone hsome (fun _ => rfl) (by simp [Stream.brought]) hb
    | raised => exact h.pullDone hsome (by simp) (by simp [Stream.brought]) hb
    | cancelled => exact h.pullDone hsome (by simp) (by simp [Stream.brought]) hb

/-! ### The invariant of a calm run -/

/-- **The invariant of a calm run.** The pool runs, every map stream is routed, and there is no work
and no admission of an owner yet to come. -/
structure Routed (w : ExecutionPool Job C Done Fault) : Prop where
  running : w.state = .running
  openIntake : w.scheduler.intakeClosed = false
  stream : ∀ (i : ℕ) (stream : Stream Job C Done), w.streams[i]? = some stream →
    stream.endsOnOwnWork = true → stream.Routed i w.scheduler
  fresh : ∀ owner, w.streams.length ≤ owner →
    admissions (owns owner) w.scheduler.history = [] ∧ w.scheduler.work (owns owner) = 0

namespace Routed

variable {w w' : ExecutionPool Job C Done Fault}

/-- A step that leaves the work and the logs of every owner alone. -/
theorem frame (h : Routed w) (hstate : w'.state = w.state)
    (hopen : w'.scheduler.intakeClosed = w.scheduler.intakeClosed)
    (hwork : ∀ owner, w'.scheduler.work (owns owner) = w.scheduler.work (owns owner))
    (hs : w.scheduler.Silent w'.scheduler) (hlen : w'.streams.length = w.streams.length)
    (hstreams : ∀ (j : ℕ) (stream' : Stream Job C Done), w'.streams[j]? = some stream' →
      stream'.endsOnOwnWork = true → stream'.Routed j w.scheduler) : Routed w' := by
  refine ⟨hstate.trans h.running, hopen.trans h.openIntake, fun j stream' hj hk => ?_,
    fun owner howner => ?_⟩
  · exact (hstreams j stream' hj hk).frame (hwork j) (hs.admissions_eq _) (hs.deliveries_eq j)
  · rw [hs.admissions_eq, hwork owner]
    exact h.fresh owner (hlen ▸ howner)

/-- A stream that wakes keeps its place. -/
theorem woken (h : Routed w) (hstreams : w'.streams = w.wakeAll.streams) :
    ∀ (j : ℕ) (stream' : Stream Job C Done), w'.streams[j]? = some stream' →
      stream'.endsOnOwnWork = true → stream'.Routed j w.scheduler := by
  intro j stream' hj hk
  rw [hstreams] at hj
  obtain ⟨stream, wakeup, hst, rfl⟩ := keeps_wakeAll hj
  have hr := h.stream j stream hst hk
  exact ⟨hr.submitted, hr.outstanding, hr.balance, hr.carried_idle, hr.exhausted_idle, hr.finished,
    hr.not_emptying, hr.source⟩

theorem opened (h : Routed w) (ht : Tagged w) (endsOnOwnWork : Bool) (width : ℕ) :
    Routed (w.openStream endsOnOwnWork width) := by
  refine ⟨h.running, h.openIntake, fun j stream hj hk => ?_, fun owner howner => h.fresh owner ?_⟩
  · rcases getElem?_openStream hj with hj | ⟨rfl, rfl⟩
    · exact h.stream j stream hj hk
    · obtain ⟨ha, hwork⟩ := h.fresh w.streams.length le_rfl
      have hd := (ht.opened endsOnOwnWork width).stream _ _ hj
      refine ⟨?_, ?_, ?_, fun _ => rfl, fun _ => rfl, fun hf => by simp [Stream.finishing] at hf,
        by simp, by simp⟩
      · simp [ExecutionPool.openStream, ha, Stream.brought]
      · simp [ExecutionPool.openStream, hwork]
      · rw [hd.received]
        simp [ExecutionPool.openStream, ha, hwork, Stream.inHand]
  · simp only [ExecutionPool.openStream, List.length_append, List.length_singleton] at howner
    omega

/-- A map stream counts down what it takes, and no other stream's work goes with it. -/
theorem takes (h : Routed w) (hb : w.scheduler.broken = none) {i : ℕ} {stream : Stream Job C Done}
    (hi : w.streams[i]? = some stream) : Routed (w.driveTake i stream) := by
  rcases driveTake_cases w i stream with ⟨completion, scheduler, ht, he⟩ | he | ⟨hbr, -⟩
  · have hh : scheduler.history = w.scheduler.history := history_taken ht
    have hown := (work_taken (fun _ => true) i (stream.ownedBy i) ht).1
    have hwork := fun j => (work_taken (owns j) i (stream.ownedBy i) ht).2
    have hadm : ∀ j, admissions (owns j) (scheduler.record (.delivered i completion)).history =
        admissions (owns j) w.scheduler.history := fun j => by rw [admissions_delivered, hh]
    -- The work of an owner goes down only if the owner is the taker.
    have hother : ∀ j, ¬ (stream.endsOnOwnWork = true ∧ i = j) → owns j completion.context = false := by
      intro j hne
      by_contra hj
      exact hne (stream.owns_of_ownedBy hown (by simpa using hj))
    rw [he]
    refine ⟨h.running, (intakeClosed_taken ht).trans h.openIntake, ?_, fun owner howner => ?_⟩
    · refine forall_put (fun hk => ?_) fun j other hj hne hk => ?_
      · have hr := h.stream i stream hi hk
        have hself : owns i completion.context = true := by
          simpa [Stream.ownedBy, show stream.endsOnOwnWork = true from hk] using hown
        have hi' := hwork i
        rw [if_pos hself] at hi'
        have hd : deliveries i (scheduler.record (.delivered i completion)).history =
            deliveries i w.scheduler.history ++ [completion] := by
          rw [deliveries_delivered, if_pos rfl, hh]
        exact hr.took completion hi' (hadm i) hd
      · have hj' := hwork j
        rw [hother j (fun hij => hne hij.2.symm), if_neg Bool.false_ne_true, Nat.add_zero] at hj'
        refine (h.stream j other hj hk).frame hj'.symm (hadm j) ?_
        change deliveries j (scheduler.record _).history = _
        rw [deliveries_delivered, if_neg (Ne.symm hne), List.append_nil, hh]
    · rw [length_put] at howner
      have hlt := (List.getElem?_eq_some_iff.mp hi).1
      have howner' := hwork owner
      rw [hother owner (fun hij => by have := hij.2; dsimp only at howner; omega),
        if_neg Bool.false_ne_true, Nat.add_zero] at howner'
      obtain ⟨ha, hz⟩ := h.fresh owner howner
      exact ⟨(hadm owner).trans ha, howner'.symm.trans hz⟩
  · rw [he]
    refine h.frame rfl rfl (fun _ => rfl) (.of_eq rfl) (length_put w i _) ?_
    exact forall_put (fun hk => (h.stream i stream hi hk).phase _ rfl (by simp))
      fun j other hj _ hk => h.stream j other hj hk
  · simp [hb] at hbr

/-- A map stream counts up what is admitted for it. -/
theorem admits (h : Routed w) (ht : Tagged w) {i : ℕ} {stream : Stream Job C Done}
    (hi : w.streams[i]? = some stream) {submission : ExecutionSubmission Job (Context C)}
    (hc : stream.carried = some submission) (start : Option Fault)
    (hb : (w.driveAdmit i stream start).scheduler.broken = none) :
    Routed (w.driveAdmit i stream start) := by
  have hown := (ht.stream i stream hi).carried submission hc
  rw [scheduler_driveAdmit w i hc start] at hb
  obtain ⟨stream', he, hcases⟩ := driveAdmit_cases w i hc start
  rw [he]
  rcases hcases with ⟨hr, rfl⟩ | ⟨hr, -⟩ | ⟨hr, rfl⟩
  · have hwork := fun j => work_admit_of_admitted (owns j) submission.job submission.context start hr
    have hsilent := history_admit_of_admitted submission.job submission.context start hr
    have hadm : ∀ j, admissions (owns j)
        (w.scheduler.admitJob submission.job submission.context start).2.history =
          admissions (owns j) w.scheduler.history ++ if owns j submission.context then
            [(w.scheduler.nextTicket, submission.job, submission.context)] else [] := fun j => by
      rw [hsilent.admissions_eq, admissions_admitted]
    have hdel : ∀ j, deliveries j
        (w.scheduler.admitJob submission.job submission.context start).2.history =
          deliveries j w.scheduler.history := fun j => by
      rw [hsilent.deliveries_eq, deliveries_admitted]
    have hother : ∀ j, ¬ (stream.endsOnOwnWork = true ∧ i = j) →
        owns j submission.context = false := by
      intro j hne
      by_contra hj
      exact hne (stream.owns_of_ownedBy hown (by simpa using hj))
    refine ⟨h.running, (intakeClosed_admitJob _ _ _ hb).trans h.openIntake, ?_, fun owner howner => ?_⟩
    · refine forall_put (fun hk => ?_) fun j other hj hne hk => ?_
      · have hr := h.stream i stream hi hk
        have hself : owns i submission.context = true := by
          simpa [Stream.ownedBy, show stream.endsOnOwnWork = true from hk] using hown
        have hi' := hwork i
        have hai := hadm i
        rw [if_pos hself] at hi' hai
        exact hr.admitted w.scheduler.nextTicket hc hi' hai (hdel i)
      · have hne' : owns j submission.context = false := hother j fun hij => hne hij.2.symm
        have hj' := hwork j
        have haj := hadm j
        rw [hne', if_neg Bool.false_ne_true] at hj' haj
        rw [Nat.add_zero] at hj'
        rw [List.append_nil] at haj
        exact (h.stream j other hj hk).frame hj' haj (hdel j)
    · rw [length_put] at howner
      have hlt := (List.getElem?_eq_some_iff.mp hi).1
      have hne' : owns owner submission.context = false :=
        hother owner fun hij => by have := hij.2; dsimp only at howner; omega
      have howner' := hwork owner
      have haowner := hadm owner
      rw [hne', if_neg Bool.false_ne_true] at howner' haowner
      obtain ⟨ha, hz⟩ := h.fresh owner howner
      exact ⟨haowner.trans (by rw [List.append_nil]; exact ha), howner'.trans hz⟩
  · have := admit_of_intakeClosed _ _ _ hr hb
    rw [h.openIntake] at this
    cases this
  · have hsame := admit_of_noRoom _ _ _ hr
    rw [hsame]
    refine h.frame rfl rfl (fun _ => rfl) (.of_eq rfl) (length_put w i _) ?_
    exact forall_put (fun hk => (h.stream i stream hi hk).phase _ rfl (by simp))
      fun j other hj _ hk => h.stream j other hj hk

/-- A map stream that returned has nothing to release. -/
theorem departs (h : Routed w) {i : ℕ} {stream : Stream Job C Done} (hi : w.streams[i]? = some stream)
    {ending : Ending} (hp : stream.phase = .departing ending) :
    Routed ((w.releaseOwned i stream).put i { stream with phase := .ended ending }) := by
  unfold ExecutionPool.releaseOwned
  split_ifs with hk
  · have hr := h.stream i stream hi hk
    have hdone := hr.finished (by simp [Stream.finishing, hp])
    have hzero : w.scheduler.work (owns i) = 0 := by
      have := hr.outstanding
      omega
    have hwork : ∀ owner, (w.scheduler.releaseOwned (owns i)).work (owns owner) =
        w.scheduler.work (owns owner) := by
      intro owner
      by_cases ho : owner = i
      · subst ho
        have := work_releaseOwned_le (s := w.scheduler) (owns owner) (owns owner)
        omega
      · exact work_releaseOwned_of_disjoint (owns owner) (owns i) fun context hc => by
          cases context <;> simp [owns] at hc ⊢
          omega
    refine h.frame rfl ?_ hwork (Silent.releaseOwned _ _) (length_put _ i _) ?_
    · change (w.scheduler.releaseOwned (owns i)).intakeClosed = _
      rw [releaseOwned_eq]
    · refine forall_put (fun _ => ?_) fun j other hj _ hk' => h.stream j other hj hk'
      exact ⟨hr.submitted, hr.outstanding, hr.balance, hr.carried_idle, hr.exhausted_idle,
        fun _ => hdone, by simp, hr.source⟩
  · refine h.frame rfl rfl (fun _ => rfl) (.of_eq rfl) (length_put w i _) ?_
    exact forall_put (fun hk' => absurd hk' hk) fun j other hj _ hk' => h.stream j other hj hk'

/-- **Every step to a calm state keeps streams routed.** -/
theorem step (h : Routed w) (ht : Tagged w) (hclosing : ClosingOk w) (hcalm : Calm w)
    (hcalm' : Calm w') (heff : Effect w w') : Routed w' := by
  have hstreams : ∀ (j : ℕ) (other : Stream Job C Done), w.streams[j]? = some other →
    other.endsOnOwnWork = true → other.Routed j w.scheduler := h.stream
  cases heff with
  | unchanged => exact h
  | worker action scheduler haction hs =>
    have hwork := fun p => work_worker_of_unbroken p haction hs hcalm'.unbroken
    exact h.frame rfl (hwork unowned).2 (fun owner => (hwork (owns owner)).1)
      (Silent.worker haction hs) rfl hstreams
  | opened endsOnOwnWork width => exact h.opened ht endsOnOwnWork width
  | moves i stream stream' hi hlocal =>
    refine h.frame rfl rfl (fun _ => rfl) (.of_eq rfl) (length_put w i _) ?_
    refine forall_put (fun hk => ?_) fun j other hj _ hk => h.stream j other hj hk
    have hkind : stream.endsOnOwnWork = true := hlocal.keeps.kind ▸ hk
    have hlt := (List.getElem?_eq_some_iff.mp hi).1
    have hstop := hcalm.notStopped stream (List.mem_of_getElem? hi)
    have hstop' := hcalm'.notStopped stream' (List.mem_of_getElem? (i := i) (by
      simp [ExecutionPool.put, hlt]))
    exact (h.stream i stream hi hkind).local h.running hkind hstop hstop' hlocal
  | breaks => exact absurd rfl hcalm'.notBroken
  | takes i stream hi hp => exact h.takes hcalm.unbroken hi
  | admits i stream submission start hi hp hc => exact h.admits ht hi hc start hcalm'.unbroken
  | keepsBooks i stream ending hi hp =>
    have hopen : w.shutdownComplete ≠ true := fun hs => by
      have := hclosing.complete hs
      rw [hcalm.notClosing] at this
      cases this
    have hbooks : w.driveBookkeeping i stream ending =
        { w with
          registered := w.registered.filter fun j => j ≠ i
          activeStreams := w.activeStreams - 1 }.put i { stream with
            phase := if ending = Ending.closed then .ended .closed else .departing ending } := by
      unfold ExecutionPool.driveBookkeeping
      dsimp only
      rw [if_neg fun hs => hopen hs.2]
    rw [hbooks]
    refine h.frame rfl rfl (fun _ => rfl) (.of_eq rfl) (length_put w i _) ?_
    refine forall_put (fun hk => ?_) fun j other hj _ hk => h.stream j other hj hk
    have hr := h.stream i stream hi hk
    refine ⟨hr.submitted, hr.outstanding, hr.balance, hr.carried_idle, hr.exhausted_idle,
      fun _ => hr.finished (by simp [Stream.finishing, hp]), ?_, hr.source⟩
    dsimp only
    split_ifs <;> simp
  | departs i stream phase hi hphase =>
    rcases hphase with ⟨hp, rfl⟩ | ⟨ending, hp, rfl⟩
    · cases hk : stream.endsOnOwnWork with
      | true =>
        have hlt := (List.getElem?_eq_some_iff.mp hi).1
        have hmem : ({ stream with phase := .abandoned } : Stream Job C Done) ∈
            ((w.releaseOwned i stream).put i { stream with phase := .abandoned }).streams := by
          refine List.mem_of_getElem? (i := i) ?_
          simp [ExecutionPool.releaseOwned, ExecutionPool.put, hk, hlt]
        have := hcalm'.notStopped _ hmem
        simp [Stream.stopped, hk] at this
      | false =>
        have hnone : w.releaseOwned i stream = w := by simp [ExecutionPool.releaseOwned, hk]
        rw [hnone]
        refine h.frame rfl rfl (fun _ => rfl) (.of_eq rfl) (length_put w i _) ?_
        exact forall_put (fun hk' => by simp at hk') fun j other hj _ hk' =>
          h.stream j other hj hk'
    · exact h.departs hi hp
  | wakes => exact h.frame rfl rfl (fun _ => rfl) (.of_eq rfl) (length_wakeAll w) (h.woken rfl)
  | closes => exact absurd hcalm'.notClosing (by simp [ExecutionPool.close])
  | cancels hne => exact absurd hcalm.notClosing hne
  | shutsDown hq => exact absurd hcalm.notClosing (by simp [hq])
  | joins scheduler hj => exact absurd hcalm.notClosing (by simp [hj])
  | finishes hj => exact absurd hcalm.notClosing (by simp [hj])

end Routed

theorem context_of_owns {owner : ℕ} {context : Context C} (h : owns owner context = true) :
    ∃ caller, context = .owned owner caller := by
  cases context <;> simp_all [owns]

theorem context_of_unowned {context : Context C} (h : unowned context = true) :
    ∃ caller, context = .bare caller := by
  cases context <;> simp_all [unowned]

/-- A calm run ends in a calm state whose streams are routed. -/
theorem routed_of_reach {capacity : ℤ} {w₀ w : ExecutionPool Job C Done Fault}
    (h0 : ExecutionPool.open? capacity = some w₀)
    (h : Reach ExecutionPool.step StaysCalm w₀ w) : Calm w ∧ Routed w := by
  refine h.invariant (I := fun u => Calm u ∧ Routed u) ?_ fun u a v hr hu hok hs => ?_
  · obtain ⟨scheduler, hs, rfl⟩ := open?_eq h0
    obtain ⟨-, rfl⟩ := init_eq hs
    exact ⟨⟨rfl, by simp, rfl, by simp⟩, ⟨rfl, rfl, by simp, by simp [admissions, work, unfinished, finished,
      calls]⟩⟩
  · have hcalm := hok v hs
    exact ⟨hcalm, hu.2.step (tagged_of_reach h0 hr) (closingOk_of_reach h0 hr) hu.1 hcalm
      (effect_of_step hs)⟩

/-! ### Stream routing -/

/-- Where the completions of a pool go. A map stream receives completions of its own submissions
only, as submitted, and no other driver is handed one; a plain stream receives those of plain
streams; no completion is received twice. A map stream counts its work, and when its loop has
returned its source had stopped, nothing is left, and it received one completion for each submission
its source gave. -/
structure StreamRouting (w : ExecutionPool Job C Done Fault) : Prop where
  own : ∀ (i : ℕ) (stream : Stream Job C Done), w.streams[i]? = some stream →
    ∀ completion ∈ stream.received, Ledger.Genuine w.scheduler.history completion ∧
      if stream.endsOnOwnWork then ∃ context, completion.context = .owned i context
      else ∃ context, completion.context = .bare context
  exclusive : ∀ driver completion owner context,
    .delivered driver completion ∈ w.scheduler.history →
    completion.context = .owned owner context → driver = owner
  once : ∀ (i : ℕ) (stream : Stream Job C Done), w.streams[i]? = some stream →
    (stream.received.map Completion.ticket).Nodup
  disjoint : ∀ (i j : ℕ) (stream other : Stream Job C Done), w.streams[i]? = some stream →
    w.streams[j]? = some other → i ≠ j → ∀ completion ∈ stream.received,
      ∀ completion' ∈ other.received, completion.ticket ≠ completion'.ticket
  submissions : ∀ (i : ℕ) (stream : Stream Job C Done), w.streams[i]? = some stream →
    stream.endsOnOwnWork = true →
    (admissions (owns i) w.scheduler.history).map Prod.snd <+: stream.pulled.map (submitted i)
  outstanding : ∀ (i : ℕ) (stream : Stream Job C Done), w.streams[i]? = some stream →
    stream.endsOnOwnWork = true → stream.phase = .top →
    stream.outstanding = w.scheduler.work (owns i)
  returned : ∀ (i : ℕ) (stream : Stream Job C Done), w.streams[i]? = some stream →
    stream.endsOnOwnWork = true → stream.finishing = true →
    stream.exhausted = true ∧ stream.sourceStopped = true ∧ stream.carried = none ∧
      w.scheduler.work (owns i) = 0 ∧
      (admissions (owns i) w.scheduler.history).map Prod.snd = stream.pulled.map (submitted i) ∧
      (stream.received.map fun completion => (completion.ticket, completion.context)).Perm
        ((admissions (owns i) w.scheduler.history).map fun admission => (admission.1, admission.2.2))

/-- **Streams are routed** in every state that a pool reaches with no break, no close and no map
stream stopped early. -/
theorem stream_routing {capacity : ℤ} {w₀ w : ExecutionPool Job C Done Fault}
    (h0 : ExecutionPool.open? capacity = some w₀)
    (h : Reach ExecutionPool.step StaysCalm w₀ w) : StreamRouting w := by
  have ht := tagged_of_reach h0 h
  have hr := (routed_of_reach h0 h).2
  have hl := ledger_ok_of_reachable (init_of_open? h0) (scheduler_reachable h0 h)
  have hreceived : ∀ (i : ℕ) (stream : Stream Job C Done), w.streams[i]? = some stream →
      stream.received ⊆ deliveries i w.scheduler.history := by
    intro i stream hi completion hc
    rw [(ht.stream i stream hi).received]
    exact List.mem_append_left _ hc
  have hnodup : ∀ i, ((deliveries i w.scheduler.history).map Completion.ticket).Nodup :=
    fun i => (delivers_nodup hl).sublist (deliveries_sublist i _)
  constructor
  · intro i stream hi completion hc
    have hd := hreceived i stream hi hc
    refine ⟨hl.delivered_origin i completion (mem_deliveries.mp hd), ?_⟩
    have hown := (ht.stream i stream hi).own completion hd
    unfold Stream.ownedBy at hown
    split_ifs at hown ⊢
    · exact context_of_owns hown
    · exact context_of_unowned hown
  · intro driver completion owner context hd hc
    have hi := List.getElem?_eq_getElem (ht.drivers driver completion hd)
    have hown := (ht.stream driver _ hi).own completion (mem_deliveries.mpr hd)
    exact (Stream.owns_of_ownedBy _ hown (by simp [hc, owns])).2
  · intro i stream hi
    have hn := hnodup i
    rw [(ht.stream i stream hi).received, List.map_append] at hn
    exact hn.of_append_left
  · intro i j stream other hi hj hne completion hc completion' hc' hticket
    exact hne (delivered_unique hl (mem_deliveries.mp (hreceived i stream hi hc))
      (mem_deliveries.mp (hreceived j other hj hc')) hticket).1
  · intro i stream hi hk
    rw [(hr.stream i stream hi hk).submitted]
    exact List.prefix_append _ _
  · exact fun i stream hi hk _ => (hr.stream i stream hi hk).outstanding
  · intro i stream hi hk hf
    have hst := hr.stream i stream hi hk
    obtain ⟨hex, hcar, hout⟩ := hst.finished hf
    have hzero : w.scheduler.work (owns i) = 0 := by
      have := hst.outstanding
      omega
    have hsub := hst.submitted
    rw [hcar, Stream.brought_eq_nil (hst.exhausted_idle hex)] at hsub
    have hin : stream.inHand = [] := by
      unfold Stream.finishing at hf
      split at hf <;> simp_all [Stream.inHand]
    have hdel : deliveries i w.scheduler.history = stream.received := by
      rw [(ht.stream i stream hi).received, hin, List.append_nil]
    refine ⟨hex, hst.source (Or.inl hex), hcar, hzero, by simpa using hsub.symm, ?_⟩
    -- Distinct tickets, all of them admitted, and as many as were admitted.
    refine (List.subperm_of_subset ?_ ?_).perm_of_length_le ?_
    · have hn := hnodup i
      rw [hdel] at hn
      exact List.Nodup.of_map Prod.fst (by simpa [List.map_map, Function.comp_def] using hn)
    · intro pair hpair
      obtain ⟨completion, hc, rfl⟩ := List.mem_map.mp hpair
      have hd := hreceived i stream hi hc
      obtain ⟨job, hadm⟩ := (hl.delivered_origin i completion (mem_deliveries.mp hd)).1
      have hown : owns i completion.context = true := by
        simpa [Stream.ownedBy, hk] using (ht.stream i stream hi).own completion hd
      exact List.mem_map.mpr ⟨_, (mem_admissions (owns i)).mpr ⟨hadm, hown⟩, rfl⟩
    · have := hst.balance
      rw [hdel, hzero] at this
      simp only [List.length_map]
      omega

/-- A map stream over one submission, run to its end. -/
def oneMapped : ExecutionPool ℕ ℕ ℕ ℕ where
  scheduler :=
    { capacity := 1
      workers := [0]
      nextTicket := 1
      announced := 4
      threads := [.waiting]
      history := [.admitted 0 7 (.owned 0 9), .called 0 7, .returned 0 5,
        .delivered 0 ⟨0, 5, .owned 0 9⟩] }
  streams :=
    [{ endsOnOwnWork := true
       permits := 1
       exhausted := true
       phase := .ended .returned
       pulled := [⟨7, 9⟩]
       sourceStopped := true
       received := [⟨0, 5, .owned 0 9⟩] }]

theorem oneMapped_routing : StreamRouting oneMapped := by
  have h0 : ExecutionPool.open? 1 =
      some ({ scheduler := { capacity := 1 } } : ExecutionPool ℕ ℕ ℕ ℕ) := by decide
  have hrun : exec (fun action w => if StaysCalm action w then ExecutionPool.step action w else none)
      [[.mapStream none], List.replicate 6 (.drive 0 none),
        [.acquire 0, .answer 0 (.submission ⟨7, 9⟩), .anext 0, .anext 0],
        List.replicate 9 (.drive 0 none), [.takeAdmitted 0, .finish 0 (.ok 5)],
        List.replicate 3 (.drive 0 none), [.acquire 0, .answer 0 .stop, .anext 0],
        List.replicate 10 (.drive 0 none)].flatten
      ({ scheduler := { capacity := 1 } } : ExecutionPool ℕ ℕ ℕ ℕ) = some oneMapped := by
    decide +kernel
  exact stream_routing h0 (.of_exec_checked _ hrun)

end DrExec.Scheduling.Pool
