import DrExec.Scheduling.PoolBreaking

/-! # The books of the streams

A stream enters itself in `_stream_wakeups` and `_active_streams` as it starts, and its `finally`
block takes it out again, unless the pull it awaits there raises: then the rest of the block is
skipped, and the stream stays in the books for good (`Books`). `balanced_iff` is exactly when the
books count the streams that are running and no others, with what follows for a pool that is closed.
-/

namespace DrExec.Scheduling.Scheduler.ExecutionScheduler

variable {Job Ctx Done Fault : Type} {s s' : ExecutionScheduler Job Ctx Done Fault}
  {action : Action Job Ctx Done Fault}

/-! ### A scheduler that is shut down -/

/-- No job is queued or running, no job starts, and no break comes. -/
structure Shut (s s' : ExecutionScheduler Job Ctx Done Fault) : Prop where
  pending : s'.pending = []
  calls : s'.calls = []
  broken : s'.broken = s.broken
  started : ∀ t job, .called t job ∈ s'.history → .called t job ∈ s.history

theorem Shut.of_eq (h : s.Shut s) (hp : s'.pending = s.pending) (ht : s'.threads = s.threads)
    (hb : s'.broken = s.broken)
    (hh : ∃ events, s'.history = s.history ++ events ∧ ∀ t job, .called t job ∉ events) :
    s.Shut s' := by
  obtain ⟨events, hh, hnone⟩ := hh
  refine ⟨hp.trans h.pending, by rw [ExecutionScheduler.calls, ht]; exact h.calls, hb, ?_⟩
  intro t job hmem
  rw [hh, List.mem_append] at hmem
  exact hmem.resolve_right (hnone t job)

theorem shut_self (hok : s.WorkersOk) (hs : s.shutdownReturned = true) : s.Shut s :=
  ⟨hok.pending_eq_nil (hok.shut hs).2, WorkersOk.calls_eq_nil (hok.shut hs).2, rfl, fun _ _ h => h⟩

/-- **A section after `shutdown` has returned.** -/
theorem shut_step (hok : s.WorkersOk) (hs : s.shutdownReturned = true)
    (h : step action s = some s') : s.Shut s' := by
  obtain ⟨hclosed, hdead⟩ := hok.shut hs
  have hself := shut_self hok hs
  have hevents : ∀ {events : List (Event Job Ctx Done)}, (∀ t job, .called t job ∉ events) →
      ∃ events', s.history ++ events = s.history ++ events' ∧ ∀ t job, .called t job ∉ events' :=
    fun h => ⟨_, rfl, h⟩
  cases outcome_of_step h with
  | unchanged => exact hself
  | admitJob job context start hopen => rw [hclosed] at hopen; cases hopen
  | takes worker hw => exact absurd ⟨_, hw, by simp⟩ (hdead worker)
  | finishes worker admitted result hw => exact absurd ⟨_, hw, by simp⟩ (hdead worker)
  | taken driver ownedBy =>
    rcases s.takeCompletionNowait_cases ownedBy with ⟨completion, l₁, l₂, -, -, -, he⟩ | ⟨-, he⟩
    · rw [he]
      exact hself.of_eq rfl rfl rfl ⟨[.delivered driver completion], rfl, by simp⟩
    · rw [he]
      unfold noneUnlessBroken
      cases s.broken <;> exact hself
  | released ownedBy =>
    rw [releaseOwned_eq]
    exact hself.of_eq rfl rfl rfl (hevents (by simp))
  | shutdownEnd call joining =>
    unfold shutdownEnd dropCompletions announceChange
    dsimp only
    split_ifs
    · exact hself.of_eq hself.pending.symm rfl rfl ⟨[], (List.append_nil _).symm, by simp⟩
    · exact hself.of_eq hself.pending.symm rfl rfl (hevents (by simp))
  | discarded => exact hself.of_eq rfl rfl rfl (hevents (by simp))
  | cancelled | closed | shutdownBegin =>
    exact hself.of_eq rfl rfl rfl ⟨[], (List.append_nil _).symm, by simp⟩

end DrExec.Scheduling.Scheduler.ExecutionScheduler

namespace DrExec.Scheduling.Pool

open DrExec.Lib.Transition DrExec.Lib.Lists Scheduler ExecutionScheduler

variable {Job C Done Fault : Type} {w w' : ExecutionPool Job C Done Fault}

/-! ### The flags of the close task -/

/-- The flags that the close task sets are set when it has finished. -/
structure Flagged (w : ExecutionPool Job C Done Fault) : Prop where
  closed : w.closed = true ↔ w.closing = .finished
  complete : w.shutdownComplete = true ↔ w.closing = .finished

/-- Only the close task sets its flags. -/
theorem flagged_step (h : Flagged w) (heff : Effect w w') : Flagged w' := by
  have hput : ∀ {v : ExecutionPool Job C Done Fault}, v.closed = w.closed →
      v.shutdownComplete = w.shutdownComplete → v.closing = w.closing → Flagged v := by
    intro v hc hs hk
    exact ⟨by rw [hc, hk]; exact h.closed, by rw [hs, hk]; exact h.complete⟩
  cases heff with
  | takes i stream =>
    unfold ExecutionPool.driveTake
    dsimp only
    split <;> exact hput rfl rfl rfl
  | admits i stream submission start _ _ hc =>
    obtain ⟨stream', he, -⟩ := driveAdmit_cases w i hc start
    rw [he]
    exact hput rfl rfl rfl
  | keepsBooks i stream ending =>
    unfold ExecutionPool.driveBookkeeping
    dsimp only
    split_ifs <;> exact hput rfl rfl rfl
  | departs i stream phase =>
    unfold ExecutionPool.releaseOwned
    split_ifs <;> exact hput rfl rfl rfl
  | closes hopen =>
    have hnot : w.closing ≠ .finished := by simp [hopen]
    exact ⟨iff_of_false (fun hc => hnot (h.closed.mp hc)) nofun,
      iff_of_false (fun hc => hnot (h.complete.mp hc)) nofun⟩
  | shutsDown hq =>
    have hnot : w.closing ≠ .finished := by simp [hq]
    exact ⟨iff_of_false (fun hc => hnot (h.closed.mp hc)) nofun,
      iff_of_false (fun hc => hnot (h.complete.mp hc)) nofun⟩
  | joins scheduler hj =>
    have hnot : w.closing ≠ .finished := by simp [hj]
    exact ⟨iff_of_false (fun hc => hnot (h.closed.mp hc)) nofun,
      iff_of_false (fun hc => hnot (h.complete.mp hc)) nofun⟩
  | finishes =>
    unfold ExecutionPool.finishClose
    dsimp only
    split_ifs <;> exact ⟨iff_of_true rfl rfl, iff_of_true rfl rfl⟩
  | unchanged | worker | opened | moves | breaks | wakes | cancels => exact hput rfl rfl rfl

theorem flagged_of_reach {ok : PoolAction Job C Done Fault → ExecutionPool Job C Done Fault → Prop}
    {capacity : ℤ} {w₀ : ExecutionPool Job C Done Fault}
    (h0 : ExecutionPool.open? capacity = some w₀) (h : Reach ExecutionPool.step ok w₀ w) :
    Flagged w := by
  refine h.invariant ?_ fun u a v _ hu _ hs => flagged_step hu (effect_of_step hs)
  obtain ⟨scheduler, -, rfl⟩ := open?_eq h0
  constructor <;> simp

/-! ### Streams in the books -/

namespace Stream

variable (stream : Stream Job C Done)

/-- The source of the stream raised: its last pull ended with that. -/
def sourceRaised : Bool :=
  match stream.sourcePull with
  | some (.raised _) => true
  | _ => false

/-- There is no pull to wait for, and none that raised. -/
def quiet : Bool :=
  match stream.sourcePull with
  | none | some (.done _) | some .cancelled => true
  | _ => false

/-- The stream is in the books: it is running, or it ended with what its source raised. -/
def booked : Bool := stream.phase.active || stream.sourceRaised

/-- A stream comes to its bookkeeping without a pull that raised, and is over without a pull to wait
for. -/
structure Filed : Prop where
  bookkeeping : ∀ ending, stream.phase = .bookkeeping ending → stream.quiet = true
  settled : stream.phase.active = false → stream.quiet = true ∨ stream.sourceRaised = true

variable {stream}

theorem booked_of_active (h : stream.phase.active = true) : stream.booked = true := by
  simp [booked, h]

theorem not_sourceRaised_of_quiet (h : stream.quiet = true) : stream.sourceRaised = false := by
  unfold quiet at h
  unfold sourceRaised
  split at h <;> simp_all

/-- A stream within its loop. -/
theorem Filed.of_active (ha : stream.phase.active = true)
    (hb : ∀ ending, stream.phase ≠ .bookkeeping ending) : stream.Filed :=
  ⟨fun ending h => absurd h (hb ending), fun h => by rw [ha] at h; cases h⟩

/-- The `finally` block skips the bookkeeping of a stream only for what its source raised. -/
theorem filed_enterFinally (ending : Ending) :
    (stream.enterFinally ending).Filed ∧ (stream.enterFinally ending).booked = true := by
  unfold enterFinally leaveFinally
  split
  case h_1 hpull | h_2 hpull | h_3 hpull =>
    refine ⟨⟨fun _ _ => ?_, nofun⟩, rfl⟩
    simp [quiet, hpull]
  case h_4 hpull =>
    refine ⟨⟨fun _ h => ?_, fun _ => .inr (by simp [sourceRaised, hpull])⟩,
      by simp [booked, sourceRaised, hpull]⟩
    dsimp only at h
    split_ifs at h
  case h_5 hpull | h_6 hpull => exact ⟨.of_active rfl nofun, rfl⟩

theorem filed_emptyPull : stream.emptyPull.Filed ∧ stream.emptyPull.booked = true := by
  unfold emptyPull
  split
  case h_4 => exact filed_enterFinally .raised
  all_goals exact ⟨.of_active rfl nofun, rfl⟩

theorem filed_pullDone (pull : Pull Job C) (ha : stream.phase.active = true)
    (hb : ∀ ending, stream.phase ≠ .bookkeeping ending) :
    (stream.pullDone pull).Filed ∧ (stream.pullDone pull).booked = true := by
  unfold pullDone
  dsimp only
  split
  · exact filed_emptyPull
  · exact filed_enterFinally _
  · exact ⟨.of_active ha hb, booked_of_active ha⟩

end Stream

/-- **A stream's own step** starts with a stream that is running and leaves it in the books. -/
theorem Local.filed {i : ℕ} {stream stream' : Stream Job C Done} (h : Local w i stream stream')
    (hf : stream.Filed) :
    stream'.Filed ∧ stream.phase.active = true ∧ stream'.booked = true := by
  -- A stream with a pull to wait for is running, and not at its bookkeeping.
  have hpulling : stream.sourcePull = some .asking ∨ stream.sourcePull = some .acquiring →
      stream.phase.active = true ∧ ∀ ending, stream.phase ≠ .bookkeeping ending := by
    intro hpull
    have hquiet : stream.quiet = false ∧ stream.sourceRaised = false := by
      rcases hpull with hpull | hpull <;> simp [Stream.quiet, Stream.sourceRaised, hpull]
    refine ⟨?_, fun ending hp => ?_⟩
    · by_contra hover
      rw [Bool.not_eq_true] at hover
      have := hf.settled hover
      simp [hquiet] at this
    · have := hf.bookkeeping ending hp
      rw [hquiet.1] at this
      cases this
  cases h with
  | loopHead hp =>
    refine (and_assoc.mp ⟨And.intro ?_ (by simp [hp, Phase.active]), ?_⟩)
    all_goals
      unfold Stream.loopHead
      dsimp only
      split_ifs
    · exact Stream.filed_emptyPull.1
    · exact .of_active rfl (fun _ h => by cases h)
    · exact Stream.filed_emptyPull.2
    · rfl
  | yieldTaken completion hp =>
    have hactive : (stream.yieldTaken w.scheduler.canAdmit completion).phase = .yielded := rfl
    exact ⟨.of_active (by rw [hactive]; rfl) (by rw [hactive]; intro _ h; cases h), by simp [hp, Phase.active],
      Stream.booked_of_active (by rw [hactive]; rfl)⟩
  | ends hp =>
    exact ⟨(Stream.filed_enterFinally _).1, by simp [hp, Phase.active],
      (Stream.filed_enterFinally _).2⟩
  | goesOn hp | carriesNothing hp =>
    exact ⟨.of_active rfl (fun _ h => by cases h), by simp [hp, Phase.active], rfl⟩
  | collect hp =>
    refine (and_left_comm.mp ⟨by simp [hp, Phase.active], ?_⟩)
    unfold Stream.collectPull
    split
    case h_3 | h_4 => exact Stream.filed_enterFinally _
    all_goals exact ⟨.of_active rfl (fun _ h => by cases h), rfl⟩
  | park hp =>
    have hactive : (stream.park w.scheduler.canAdmit).phase = .parked := rfl
    exact ⟨.of_active (by rw [hactive]; rfl) (by rw [hactive]; intro _ h; cases h), by simp [hp, Phase.active],
      Stream.booked_of_active (by rw [hactive]; rfl)⟩
  | resumes hp =>
    exact ⟨.of_active rfl (fun _ h => by cases h), by rcases hp with hp | hp <;> simp [hp, Phase.active], rfl⟩
  | settles cancelled hp => exact ⟨.of_active rfl (fun _ h => by cases h), by simp [hp, Phase.active], rfl⟩
  | cancelled hp | finalized hp =>
    exact ⟨(Stream.filed_enterFinally _).1, by simp [hp, Phase.active],
      (Stream.filed_enterFinally _).2⟩
  | acquires hpull =>
    obtain ⟨ha, hb⟩ := hpulling (.inr hpull)
    exact ⟨.of_active ha hb, ha, Stream.booked_of_active ha⟩
  | answered answer hpull =>
    obtain ⟨ha, hb⟩ := hpulling (hpull.imp_right And.left)
    refine (and_left_comm.mp ⟨ha, ?_⟩)
    cases answer <;> exact Stream.filed_pullDone _ ha hb

/-! ### The books of a pool -/

/-- How many streams are in the books. -/
def ExecutionPool.bookedStreams (w : ExecutionPool Job C Done Fault) : ℕ :=
  (w.streams.map fun stream => stream.booked.toNat).sum

/-- **The books of a pool**: `_active_streams` and `_stream_wakeups` are those of the streams that
are in them. -/
structure Books (w : ExecutionPool Job C Done Fault) : Prop where
  filed : ∀ (i : ℕ) (stream : Stream Job C Done), w.streams[i]? = some stream → stream.Filed
  counted : w.activeStreams = w.bookedStreams
  registered : ∀ i, i ∈ w.registered ↔
    ∃ stream, w.streams[i]? = some stream ∧ stream.booked = true

namespace Books

/-- The streams stay in the books as they are, up to their wakeups. -/
theorem congr (h : Books w)
    (hstreams : ∀ (j : ℕ) (stream' : Stream Job C Done), w'.streams[j]? = some stream' →
      ∃ stream, w.streams[j]? = some stream ∧ stream'.phase = stream.phase ∧
        stream'.sourcePull = stream.sourcePull)
    (hlen : w'.streams.length = w.streams.length) (hactive : w'.activeStreams = w.activeStreams)
    (hregistered : w'.registered = w.registered) : Books w' := by
  have hbooked : ∀ {stream stream' : Stream Job C Done}, stream'.phase = stream.phase →
      stream'.sourcePull = stream.sourcePull → stream'.booked = stream.booked := by
    intro stream stream' hphase hpull
    simp only [Stream.booked, Stream.sourceRaised, hphase, hpull]
  have hat : ∀ j : ℕ, (w'.streams[j]?).map Stream.booked = (w.streams[j]?).map Stream.booked := by
    intro j
    rcases hj : w'.streams[j]? with _ | stream'
    · rw [List.getElem?_eq_none (by rw [← hlen]; exact List.getElem?_eq_none_iff.mp hj)]
    · obtain ⟨stream, hst, hphase, hpull⟩ := hstreams j stream' hj
      rw [hst, Option.map_some, Option.map_some, hbooked hphase hpull]
  refine ⟨fun j stream' hj => ?_, ?_, fun j => ?_⟩
  · obtain ⟨stream, hst, hphase, hpull⟩ := hstreams j stream' hj
    have hf := h.filed j stream hst
    exact ⟨fun ending hp => by
        simpa only [Stream.quiet, hpull] using hf.bookkeeping ending (hphase ▸ hp),
      fun hp => by
        simpa only [Stream.quiet, Stream.sourceRaised, hpull] using hf.settled (hphase ▸ hp)⟩
  · have hsame : w'.streams.map Stream.booked = w.streams.map Stream.booked :=
      List.ext_getElem? fun j => by rw [List.getElem?_map, List.getElem?_map, hat]
    have hsum : ∀ v : ExecutionPool Job C Done Fault,
        v.bookedStreams = ((v.streams.map Stream.booked).map Bool.toNat).sum := fun v => by
      rw [List.map_map]
      rfl
    rw [hactive, h.counted, hsum, hsum, hsame]
  · have hsome : ∀ v : ExecutionPool Job C Done Fault,
        (∃ stream, v.streams[j]? = some stream ∧ stream.booked = true) ↔
          (v.streams[j]?).map Stream.booked = some true := fun v => by
      rw [Option.map_eq_some_iff]
    rw [hregistered, h.registered, hsome, hsome, hat]

/-- One stream moves, in the books before and after. -/
theorem put (h : Books w) {i : ℕ} {stream stream' : Stream Job C Done}
    (hi : w.streams[i]? = some stream) (hstreams : w'.streams = w.streams)
    (hactive : w'.activeStreams = w.activeStreams) (hregistered : w'.registered = w.registered)
    (hf : stream'.Filed) (hbooked : stream'.booked = stream.booked) : Books (w'.put i stream') := by
  have hlt := (List.getElem?_eq_some_iff.mp hi).1
  refine ⟨?_, ?_, fun j => ?_⟩
  · exact forall_put hf fun j other hj _ => h.filed j other (hstreams ▸ hj)
  · have hput := sum_map_set (fun stream => stream.booked.toNat) w'.streams i stream' stream
      (hstreams ▸ hi)
    have hsum : (w'.put i stream').bookedStreams = w.bookedStreams := by
      unfold ExecutionPool.bookedStreams ExecutionPool.put
      dsimp only at hput ⊢
      rw [hbooked, hstreams] at hput
      rw [hstreams]
      omega
    rw [hsum, ← h.counted, ← hactive]
    rfl
  · rw [show (w'.put i stream').registered = w.registered from hregistered, h.registered]
    by_cases hj : j = i
    · subst hj
      obtain ⟨_, hget⟩ := List.getElem?_eq_some_iff.mp hi
      simp [ExecutionPool.put, hstreams, hlt, hget, hbooked]
    · simp [ExecutionPool.put, hstreams, Ne.symm hj]

/-- A stream that is running moves, and is in the books after. -/
theorem moves (h : Books w) {i : ℕ} {stream stream' : Stream Job C Done}
    (hi : w.streams[i]? = some stream) (hstreams : w'.streams = w.streams)
    (hactive : w'.activeStreams = w.activeStreams) (hregistered : w'.registered = w.registered)
    (ha : stream.phase.active = true) (hf : stream'.Filed ∧ stream'.booked = true) :
    Books (w'.put i stream') :=
  h.put hi hstreams hactive hregistered hf.1 (hf.2.trans (Stream.booked_of_active ha).symm)

theorem opens (h : Books w) (endsOnOwnWork : Bool) (width : ℕ) :
    Books (w.openStream endsOnOwnWork width) := by
  refine ⟨fun j stream hj => ?_, ?_, fun j => ?_⟩
  · rcases getElem?_openStream hj with hj | ⟨-, rfl⟩
    · exact h.filed j stream hj
    · exact .of_active rfl nofun
  · have hcount := h.counted
    have hone : (w.openStream endsOnOwnWork width).bookedStreams = w.bookedStreams + 1 := by
      simp only [ExecutionPool.openStream, ExecutionPool.bookedStreams, List.map_append,
        List.sum_append]
      rfl
    rw [hone, Nat.cast_add, ← hcount]
    rfl
  · simp only [ExecutionPool.openStream, List.mem_append, List.mem_singleton, h.registered,
      List.getElem?_append]
    constructor
    · rintro (⟨stream, hj, hb⟩ | rfl)
      · have hlt := (List.getElem?_eq_some_iff.mp hj).1
        exact ⟨stream, by rw [if_pos hlt]; exact hj, hb⟩
      · exact ⟨{ endsOnOwnWork := endsOnOwnWork, permits := width }, by simp, rfl⟩
    · rintro ⟨stream, hj, hb⟩
      split_ifs at hj with hlt
      · exact .inl ⟨stream, hj, hb⟩
      · have := (List.getElem?_eq_some_iff.mp hj).1
        rw [List.length_singleton] at this
        exact .inr (by omega)

/-- A stream at its bookkeeping leaves the books. -/
theorem leaves (h : Books w) {i : ℕ} {stream : Stream Job C Done} {ending : Ending}
    (hi : w.streams[i]? = some stream) (hp : stream.phase = .bookkeeping ending) :
    Books (w.driveBookkeeping i stream ending) := by
  have hlt := (List.getElem?_eq_some_iff.mp hi).1
  have hquiet := (h.filed i stream hi).bookkeeping ending hp
  have hbooked : stream.booked = true := Stream.booked_of_active (by simp [hp, Phase.active])
  obtain ⟨phase, hphase, hactive⟩ : ∃ phase : Phase C Done,
      (if ending = .closed then .ended .closed else .departing ending) = phase ∧
        phase.active = false := ⟨_, rfl, by split_ifs <;> rfl⟩
  have hout : ({ stream with phase := phase } : Stream Job C Done).booked = false := by
    rw [Stream.booked, hactive]
    exact Stream.not_sourceRaised_of_quiet hquiet
  obtain ⟨scheduler, he⟩ : ∃ scheduler, w.driveBookkeeping i stream ending =
      { w with
        scheduler := scheduler
        registered := w.registered.filter fun j => j ≠ i
        activeStreams := w.activeStreams - 1 }.put i { stream with phase := phase } := by
    unfold ExecutionPool.driveBookkeeping
    dsimp only
    rw [hphase]
    split_ifs <;> exact ⟨_, rfl⟩
  rw [he]
  refine ⟨?_, ?_, fun j => ?_⟩
  · refine forall_put ⟨fun other hother => ?_, fun _ => .inl hquiet⟩ fun j other hj _ =>
      h.filed j other hj
    rw [show phase = .bookkeeping other from hother] at hactive
    cases hactive
  · have hput := sum_map_set (fun stream => stream.booked.toNat) w.streams i
      { stream with phase := phase } stream hi
    have hcount := h.counted
    rw [hbooked, hout] at hput
    simp only [ExecutionPool.bookedStreams, ExecutionPool.put, Bool.toNat_true,
      Bool.toNat_false] at hput hcount ⊢
    omega
  · simp only [ExecutionPool.put, List.mem_filter, h.registered, decide_eq_true_eq]
    by_cases hj : j = i
    · subst hj
      simp [hlt, hout]
    · simp [hj, Ne.symm hj]

/-- **One step of a pool.** -/
theorem step (h : Books w) (heff : Effect w w') : Books w' := by
  have hsame : ∀ {v : ExecutionPool Job C Done Fault}, v.streams = w.streams →
      ∀ (j : ℕ) (stream' : Stream Job C Done), v.streams[j]? = some stream' →
        ∃ stream, w.streams[j]? = some stream ∧ stream'.phase = stream.phase ∧
          stream'.sourcePull = stream.sourcePull :=
    fun he j stream' hj => ⟨stream', he ▸ hj, rfl, rfl⟩
  have hwoken : ∀ {v : ExecutionPool Job C Done Fault}, v.streams = w.wakeAll.streams →
      ∀ (j : ℕ) (stream' : Stream Job C Done), v.streams[j]? = some stream' →
        ∃ stream, w.streams[j]? = some stream ∧ stream'.phase = stream.phase ∧
          stream'.sourcePull = stream.sourcePull := by
    intro v he j stream' hj
    obtain ⟨stream, wakeup, hst, rfl⟩ := keeps_wakeAll (he ▸ hj)
    exact ⟨stream, hst, rfl, rfl⟩
  cases heff with
  | unchanged => exact h
  | opened endsOnOwnWork width => exact h.opens endsOnOwnWork width
  | moves i stream stream' hi hlocal =>
    obtain ⟨hf, ha, hb⟩ := hlocal.filed (h.filed i stream hi)
    exact h.moves hi rfl rfl rfl ha ⟨hf, hb⟩
  | breaks i stream hi hp =>
    exact h.moves hi rfl rfl rfl (by simp [hp, Phase.active]) (Stream.filed_enterFinally _)
  | takes i stream hi hp =>
    have ha : stream.phase.active = true := by simp [hp, Phase.active]
    rcases driveTake_cases w i stream with ⟨completion, scheduler, -, he⟩ | he | ⟨-, state, he⟩
    · rw [he]
      exact h.moves hi rfl rfl rfl ha ⟨.of_active rfl (fun _ h => by cases h), rfl⟩
    · rw [he]
      exact h.moves hi rfl rfl rfl ha ⟨.of_active rfl (fun _ h => by cases h), rfl⟩
    · rw [he]
      exact h.moves hi rfl rfl rfl ha (Stream.filed_enterFinally _)
  | admits i stream submission start hi hp hc =>
    obtain ⟨stream', he, hcases⟩ := driveAdmit_cases w i hc start
    rw [he]
    refine h.moves hi rfl rfl rfl (by simp [hp, Phase.active]) ?_
    rcases hcases with ⟨-, rfl⟩ | ⟨-, rfl⟩ | ⟨-, rfl⟩ <;> exact ⟨.of_active rfl (fun _ h => by cases h), rfl⟩
  | keepsBooks i stream ending hi hp => exact h.leaves hi hp
  | departs i stream phase hi hphase =>
    have hrelease : ∃ scheduler, w.releaseOwned i stream = { w with scheduler := scheduler } := by
      unfold ExecutionPool.releaseOwned
      split_ifs <;> exact ⟨_, rfl⟩
    obtain ⟨scheduler, he⟩ := hrelease
    rw [he]
    have hf := h.filed i stream hi
    rcases hphase with ⟨hp, rfl⟩ | ⟨ending, hp, rfl⟩
    · exact h.moves hi rfl rfl rfl (by simp [hp, Phase.active]) ⟨.of_active rfl (fun _ h => by cases h), rfl⟩
    · have hover : stream.phase.active = false := by simp [hp, Phase.active]
      refine h.put hi rfl rfl rfl ⟨(fun _ h => by cases h), fun _ => hf.settled hover⟩ ?_
      rw [Stream.booked, Stream.booked, hover]
      rfl
  | wakes => exact h.congr (hwoken rfl) (length_wakeAll w) rfl rfl
  | closes => exact h.congr (hwoken rfl) (length_wakeAll w) rfl rfl
  | finishes =>
    have hfields : w.finishClose.streams = w.wakeAll.streams ∧
        w.finishClose.activeStreams = w.activeStreams ∧
          w.finishClose.registered = w.registered := by
      unfold ExecutionPool.finishClose ExecutionPool.wakeAll
      dsimp only
      split_ifs <;> exact ⟨rfl, rfl, rfl⟩
    refine h.congr (hwoken hfields.1) ?_ hfields.2.1 hfields.2.2
    rw [hfields.1]
    exact length_wakeAll w
  | worker | cancels | shutsDown | joins => exact h.congr (hsame rfl) rfl rfl rfl

end Books

theorem books_of_reach {ok : PoolAction Job C Done Fault → ExecutionPool Job C Done Fault → Prop}
    {capacity : ℤ} {w₀ : ExecutionPool Job C Done Fault}
    (h0 : ExecutionPool.open? capacity = some w₀) (h : Reach ExecutionPool.step ok w₀ w) :
    Books w := by
  refine h.invariant ?_ fun u a v _ hu _ hs => hu.step (effect_of_step hs)
  obtain ⟨scheduler, -, rfl⟩ := open?_eq h0
  exact ⟨by simp, rfl, by simp⟩

/-! ### What a closed pool holds -/

/-- A closed pool with no stream in its books holds no completion and counts no resident. -/
def Emptied (w : ExecutionPool Job C Done Fault) : Prop :=
  w.closing = .finished → w.activeStreams = 0 →
    w.scheduler.ready = [] ∧ w.scheduler.residents = 0

/-- The last stream that leaves the books, or the close task where there is none, discards what is
left; nothing is added afterwards. -/
theorem Emptied.step (h : Emptied w) (hclosing : ClosingOk w) (hflags : Flagged w)
    (halarm : Alarmed w) (hok : w.scheduler.WorkersOk) (heff : Effect w w') : Emptied w' := by
  intro hfinished hzero
  have hshut : w.closing = .finished → w.scheduler.intakeClosed = true ∧
      ∀ i, ¬ w.scheduler.Alive i := fun hf => hok.shut (hclosing.shut (.inr hf))
  cases heff with
  | unchanged => exact h hfinished hzero
  | worker action scheduler ha hs =>
    have hdead := (hshut hfinished).2
    rcases ha with ⟨worker, rfl⟩ | ⟨worker, result, rfl⟩
    · simp only [ExecutionScheduler.step] at hs
      split at hs
      · next hw => exact absurd ⟨_, hw, by simp⟩ (hdead worker)
      · cases hs
    · simp only [ExecutionScheduler.step] at hs
      split at hs
      · next admitted hw => exact absurd ⟨_, hw, by simp⟩ (hdead worker)
      · cases hs
  | opened endsOnOwnWork width hrun =>
    have hopen : w.closing = .finished := hfinished
    exact absurd hrun (halarm.stopped (by simp [hopen]))
  | takes i stream hi hp =>
    rcases driveTake_cases w i stream with ⟨completion, scheduler, ht, he⟩ | he | ⟨-, state, he⟩
    · rw [he] at hfinished hzero
      have hempty := (h hfinished hzero).1
      simp only [takeCompletionNowait, hempty, noneUnlessBroken] at ht
      split at ht <;> cases ht
    · rw [he] at hfinished hzero ⊢
      exact h hfinished hzero
    · rw [he] at hfinished hzero ⊢
      exact h hfinished hzero
  | admits i stream submission start hi hp hc =>
    obtain ⟨stream', he, -⟩ := driveAdmit_cases w i hc start
    rw [he] at hfinished hzero ⊢
    have hclosed := (hshut hfinished).1
    show (w.scheduler.admitJob submission.job submission.context start).2.ready = [] ∧
      (w.scheduler.admitJob submission.job submission.context start).2.residents = 0
    rw [admitJob, if_pos hclosed]
    exact h hfinished hzero
  | keepsBooks i stream ending =>
    unfold ExecutionPool.driveBookkeeping at hfinished hzero ⊢
    dsimp only at hfinished hzero ⊢
    by_cases hlast : w.activeStreams - 1 = 0 ∧ w.shutdownComplete = true
    · rw [if_pos hlast]
      exact ⟨rfl, rfl⟩
    · rw [if_neg hlast] at hfinished hzero
      exact absurd ⟨hzero, hflags.complete.mpr hfinished⟩ hlast
  | departs i stream phase =>
    unfold ExecutionPool.releaseOwned at hfinished hzero ⊢
    split_ifs at hfinished hzero ⊢ with hkind
    · obtain ⟨hready, hresidents⟩ := h hfinished hzero
      show (w.scheduler.releaseOwned (owns i)).ready = [] ∧
        (w.scheduler.releaseOwned (owns i)).residents = 0
      rw [releaseOwned_eq]
      simp [hready, hresidents]
    · exact h hfinished hzero
  | cancels =>
    obtain ⟨hready, hresidents⟩ := h hfinished hzero
    show w.scheduler.cancelAll.ready = [] ∧ w.scheduler.cancelAll.residents = 0
    rw [cancelAll, cancelTokens_eq]
    exact ⟨hready, hresidents⟩
  | finishes =>
    unfold ExecutionPool.finishClose ExecutionPool.wakeAll at hzero ⊢
    dsimp only at hzero ⊢
    by_cases hnone : w.activeStreams = 0
    · rw [if_pos hnone]
      exact ⟨rfl, rfl⟩
    · rw [if_neg hnone] at hzero
      exact absurd hzero hnone
  | closes | shutsDown | joins => cases hfinished
  | moves | breaks | wakes => exact h hfinished hzero

theorem emptied_of_reach {capacity : ℤ} {w₀ : ExecutionPool Job C Done Fault}
    (h0 : ExecutionPool.open? capacity = some w₀) (h : Reachable ExecutionPool.step w₀ w) :
    Emptied w := by
  refine h.invariant ?_ fun u a v hr hu _ hs => ?_
  · obtain ⟨scheduler, -, rfl⟩ := open?_eq h0
    exact nofun
  · exact hu.step (closingOk_of_reach h0 hr) (flagged_of_reach h0 hr) (alarmed_of_reach h0 hr)
      (workersOk_of_reachable (init_of_open? h0) (scheduler_reachable h0 hr)) (effect_of_step hs)

/-! ### Balanced books -/

/-- The books count the streams that are running and no others; a closed pool in which none is
running holds nothing. -/
structure Balanced (w : ExecutionPool Job C Done Fault) : Prop where
  active : w.activeStreams = w.busy
  wakeups : ∀ i, i ∈ w.registered ↔
    ∃ stream, w.streams[i]? = some stream ∧ stream.phase.active = true
  emptied : w.closed = true → w.busy = 0 →
    w.scheduler.ready = [] ∧ w.scheduler.hasResidents = false

/-- What is in the books beside the streams that are running. -/
theorem bookedStreams_eq_busy (h : ∀ stream ∈ w.streams, stream.phase.active = false →
    stream.sourceRaised = false) : w.bookedStreams = w.busy := by
  unfold ExecutionPool.bookedStreams ExecutionPool.busy
  congr 1
  refine List.map_congr_left fun stream hmem => ?_
  cases ha : stream.phase.active with
  | true => simp [Stream.booked, ha]
  | false => simp [Stream.booked, ha, h stream hmem ha]

/-! ### A source that raises -/

namespace Stream

variable {stream : Stream Job C Done}

@[simp] theorem sourceRaised_enterFinally (ending : Ending) :
    (stream.enterFinally ending).sourceRaised = stream.sourceRaised := by
  obtain ⟨phase, he, -⟩ := stream.enterFinally_eq ending
  rw [he]
  rfl

theorem sourceRaised_emptyPull (h : stream.sourceRaised = false) :
    stream.emptyPull.sourceRaised = false := by
  obtain ⟨pull, phase, he, rfl | rfl, -⟩ := stream.emptyPull_eq
  · rw [he]
    rfl
  · rw [he]
    exact h

@[simp] theorem sourceRaised_startPull : stream.startPull.sourceRaised = false := by
  unfold startPull sourceRaised
  dsimp only
  split_ifs <;> rfl

/-- A new pull is started where there is none, or there is no change. -/
theorem sourceRaised_mayPull (canAdmit : Bool) (h : stream.sourceRaised = false) :
    (if stream.mayPull canAdmit then stream.startPull else stream).sourceRaised = false := by
  split_ifs
  · exact sourceRaised_startPull
  · exact h

theorem sourceRaised_pullDone {pull : Pull Job C} (hpull : ∀ broken, pull ≠ .raised broken) :
    (stream.pullDone pull).sourceRaised = false := by
  have hread : ({ stream with sourcePull := some pull } : Stream Job C Done).sourceRaised =
      false := by
    cases pull <;> simp_all [sourceRaised]
  unfold pullDone
  dsimp only
  split
  · exact sourceRaised_emptyPull hread
  · rw [sourceRaised_enterFinally]
    exact hread
  · exact hread

theorem sourceRaised_answer (owner : ℕ) {answer : Answer Job C}
    (h : ∀ broken, answer ≠ .raised broken) :
    (stream.answer owner answer).sourceRaised = false := by
  cases answer with
  | raised broken => exact absurd rfl (h broken)
  | submission | stop | cancelled => exact sourceRaised_pullDone fun _ h => by cases h

theorem sourceRaised_loopHead (state : ExecutionPoolState) (h : stream.sourceRaised = false) :
    (stream.loopHead state).sourceRaised = false := by
  unfold loopHead
  dsimp only
  split_ifs
  · exact sourceRaised_emptyPull h
  · exact h

theorem sourceRaised_collectPull (state : ExecutionPoolState) (h : stream.sourceRaised = false) :
    (stream.collectPull state).sourceRaised = false := by
  unfold collectPull
  split
  · rfl
  · rfl
  · rw [sourceRaised_enterFinally]
    exact h
  · rw [sourceRaised_enterFinally]
    exact h
  · exact h

end Stream

/-- A source raises. -/
def PoolAction.raises : PoolAction Job C Done Fault → Bool
  | .answer _ (.raised _) => true
  | _ => false

/-- No source has raised. -/
def Unraised (w : ExecutionPool Job C Done Fault) : Prop :=
  ∀ (i : ℕ) (stream : Stream Job C Done), w.streams[i]? = some stream → stream.sourceRaised = false

/-- The source of stream `i` has not raised. -/
def UnraisedAt (i : ℕ) (w : ExecutionPool Job C Done Fault) : Prop :=
  ∀ stream, w.streams[i]? = some stream → stream.sourceRaised = false

namespace UnraisedAt

variable {i : ℕ}

theorem put (h : UnraisedAt i w) {j : ℕ} {stream : Stream Job C Done}
    (hstreams : w'.streams = w.streams) (hstream : j = i → stream.sourceRaised = false) :
    UnraisedAt i (w'.put j stream) := by
  intro other hi
  simp only [ExecutionPool.put, hstreams, List.getElem?_set] at hi
  split_ifs at hi with hji
  · cases hi
    exact hstream hji
  · exact h other hi

theorem wakeAll (h : UnraisedAt i w) (hstreams : w'.streams = w.wakeAll.streams) :
    UnraisedAt i w' := by
  intro stream hi
  obtain ⟨old, wakeup, hold, rfl⟩ := keeps_wakeAll (hstreams ▸ hi)
  exact h old hold

theorem openStream (h : UnraisedAt i w) (endsOnOwnWork : Bool) (width : ℕ) :
    UnraisedAt i (w.openStream endsOnOwnWork width) := by
  intro stream hi
  rcases getElem?_openStream hi with hi | ⟨-, rfl⟩
  · exact h stream hi
  · rfl

theorem releaseOwned (h : UnraisedAt i w) {j : ℕ} {stream : Stream Job C Done}
    (phase : Phase C Done) (hj : w.streams[j]? = some stream) :
    UnraisedAt i ((w.releaseOwned j stream).put j { stream with phase := phase }) := by
  refine h.put ?_ fun hji => h stream (hji ▸ hj)
  unfold ExecutionPool.releaseOwned
  split_ifs <;> rfl

/-- A coroutine that runs reads what its pull brought, and brings nothing itself. -/
theorem drive (h : UnraisedAt i w) {j : ℕ} {stream : Stream Job C Done} {start : Option Fault}
    (hj : w.streams[j]? = some stream) (hd : w.drive j stream start = some w') :
    UnraisedAt i w' := by
  have hst : j = i → stream.sourceRaised = false := fun hji => h stream (hji ▸ hj)
  unfold ExecutionPool.drive at hd
  split at hd
  case h_1 => cases hd; exact h.put rfl fun hji => Stream.sourceRaised_loopHead _ (hst hji)
  case h_2 =>
    cases hd
    rcases driveTake_cases w j stream with ⟨completion, scheduler, -, he⟩ | he | ⟨-, state, he⟩
    · rw [he]
      exact h.put rfl hst
    · rw [he]
      exact h.put rfl hst
    · rw [he]
      exact h.put rfl fun hji => (Stream.sourceRaised_enterFinally _).trans (hst hji)
  case h_3 => cases hd; exact h.put rfl fun hji => Stream.sourceRaised_mayPull _ (hst hji)
  case h_4 =>
    cases hd
    refine h.put rfl fun hji => ?_
    split_ifs
    · exact (Stream.sourceRaised_enterFinally _).trans (hst hji)
    · exact hst hji
  case h_5 =>
    cases hd
    cases hc : stream.carried with
    | none =>
      unfold ExecutionPool.driveAdmit
      rw [hc]
      exact h.put rfl hst
    | some submission =>
      obtain ⟨stream', he, hcases⟩ := driveAdmit_cases w j hc start
      rw [he]
      refine h.put rfl ?_
      rcases hcases with ⟨-, rfl⟩ | ⟨-, rfl⟩ | ⟨-, rfl⟩ <;> exact hst
  case h_6 => cases hd; exact h.put rfl fun hji => Stream.sourceRaised_collectPull _ (hst hji)
  case h_7 => cases hd; exact h.put rfl fun hji => Stream.sourceRaised_mayPull _ (hst hji)
  case h_8 =>
    cases hd
    unfold ExecutionPool.driveBookkeeping
    dsimp only
    split_ifs <;> exact h.put rfl hst
  case h_9 => cases hd; exact h.releaseOwned _ hj
  case h_10 => cases hd

/-- A task of the event loop, in which this source does not raise. -/
theorem loopStep {action : PoolAction Job C Done Fault} (h : UnraisedAt i w)
    (hraised : ∀ broken, action ≠ .answer i (.raised broken)) (hs : w.loopStep action = some w') :
    UnraisedAt i w' := by
  cases action <;> simp only [ExecutionPool.loopStep, ExecutionPool.onStream,
    Option.bind_eq_some_iff, reduceCtorEq] at hs
  case runStream | mapStream => split_ifs at hs; cases hs; exact h.openStream _ _
  case anext j =>
    obtain ⟨stream, hj, hs⟩ := hs
    have hst : j = i → stream.sourceRaised = false := fun hji => h stream (hji ▸ hj)
    split at hs
    · cases hs; exact h.put rfl hst
    · split_ifs at hs
      cases hs
      exact h.put rfl hst
    · cases hs; exact h.put rfl hst
    · cases hs; exact h.put rfl fun hji => (Stream.sourceRaised_enterFinally _).trans (hst hji)
    · cases hs
  case aclose j =>
    obtain ⟨stream, hj, hs⟩ := hs
    split at hs <;> cases hs
    exact h.releaseOwned _ hj
  case finalize j =>
    obtain ⟨stream, hj, hs⟩ := hs
    split at hs <;> cases hs
    exact h.put rfl fun hji => (Stream.sourceRaised_enterFinally _).trans (h stream (hji ▸ hj))
  case cancel j =>
    obtain ⟨stream, hj, hs⟩ := hs
    split at hs <;> cases hs
    · exact h.put rfl fun hji => h stream (hji ▸ hj)
    · exact h
    · exact h
    · exact h
  case acquire j =>
    obtain ⟨stream, hj, hs⟩ := hs
    split at hs
    · split_ifs at hs
      cases hs
      exact h.put rfl fun _ => rfl
    · cases hs
  case answer j answer =>
    have hanswer : j = i → ∀ broken, answer ≠ .raised broken := by
      rintro rfl broken rfl
      exact hraised broken rfl
    obtain ⟨stream, hj, hs⟩ := hs
    split at hs
    · cases hs
      exact h.put rfl fun hji => Stream.sourceRaised_answer j (hanswer hji)
    · split_ifs at hs
      cases hs
      exact h.put rfl fun hji => Stream.sourceRaised_answer j (hanswer hji)
    · cases hs
  case wakeStreams => split_ifs at hs; cases hs; exact h.wakeAll rfl
  case drain => split_ifs at hs; cases hs; exact h.wakeAll rfl
  case cancelAll => split_ifs at hs; cases hs; exact h
  case closed =>
    split_ifs at hs
    cases hs
    refine h.wakeAll ?_
    unfold ExecutionPool.finishClose ExecutionPool.wakeAll
    dsimp only
    split_ifs <;> rfl

/-- **One step**, in which this source does not raise. -/
theorem step {action : PoolAction Job C Done Fault} (h : UnraisedAt i w)
    (hraised : ∀ broken, action ≠ .answer i (.raised broken)) (hs : ExecutionPool.step action w = some w') :
    UnraisedAt i w' := by
  have hsame : ∀ {v : ExecutionPool Job C Done Fault}, v.streams = w.streams → UnraisedAt i v :=
    fun he stream hi => h stream (he ▸ hi)
  unfold ExecutionPool.step at hs
  split at hs
  case h_1 | h_2 =>
    obtain ⟨scheduler, -, rfl⟩ := Option.map_eq_some_iff.mp hs
    exact hsame rfl
  case h_3 => split_ifs at hs; cases hs; exact hsame rfl
  case h_4 =>
    split_ifs at hs
    obtain ⟨scheduler, -, rfl⟩ := Option.map_eq_some_iff.mp hs
    exact hsame rfl
  case h_5 j start =>
    split_ifs at hs
    obtain ⟨stream, hj, hd⟩ := Option.bind_eq_some_iff.mp hs
    exact h.drive hj hd
  case h_6 =>
    split_ifs at hs
    exact h.loopStep hraised hs

end UnraisedAt

/-- **One step**, in which no source raises. -/
theorem Unraised.step {action : PoolAction Job C Done Fault} (h : Unraised w)
    (hraised : action.raises = false) (hs : ExecutionPool.step action w = some w') :
    Unraised w' :=
  fun i => UnraisedAt.step (h i) (by rintro broken rfl; cases hraised) hs

/-- **A pull that raised** is there only if a source raised. -/
theorem unraised_of_reach {capacity : ℤ} {w₀ : ExecutionPool Job C Done Fault}
    (h0 : ExecutionPool.open? capacity = some w₀)
    (h : Reach ExecutionPool.step (fun action _ => action.raises = false) w₀ w) :
    Unraised w := by
  refine h.invariant ?_ fun u a v _ hu hok hs => hu.step hok hs
  obtain ⟨scheduler, -, rfl⟩ := open?_eq h0
  intro i stream hi
  cases hi

/-- **When the books balance**: in every state a pool reaches, they do exactly when no stream has
ended whose source raised; so they do in every state of a run in which no source raises. -/
theorem balanced_iff {capacity : ℤ} {w₀ : ExecutionPool Job C Done Fault}
    (h0 : ExecutionPool.open? capacity = some w₀) :
    (∀ w, Reachable ExecutionPool.step w₀ w →
      (Balanced w ↔ ∀ stream ∈ w.streams, stream.phase.active = false →
        stream.sourceRaised = false)) ∧
      ∀ w, Reach ExecutionPool.step (fun action _ => action.raises = false) w₀ w →
        Balanced w := by
  have hiff : ∀ w, Reachable ExecutionPool.step w₀ w →
      (Balanced w ↔ ∀ stream ∈ w.streams, stream.phase.active = false →
        stream.sourceRaised = false) := by
    intro w h
    have hbooks := books_of_reach h0 h
    constructor
    · intro hbalanced stream hmem hover
      obtain ⟨i, hi⟩ := List.mem_iff_getElem?.mp hmem
      by_contra hraised
      rw [Bool.not_eq_false] at hraised
      obtain ⟨other, hother, hactive⟩ := (hbalanced.wakeups i).mp
        ((hbooks.registered i).mpr ⟨stream, hi, by simp [Stream.booked, hraised]⟩)
      rw [hi] at hother
      cases hother
      rw [hover] at hactive
      cases hactive
    · intro hraised
      have hcount : w.activeStreams = w.busy := by
        rw [hbooks.counted, bookedStreams_eq_busy hraised]
      refine ⟨hcount, fun i => ?_, fun hclosed hbusy => ?_⟩
      · rw [hbooks.registered]
        refine exists_congr fun stream => and_congr_right fun hi => ?_
        cases ha : stream.phase.active with
        | true => simp [Stream.booked, ha]
        | false => simp [Stream.booked, ha, hraised stream (List.mem_of_getElem? hi) ha]
      · obtain ⟨hready, hresidents⟩ := emptied_of_reach h0 h
          ((flagged_of_reach h0 h).closed.mp hclosed) (by rw [hcount, hbusy]; rfl)
        exact ⟨hready, by simp [hasResidents, hresidents]⟩
  exact ⟨hiff, fun w h => (hiff w (h.mono fun _ _ _ => trivial)).mpr fun stream hmem _ =>
    (List.mem_iff_getElem?.mp hmem).elim fun i hi => unraised_of_reach h0 h i stream hi⟩

/-- A pool whose stream ended with the exception of its source. -/
def raisedPool : ExecutionPool ℕ ℕ ℕ ℕ where
  scheduler := { capacity := 1 }
  activeStreams := 1
  registered := [0]
  streams :=
    [{ endsOnOwnWork := false
       permits := 0
       sourcePull := some (.raised false)
       phase := .ended .raised }]

/-- **A source that raises leaves its stream in the books.** -/
theorem raised_unbalanced :
    ∃ w₀ : ExecutionPool ℕ ℕ ℕ ℕ, ExecutionPool.open? 1 = some w₀ ∧
      Reachable ExecutionPool.step w₀ raisedPool ∧
      raisedPool.streams.map Stream.phase = [.ended .raised] ∧ raisedPool.activeStreams = 1 ∧
      ¬ Balanced raisedPool := by
  refine ⟨{ scheduler := { capacity := 1 } }, rfl, .of_exec [[.runStream],
    List.replicate 6 (.drive 0 none), [.answer 0 (.raised false), .anext 0, .anext 0],
    List.replicate 6 (.drive 0 none)].flatten (fun _ _ => trivial) rfl, rfl, rfl, fun h => ?_⟩
  exact absurd h.active (by decide)

/-- A pool whose stream ended with its source. -/
def endedPool : ExecutionPool ℕ ℕ ℕ ℕ where
  scheduler := { capacity := 1 }
  streams :=
    [{ endsOnOwnWork := false
       permits := 0
       exhausted := true
       sourceStopped := true
       phase := .ended .returned }]

/-- The books of a pool whose stream has ended. -/
theorem endedPool_balanced :
    ∃ w₀ : ExecutionPool ℕ ℕ ℕ ℕ, ExecutionPool.open? 1 = some w₀ ∧ Balanced endedPool := by
  have h0 : ExecutionPool.open? 1 =
      some ({ scheduler := { capacity := 1 } } : ExecutionPool ℕ ℕ ℕ ℕ) := rfl
  exact ⟨_, h0, (balanced_iff h0).2 endedPool (.of_exec_checked [[.runStream],
    List.replicate 6 (.drive 0 none), [.answer 0 .stop, .anext 0, .anext 0],
    List.replicate 10 (.drive 0 none)].flatten (by decide +kernel))⟩

end DrExec.Scheduling.Pool
