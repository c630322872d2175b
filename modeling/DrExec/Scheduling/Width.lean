import DrExec.Scheduling.Changes

/-! # The width of a map stream

`map_stream` acquires a permit of its gate before it asks its source, in the task of the pull, and
releases one as it hands a completion to its consumer, where the next pull may have been started
already. `Gated` is the balance of the two that every step of the stream keeps; `mapStream_width` is
what follows for the submissions the stream has taken from its source and not yet answered. -/

namespace DrExec.Scheduling.Pool

open DrExec.Lib.Transition Scheduler ExecutionScheduler

variable {Job C Done Fault : Type}

namespace Stream

variable (stream : Stream Job C Done)

/-- The submissions the stream has pulled, less the completions it has handed over. -/
def inFlight : ℤ := stream.pulled.length - stream.received.length

/-- The source is asked for a submission. -/
def asks : Bool :=
  match stream.sourcePull with
  | some .asking => true
  | _ => false

/-- The permits that the pull in progress holds: it asks the source, or it failed there and the loop
has not seen that yet. -/
def held : ℤ :=
  match stream.sourcePull with
  | some .asking | some (.raised _) | some .cancelled => 1
  | _ => 0

/-- The stream has started to end: its source is over for it, or it left its loop. -/
def endingStarted : Bool :=
  stream.exhausted || match stream.phase with
  | .finalizing _ | .bookkeeping _ | .departing _ | .ended _ => true
  | _ => false

/-- The balance of the gate of a map stream of a given width. -/
structure Gated (width : ℤ) : Prop where
  kind : stream.endsOnOwnWork = true
  emptying : stream.phase = .emptying → stream.exhausted = true
  bounded : stream.permits + stream.inFlight + (if stream.asks then 1 else 0) ≤ width
  balanced : stream.endingStarted = false →
    stream.permits + stream.inFlight + stream.held = width

variable {stream} {width : ℤ}

namespace Gated

/-- A stream that starts to end with its books as they are. -/
theorem ends (h : stream.Gated width) {stream' : Stream Job C Done}
    (hkind : stream'.endsOnOwnWork = stream.endsOnOwnWork)
    (hpermits : stream'.permits = stream.permits) (hflight : stream'.inFlight = stream.inFlight)
    (hasks : stream'.asks = true → stream.asks = true) (hending : stream'.endingStarted = true)
    (hemptying : stream'.phase = .emptying → stream'.exhausted = true) : stream'.Gated width := by
  refine ⟨hkind.trans h.kind, hemptying, ?_, fun hnot => by rw [hending] at hnot; cases hnot⟩
  have hb := h.bounded
  rw [hpermits, hflight]
  split_ifs at hb ⊢ with ha hb'
  · exact hb
  · exact absurd (hasks ha) hb'
  · omega
  · exact hb

/-- A stream that goes on, with the same permits and the same pull. -/
theorem goesOn (h : stream.Gated width) {stream' : Stream Job C Done}
    (hkind : stream'.endsOnOwnWork = stream.endsOnOwnWork)
    (hpermits : stream'.permits = stream.permits) (hflight : stream'.inFlight = stream.inFlight)
    (hpull : stream'.asks = stream.asks ∧ stream'.held = stream.held)
    (hending : stream'.endingStarted = false → stream.endingStarted = false)
    (hemptying : stream'.phase = .emptying → stream'.exhausted = true) : stream'.Gated width := by
  refine ⟨hkind.trans h.kind, hemptying, ?_, fun hnot => ?_⟩
  · rw [hpermits, hflight, hpull.1]
    exact h.bounded
  · rw [hpermits, hflight, hpull.2]
    exact h.balanced (hending hnot)

/-- A stream that only goes to another phase of its loop. -/
theorem phase (h : stream.Gated width) {phase : Phase C Done} (hphase : phase ≠ .emptying)
    (hin : stream.endingStarted = true →
      ({ stream with phase := phase } : Stream Job C Done).endingStarted = true) :
    ({ stream with phase := phase } : Stream Job C Done).Gated width := by
  refine h.goesOn rfl rfl rfl ⟨rfl, rfl⟩ (fun hnot => ?_) fun hp => absurd hp hphase
  by_contra hstarted
  rw [Bool.not_eq_false] at hstarted
  rw [hin hstarted] at hnot
  cases hnot

theorem enterFinally (h : stream.Gated width) (ending : Ending) :
    (stream.enterFinally ending).Gated width := by
  obtain ⟨next, he, hnext, -⟩ := stream.enterFinally_eq ending
  rw [he]
  refine h.ends rfl rfl rfl (fun ha => ha) ?_ ?_
  · rcases hnext with rfl | rfl | rfl | rfl <;> simp [endingStarted]
  · rcases hnext with rfl | rfl | rfl | rfl <;> nofun

/-- A cancelled pull is dropped by a stream that takes no more from its source. -/
theorem emptyPull (h : stream.Gated width) (hexhausted : stream.exhausted = true) :
    stream.emptyPull.Gated width := by
  obtain ⟨pull, next, he, hpull, -⟩ := stream.emptyPull_eq
  rw [he]
  refine h.ends rfl rfl rfl (fun ha => ?_) (by simp [endingStarted, hexhausted])
    fun _ => hexhausted
  rcases hpull with rfl | rfl
  · simp [asks] at ha
  · exact ha

/-- A pull is started where there is none. -/
theorem startPull (h : stream.Gated width) (hnone : stream.sourcePull = none) :
    stream.startPull.Gated width := by
  refine h.goesOn rfl rfl rfl ⟨?_, ?_⟩ (fun hnot => hnot) h.emptying
  · simp [asks, Stream.startPull, hnone, h.kind]
  · simp [held, Stream.startPull, hnone, h.kind]

theorem mayPull (h : stream.Gated width) (canAdmit : Bool) :
    (if stream.mayPull canAdmit then stream.startPull else stream).Gated width := by
  split_ifs with hmay
  · simp only [Stream.mayPull, Bool.and_eq_true, Option.isNone_iff_eq_none] at hmay
    exact h.startPull hmay.1.2
  · exact h

/-- The task of the pull is done. -/
theorem pullDone {pull : Pull Job C}
    (h : ({ stream with sourcePull := some pull } : Stream Job C Done).Gated width) :
    (stream.pullDone pull).Gated width := by
  unfold Stream.pullDone
  dsimp only
  split
  · next hp => exact h.emptyPull (h.emptying hp)
  · next ending hp => exact h.enterFinally ending
  · exact h

/-- **The source answers**, or the pull is cancelled as it waits for a permit. -/
theorem answer (h : stream.Gated width) (owner : ℕ) (answer : Answer Job C)
    (hpull : stream.sourcePull = some .asking ∨ stream.sourcePull = some .acquiring ∧
      stream.cancelling = true ∧ answer = .cancelled) :
    (stream.answer owner answer).Gated width := by
  -- A pull that failed keeps its permit; only a stream that ends cancels one that has none.
  have hfailed : ∀ pull : Pull Job C, (∃ broken, pull = .raised broken) ∨ pull = .cancelled →
      ({ stream with sourcePull := some pull } : Stream Job C Done).Gated width := by
    intro pull hfail
    have hasks : ({ stream with sourcePull := some pull } : Stream Job C Done).asks = false := by
      rcases hfail with ⟨broken, rfl⟩ | rfl <;> rfl
    rcases hpull with hasking | ⟨hacquiring, hcancelling, -⟩
    · have hb := h.bounded
      refine ⟨h.kind, h.emptying, ?_, fun hnot => ?_⟩
      · simp only [asks, hasking, if_true] at hb
        rw [hasks]
        simp only [inFlight, Bool.false_eq_true, if_false] at hb ⊢
        omega
      · have hbalanced := h.balanced hnot
        simp only [held, hasking] at hbalanced
        rcases hfail with ⟨broken, rfl⟩ | rfl <;> exact hbalanced
    · refine h.ends rfl rfl rfl (fun ha => by rw [hasks] at ha; cases ha) ?_ h.emptying
      unfold cancelling at hcancelling
      split at hcancelling
      · next hp => simp [endingStarted, h.emptying hp]
      · next ending hp => simp [endingStarted, hp]
      · cases hcancelling
  rcases hpull with hasking | ⟨hacquiring, -, rfl⟩
  · have hbounded := h.bounded
    simp only [asks, hasking, if_true] at hbounded
    have hbalanced := h.balanced
    simp only [held, hasking] at hbalanced
    cases answer with
    | submission submission =>
      refine pullDone (?_ : ({ stream with
          pulled := stream.pulled ++ [submission]
          sourcePull := some (.done (some ⟨submission.job, stream.tag owner submission.context⟩)) } :
            Stream Job C Done).Gated width)
      refine ⟨h.kind, h.emptying, ?_, fun hnot => ?_⟩
      · simp only [inFlight, asks, List.length_append, List.length_singleton, Bool.false_eq_true,
          if_false] at hbounded ⊢
        omega
      · have hbalanced := hbalanced hnot
        simp only [inFlight, held, List.length_append, List.length_singleton] at hbalanced ⊢
        omega
    | stop =>
      refine pullDone (?_ : ({ stream with
          permits := if stream.endsOnOwnWork then stream.permits + 1 else stream.permits
          sourceStopped := true
          sourcePull := some (.done none) } : Stream Job C Done).Gated width)
      refine ⟨h.kind, h.emptying, ?_, fun hnot => ?_⟩
      · simp only [inFlight, asks, h.kind, if_true, Bool.false_eq_true, if_false] at hbounded ⊢
        omega
      · have hbalanced := hbalanced hnot
        simp only [inFlight, held, h.kind, if_true] at hbalanced ⊢
        omega
    | raised broken => exact .pullDone (hfailed (.raised broken) (.inl ⟨broken, rfl⟩))
    | cancelled => exact .pullDone (hfailed .cancelled (.inr rfl))
  · exact .pullDone (hfailed .cancelled (.inr rfl))

/-- A permit is acquired for the pull. -/
theorem acquires (h : stream.Gated width) (hpull : stream.sourcePull = some .acquiring)
    (hpermit : 0 < stream.permits) :
    ({ stream with permits := stream.permits - 1, sourcePull := some .asking } :
      Stream Job C Done).Gated width := by
  have hbounded := h.bounded
  simp only [asks, hpull, Bool.false_eq_true, if_false] at hbounded
  refine ⟨h.kind, h.emptying, ?_, fun hnot => ?_⟩
  · simp only [inFlight, asks, if_true] at hbounded ⊢
    omega
  · have hbalanced := h.balanced hnot
    simp only [inFlight, held, hpull] at hbalanced ⊢
    omega

/-- **A completion is handed over**: the permit of its submission is released. -/
theorem yieldTaken (h : stream.Gated width) (canAdmit : Bool)
    {completion : Completion (Context C) Done} (hp : stream.phase = .took completion) :
    (stream.yieldTaken canAdmit completion).Gated width := by
  have hnext := h.mayPull canAdmit
  have hphase : (if stream.mayPull canAdmit then stream.startPull else stream).phase =
      .took completion := by
    split_ifs
    · exact hp
    · exact hp
  unfold Stream.yieldTaken
  dsimp only
  generalize (if stream.mayPull canAdmit then stream.startPull else stream) = next at hnext hphase
  have hbounded := hnext.bounded
  refine ⟨hnext.kind, nofun, ?_, fun hnot => ?_⟩
  · simp only [inFlight, hnext.kind, if_true, List.length_append,
      List.length_singleton] at hbounded ⊢
    change _ + (if next.asks = true then (1 : ℤ) else 0) ≤ width
    generalize (if next.asks = true then (1 : ℤ) else 0) = asking at hbounded ⊢
    omega
  · have hbalanced := hnext.balanced (by
      simpa [endingStarted, hphase] using hnot)
    simp only [inFlight, held, hnext.kind, if_true, List.length_append,
      List.length_singleton] at hbalanced ⊢
    omega

/-- A finished pull is read. -/
theorem collectPull (h : stream.Gated width) (hp : stream.phase = .collect)
    (state : ExecutionPoolState) : (stream.collectPull state).Gated width := by
  unfold Stream.collectPull
  split
  · next hpull =>
    exact h.ends rfl rfl rfl (fun ha => by simp [asks] at ha) (by simp [endingStarted]) nofun
  · next submission hpull =>
    refine h.goesOn rfl rfl rfl ⟨by simp [asks, hpull], by simp [held, hpull]⟩ ?_ nofun
    intro hnot
    simpa [endingStarted, hp] using hnot
  · exact h.enterFinally .raised
  · exact h.enterFinally .raised
  · exact h.phase nofun (by simp [endingStarted, hp])

end Gated

end Stream

/-! ### The width in every run -/

theorem Local.gated {w : ExecutionPool Job C Done Fault} {i : ℕ} {stream stream' : Stream Job C Done}
    (hlocal : Local w i stream stream') {width : ℤ} (h : stream.Gated width) :
    stream'.Gated width := by
  cases hlocal with
  | loopHead hp =>
    unfold Stream.loopHead
    dsimp only
    split_ifs
    · refine Stream.Gated.emptyPull ?_ rfl
      exact h.ends rfl rfl rfl (fun ha => ha) (by simp [Stream.endingStarted]) fun _ => rfl
    · exact h.goesOn rfl rfl rfl ⟨rfl, rfl⟩
        (fun hnot => by simpa [Stream.endingStarted, hp] using hnot) (fun h => by cases h)
  | yieldTaken completion hp => exact h.yieldTaken _ hp
  | ends hp => exact h.enterFinally .returned
  | goesOn hp | carriesNothing hp => exact h.phase (fun h => by cases h) (by simp [Stream.endingStarted, hp])
  | collect hp => exact h.collectPull hp w.state
  | park hp =>
    unfold Stream.park
    dsimp only
    refine (h.mayPull _).phase (fun h => by cases h) ?_
    split_ifs <;> simp [Stream.endingStarted, Stream.startPull, hp]
  | resumes hp =>
    refine h.phase (fun h => by cases h) ?_
    rcases hp with hp | hp <;> simp [Stream.endingStarted, hp]
  | settles cancelled hp => exact h.phase (fun h => by cases h) (by simp [Stream.endingStarted, hp])
  | cancelled hp => exact h.enterFinally .raised
  | finalized hp => exact h.enterFinally .closed
  | acquires hpull hpermit => exact h.acquires hpull hpermit
  | answered answer hpull => exact h.answer i answer hpull

/-- **A step of the stream keeps the balance of its gate.** -/
theorem Change.gated {w : ExecutionPool Job C Done Fault} {i : ℕ} {stream stream' : Stream Job C Done}
    (hchange : Change w i stream stream') {width : ℤ} (h : stream.Gated width) :
    stream'.Gated width := by
  cases hchange with
  | moves stream' hlocal => exact hlocal.gated h
  | brokeOff hp => exact h.enterFinally .raised
  | took completion hp | admitted submission hp hc =>
    exact h.goesOn rfl rfl rfl ⟨rfl, rfl⟩
      (fun hnot => by simpa [Stream.endingStarted, hp] using hnot) nofun
  | refused submission hp hc =>
    exact h.ends rfl rfl rfl (fun ha => ha) (by simp [Stream.endingStarted]) nofun
  | foundNone hp hbroken hready | noRoom submission hp hc hopen hfull =>
    exact h.phase nofun (by simp [Stream.endingStarted, hp])
  | keepsBooks ending hp =>
    refine h.phase (by split_ifs <;> nofun) fun _ => ?_
    split_ifs <;> simp [Stream.endingStarted]
  | departs phase hphase =>
    rcases hphase with ⟨hp, rfl⟩ | ⟨ending, hp, rfl⟩ <;>
      exact h.phase nofun (by simp [Stream.endingStarted, hp])

/-- A map stream of width `width` takes no more from its source than it may. -/
structure Stream.KeepsWidth (width : ℤ) (stream : Stream Job C Done) : Prop where
  inFlight_le : stream.inFlight ≤ width
  inFlight_lt : stream.asks = true → stream.inFlight < width
  balance : stream.endingStarted = false → stream.permits + stream.inFlight + stream.held = width

theorem Stream.Gated.keepsWidth {stream : Stream Job C Done} {width : ℤ} (h : stream.Gated width) :
    stream.KeepsWidth width := by
  have hbounded := h.bounded
  refine ⟨?_, fun ha => ?_, h.balanced⟩
  · split_ifs at hbounded <;> omega
  · rw [if_pos ha] at hbounded
    omega

/-- A map stream starts with all its permits. -/
theorem gated_opened (width : ℕ) :
    ({ endsOnOwnWork := true, permits := width } : Stream Job C Done).Gated width :=
  ⟨rfl, nofun, by simp [Stream.inFlight, Stream.asks], fun _ => by
    simp [Stream.inFlight, Stream.held]⟩

/-- **The width of a map stream.** Whatever its source, its width, the capacity and the schedule: in
every state after it opened, the submissions it has pulled less the completions it has handed over
are no more than its width, and fewer while its source is asked for one; and until it starts to end,
these, the permits of its gate and the permit its pull holds make up the width. -/
theorem mapStream_width {capacity : ℤ} {w₀ w w' u : ExecutionPool Job C Done Fault}
    (h0 : ExecutionPool.open? capacity = some w₀) (hw : Reachable ExecutionPool.step w₀ w)
    (concurrency : Option ℤ) (hopen : ExecutionPool.step (.mapStream concurrency) w = some w')
    (h : Reachable ExecutionPool.step w' u) :
    ∃ stream, u.streams[w.streams.length]? = some stream ∧
      stream.KeepsWidth (concurrency.getD capacity) := by
  have hcapacity : w.scheduler.capacity = capacity :=
    capacity_of_reachable (init_of_open? h0) (scheduler_reachable h0 hw)
  simp only [ExecutionPool.step, ExecutionPool.loopStep, hcapacity] at h hopen
  split_ifs at hopen with hfree hrun
  cases hopen
  have hwidth : ((concurrency.getD capacity).toNat : ℤ) = concurrency.getD capacity :=
    Int.toNat_of_nonneg (by omega)
  have hlt : w.streams.length <
      (w.openStream true (concurrency.getD capacity).toNat).streams.length := by
    simp [ExecutionPool.openStream]
  obtain ⟨hu, hgated⟩ := stream_of_reach 
    (P := fun stream => stream.Gated (concurrency.getD capacity)) hlt
    (fun stream hi => by
      rcases getElem?_openStream hi with hi | ⟨-, rfl⟩
      · have := (List.getElem?_eq_some_iff.mp hi).1
        omega
      · have hopened : Stream.Gated
            ({ endsOnOwnWork := true, permits := (concurrency.getD capacity).toNat } :
              Stream Job C Done) _ :=
          gated_opened (concurrency.getD capacity).toNat
        rwa [hwidth] at hopened)
    (fun stream hs => hs.goesOn rfl rfl rfl ⟨rfl, rfl⟩ (fun hnot => hnot) hs.emptying)
    (fun v stream stream' hchange hs => hchange.gated hs) h
  exact ⟨_, List.getElem?_eq_getElem hu, (hgated _ (List.getElem?_eq_getElem hu)).keepsWidth⟩

/-- A map stream of width 1 in a pool of capacity 2, whose job runs: the next pull waits for a
permit. -/
def narrow : ExecutionPool ℕ ℕ ℕ ℕ where
  scheduler :=
    { capacity := 2
      tokens := [(0, ⟨0⟩)]
      workers := [0]
      nextTicket := 1
      residents := 1
      running := 1
      announced := 1
      threads := [.calling ⟨0, 7, .owned 0 9, ⟨0⟩⟩]
      history := [.admitted 0 7 (.owned 0 9), .called 0 7] }
  activeStreams := 1
  registered := [0]
  streams :=
    [{ endsOnOwnWork := true
       permits := 0
       sourcePull := some .acquiring
       outstanding := 1
       phase := .parked
       pulled := [⟨7, 9⟩] }]

theorem narrow_keepsWidth :
    ∃ stream, narrow.streams[0]? = some stream ∧ stream.inFlight = 1 ∧ stream.KeepsWidth 1 := by
  have hrun : exec ExecutionPool.step
      [List.replicate 6 (.drive 0 none), [.acquire 0, .answer 0 (.submission ⟨7, 9⟩), .anext 0, .anext 0],
        List.replicate 15 (.drive 0 none), [.takeAdmitted 0]].flatten
      (ExecutionPool.openStream ({ scheduler := { capacity := 2 } } : ExecutionPool ℕ ℕ ℕ ℕ) true 1) =
        some narrow := by
    decide +kernel
  have h0 : ExecutionPool.open? 2 =
      some ({ scheduler := { capacity := 2 } } : ExecutionPool ℕ ℕ ℕ ℕ) := rfl
  obtain ⟨stream, hi, hkeeps⟩ := mapStream_width (u := narrow) h0 .refl (some 1) rfl
    (.of_exec _ (fun _ _ => trivial) hrun)
  cases hi
  exact ⟨_, rfl, rfl, hkeeps⟩

end DrExec.Scheduling.Pool
