import DrExec.Scheduling.Wakeups

/-! # The cancellation of a consumer

A consumer that is cancelled while it waits inside a stream is thrown `CancelledError` at the
`await` it is at. At `asyncio.wait` the exception goes on through the `finally` blocks. Every other
`await` of `_drive_stream` waits for a task the stream has just cancelled, under a `suppress` of
`CancelledError`, and takes the consumer's cancellation for the end of that task. `WatchedPool` is a
pool with what its consumers asked for; `interruption_kept_iff` says which steps keep every
cancellation on its way out. -/

namespace DrExec.Scheduling.Pool

open DrExec.Lib.Transition Scheduler ExecutionScheduler

variable {Job C Done Fault : Type}

/-- An exception is on its way out of the stream, or has left it. -/
def Phase.leaving : Phase C Done → Bool
  | settling true | finalizing .raised | bookkeeping .raised | departing .raised | ended .raised => true
  | _ => false

/-- The task of the consumer is suspended inside the stream. With a pull that is done, `changed` is
still to be awaited after `asyncio.wait`; a stream that was closed is finalized by a task of its
own. -/
def Stream.awaited (stream : Stream Job C Done) : Bool :=
  match stream.phase with
  | .parked | .emptying | .settling true => true
  | .settling false => stream.pullFinished
  | .finalizing .returned | .finalizing .raised => true
  | _ => false

/-- The stream is in `asyncio.wait`. -/
def Stream.waits (stream : Stream Job C Done) : Bool := stream.phase matches .parked

/-- A pool, the streams whose consumer was cancelled as it waited inside them, and those of them in
which `CancelledError` was raised out of `asyncio.wait`. -/
structure WatchedPool (Job C Done Fault : Type) where
  pool : ExecutionPool Job C Done Fault
  requested : List ℕ := []
  thrown : List ℕ := []
  deriving DecidableEq, Repr

namespace WatchedPool

variable (w : WatchedPool Job C Done Fault)

/-- What a step of the pool asks of its streams. -/
def note (pool : ExecutionPool Job C Done Fault) :
    PoolAction Job C Done Fault → WatchedPool Job C Done Fault
  | .cancel i =>
    { pool := pool
      requested := if (w.pool.streams[i]?).any Stream.awaited then w.requested ++ [i] else w.requested
      thrown := if (w.pool.streams[i]?).any Stream.waits then w.thrown ++ [i] else w.thrown }
  | _ => { w with pool := pool }

def step (action : PoolAction Job C Done Fault) (w : WatchedPool Job C Done Fault) :
    Option (WatchedPool Job C Done Fault) :=
  (ExecutionPool.step action w.pool).map fun pool => w.note pool action

/-- The step keeps cancellations on their way: a consumer is cancelled in `asyncio.wait` while its
source has not raised, or once a `CancelledError` is on its way out of its stream, and no source
raises into a stream that a `CancelledError` is on its way out of. -/
def clean : PoolAction Job C Done Fault → WatchedPool Job C Done Fault → Bool
  | .cancel i, w => (w.pool.streams[i]?).all fun stream =>
      !stream.awaited || i ∈ w.thrown || stream.waits && !stream.sourceRaised
  | .answer i (.raised _), w => i ∉ w.thrown
  | _, _ => true

/-- `CancelledError` is on its way out of stream `i`, or has left it: it was raised there, and no
exception of the source came in its place. -/
structure Propagates (i : ℕ) : Prop where
  thrown : i ∈ w.thrown
  leaving : ∃ stream, w.pool.streams[i]? = some stream ∧ stream.phase.leaving = true ∧
    stream.sourceRaised = false

/-- No stream has swallowed the cancellation of its consumer. -/
def Unswallowed : Prop := ∀ i ∈ w.requested, w.Propagates i

end WatchedPool

/-! ### A stream that an exception leaves -/

theorem leaving_enterFinally (stream : Stream Job C Done) :
    (stream.enterFinally .raised).phase.leaving = true := by
  unfold Stream.enterFinally Stream.leaveFinally
  split <;> rfl

theorem leaving_pullDone {stream : Stream Job C Done} (h : stream.phase.leaving = true)
    (pull : Pull Job C) : (stream.pullDone pull).phase.leaving = true := by
  unfold Stream.pullDone
  dsimp only
  split
  · next hp => simp [hp, Phase.leaving] at h
  · next ending hp =>
    cases ending with
    | raised => exact leaving_enterFinally _
    | returned | closed => simp [hp, Phase.leaving] at h
  · exact h

/-- **A stream that an exception leaves goes on leaving.** -/
theorem Change.leaving {w : ExecutionPool Job C Done Fault} {i : ℕ}
    {stream stream' : Stream Job C Done} (hchange : Change w i stream stream')
    (h : stream.phase.leaving = true) : stream'.phase.leaving = true := by
  cases hchange with
  | moves stream' hlocal =>
    cases hlocal with
    | cancelled hp => exact leaving_enterFinally stream
    | acquires hpull => exact h
    | answered answer => cases answer <;> exact leaving_pullDone (by exact h) _
    | resumes hp => rcases hp with hp | hp <;> simp [hp, Phase.leaving] at h
    | loopHead hp | yieldTaken _ hp | ends hp | goesOn hp | carriesNothing hp | collect hp | park hp
      | settles _ hp | finalized hp => simp [hp, Phase.leaving] at h
  | keepsBooks ending hp =>
    cases ending with
    | raised => rfl
    | returned | closed => simp [hp, Phase.leaving] at h
  | departs phase hphase =>
    rcases hphase with ⟨hp, -⟩ | ⟨ending, hp, rfl⟩
    · simp [hp, Phase.leaving] at h
    · cases ending with
      | raised => rfl
      | returned | closed => simp [hp, Phase.leaving] at h
  | took _ hp | foundNone hp | brokeOff hp | admitted _ hp | refused _ hp | noRoom _ hp =>
    simp [hp, Phase.leaving] at h

theorem leaving_of_step {w w' : ExecutionPool Job C Done Fault} {action : PoolAction Job C Done Fault}
    (hs : ExecutionPool.step action w = some w') {i : ℕ} {stream : Stream Job C Done}
    (hi : w.streams[i]? = some stream) (h : stream.phase.leaving = true) :
    ∃ stream', w'.streams[i]? = some stream' ∧ stream'.phase.leaving = true := by
  have hlt := (List.getElem?_eq_some_iff.mp hi).1.trans_le (length_step (effect_of_step hs))
  refine ⟨_, List.getElem?_eq_getElem hlt, ?_⟩
  rcases change_of_effect (effect_of_step hs) (List.getElem?_eq_getElem hlt) with
    ⟨old, hold, he | he | hchange⟩ | ⟨hnew, -⟩
  · rw [hi] at hold
    cases hold
    rw [he]
    exact h
  · rw [hi] at hold
    cases hold
    rw [he]
    exact h
  · rw [hi] at hold
    cases hold
    exact hchange.leaving h
  · have := (List.getElem?_eq_some_iff.mp hi).1
    omega

/-! ### Which steps keep a cancellation -/

namespace WatchedPool

variable {w w' : WatchedPool Job C Done Fault} {action : PoolAction Job C Done Fault} {i : ℕ}

theorem step_eq (hs : step action w = some w') :
    ∃ pool, ExecutionPool.step action w.pool = some pool ∧ w' = w.note pool action := by
  obtain ⟨pool, hpool, rfl⟩ := Option.map_eq_some_iff.mp hs
  exact ⟨pool, hpool, rfl⟩

@[simp] theorem pool_note (pool : ExecutionPool Job C Done Fault) :
    (w.note pool action).pool = pool := by
  cases action <;> rfl

theorem thrown_note (pool : ExecutionPool Job C Done Fault) (hi : i ∈ w.thrown) :
    i ∈ (w.note pool action).thrown := by
  cases action with
  | cancel j =>
    unfold note
    dsimp only
    split_ifs
    · exact List.mem_append_left _ hi
    · exact hi
  | _ => exact hi

theorem requested_note (pool : ExecutionPool Job C Done Fault) (hi : i ∈ w.requested) :
    i ∈ (w.note pool action).requested := by
  cases action with
  | cancel j =>
    unfold note
    dsimp only
    split_ifs
    · exact List.mem_append_left _ hi
    · exact hi
  | _ => exact hi

/-- An exception on its way out goes on its way, unless the source raises another. -/
theorem Propagates.step (h : w.Propagates i) (hs : step action w = some w')
    (hraised : ∀ broken, action ≠ .answer i (.raised broken)) : w'.Propagates i := by
  obtain ⟨pool, hpool, rfl⟩ := step_eq hs
  obtain ⟨stream, hi, hleaving, hquiet⟩ := h.leaving
  have hunraised : UnraisedAt i w.pool := by
    intro other hother
    rw [hi] at hother
    cases hother
    exact hquiet
  obtain ⟨stream', hi', hleaving'⟩ := leaving_of_step hpool hi hleaving
  exact ⟨thrown_note pool h.thrown, stream', by rw [pool_note]; exact hi', hleaving',
    hunraised.step hraised hpool stream' hi'⟩

theorem awaited_of_waits {stream : Stream Job C Done} (h : stream.waits = true) :
    stream.phase = .parked ∧ stream.awaited = true := by
  unfold Stream.waits at h
  split at h
  · next hp => exact ⟨hp, by simp [Stream.awaited, hp]⟩
  · cases h

/-- A consumer that is cancelled in `asyncio.wait`. -/
theorem cancel_waiting (hs : step (.cancel i) w = some w') {stream : Stream Job C Done}
    (hi : w.pool.streams[i]? = some stream) (hwaits : stream.waits = true) :
    w'.pool.streams[i]? = some { stream with phase := .settling true } ∧
      w'.thrown = w.thrown ++ [i] ∧ w'.requested = w.requested ++ [i] := by
  obtain ⟨pool, hpool, rfl⟩ := step_eq hs
  obtain ⟨hp, hawaited⟩ := awaited_of_waits hwaits
  refine ⟨?_, by simp [note, hi, hwaits], by simp [note, hi, hawaited]⟩
  simp only [ExecutionPool.step, ExecutionPool.loopStep, ExecutionPool.onStream, hi,
    Option.bind_some, hp] at hpool
  split_ifs at hpool
  cases hpool
  simp [note, ExecutionPool.put, (List.getElem?_eq_some_iff.mp hi).1]

/-- A stream whose consumer is asked for is one whose consumer was, or is cancelled now. -/
theorem requested_of_step (hs : step action w = some w') (hi : i ∈ w'.requested) :
    i ∈ w.requested ∨ (action = .cancel i ∧
      ∃ stream, w.pool.streams[i]? = some stream ∧ stream.awaited = true) := by
  obtain ⟨pool, hpool, rfl⟩ := step_eq hs
  cases action with
  | cancel j =>
    unfold note at hi
    dsimp only at hi
    split_ifs at hi with hawaited
    · rcases List.mem_append.mp hi with hi | hi
      · exact .inl hi
      · obtain ⟨stream, hstream, ha⟩ := (Option.any_eq_true _ _).mp hawaited
        rw [List.mem_singleton] at hi
        subst hi
        exact .inr ⟨rfl, stream, hstream, ha⟩
    · exact .inl hi
  | _ => exact .inl hi

/-- The source of a stream raises while an exception is on its way out of it. -/
theorem raised_of_answer (h : w.Propagates i) {broken : Bool}
    (hs : step (.answer i (.raised broken)) w = some w') : ¬ w'.Propagates i := by
  obtain ⟨pool, hpool, rfl⟩ := step_eq hs
  obtain ⟨stream, hi, hleaving, -⟩ := h.leaving
  intro hafter
  obtain ⟨stream', hi', -, hquiet⟩ := hafter.leaving
  simp only [ExecutionPool.step, ExecutionPool.loopStep, ExecutionPool.onStream, hi,
    Option.bind_some] at hpool
  have hraised : (stream.pullDone (.raised broken)).sourceRaised = true := by
    unfold Stream.pullDone
    dsimp only
    split
    · next hp => simp [hp, Phase.leaving] at hleaving
    · rw [Stream.sourceRaised_enterFinally]
      rfl
    · rfl
  rw [if_pos (by by_contra hbusy; rw [if_neg hbusy] at hpool; cases hpool)] at hpool
  split at hpool
  · cases hpool
    rw [pool_note, ExecutionPool.put,
      List.getElem?_set_self (List.getElem?_eq_some_iff.mp hi).1] at hi'
    cases hi'
    exact absurd (hquiet.symm.trans hraised) Bool.false_ne_true
  · simp at hpool
  · cases hpool

/-- What every state of a run of clean steps has. -/
structure Kept (w : WatchedPool Job C Done Fault) : Prop where
  requested : ∀ i ∈ w.thrown, i ∈ w.requested
  unswallowed : w.Unswallowed

theorem Kept.step (h : Kept w) (hs : WatchedPool.step action w = some w')
    (hclean : clean action w = true) :
    Kept w' := by
  constructor
  · intro i hi
    obtain ⟨pool, hpool, rfl⟩ := step_eq hs
    cases action with
    | cancel j =>
      unfold note at hi ⊢
      dsimp only at hi ⊢
      by_cases hwaits : (w.pool.streams[j]?).any Stream.waits = true
      · obtain ⟨stream, hstream, hw⟩ := (Option.any_eq_true _ _).mp hwaits
        rw [if_pos hwaits] at hi
        rw [if_pos ((Option.any_eq_true _ _).mpr ⟨stream, hstream, (awaited_of_waits hw).2⟩)]
        exact (List.mem_append.mp hi).elim (fun hi => List.mem_append_left _ (h.requested i hi))
          fun hi => List.mem_append_right _ hi
      · rw [if_neg hwaits] at hi
        exact (requested_note pool (h.requested i hi) :
          i ∈ (WatchedPool.note _ pool (.cancel j)).requested)
    | _ => exact h.requested i hi
  · intro i hi
    rcases requested_of_step hs hi with hold | ⟨rfl, stream, hstream, hawaited⟩
    · have hprop := h.unswallowed i hold
      refine hprop.step hs ?_
      rintro broken rfl
      simp [clean, hprop.thrown] at hclean
    · by_cases hthrown : i ∈ w.thrown
      · exact (h.unswallowed i (h.requested i hthrown)).step hs fun _ h => by cases h
      · simp only [clean, hstream, Option.all_some, hawaited, hthrown, Bool.not_true,
          decide_false, Bool.or_false, Bool.false_or, Bool.and_eq_true, Bool.not_eq_true'] at hclean
        obtain ⟨hi', hthrown', -⟩ := cancel_waiting hs hstream hclean.1
        exact ⟨by simp [hthrown'], _, hi', rfl, hclean.2⟩

/-- **A step that is not clean swallows a cancellation**, or another exception takes its place. -/
theorem Kept.swallows (h : Kept w) (hs : WatchedPool.step action w = some w')
    (hclean : clean action w = false) :
    ¬ w'.Unswallowed := by
  intro hkept
  unfold clean at hclean
  split at hclean
  · next i =>
    cases hstream : w.pool.streams[i]? with
    | none => simp [hstream] at hclean
    | some stream =>
      simp only [hstream, Option.all_some, Bool.or_eq_false_iff, Bool.not_eq_false',
        decide_eq_false_iff_not, Bool.and_eq_false_iff] at hclean
      obtain ⟨⟨hawaited, hthrown⟩, hbad⟩ := hclean
      cases hwaits : stream.waits with
      | true =>
        obtain ⟨hi', -, hrequested⟩ := cancel_waiting hs hstream hwaits
        obtain ⟨stream', hafter, -, hquiet⟩ := (hkept i (by simp [hrequested])).leaving
        rw [hi'] at hafter
        cases hafter
        rcases hbad with hbad | hbad
        · rw [hwaits] at hbad
          cases hbad
        · exact absurd hbad (by rw [show stream.sourceRaised = false from hquiet]; nofun)
      | false =>
        obtain ⟨pool, hpool, rfl⟩ := step_eq hs
        have hafter := (hkept i (by simp [note, hstream, hawaited])).thrown
        simp only [note, hstream, Option.any_some, hwaits, Bool.false_eq_true, if_false] at hafter
        exact hthrown hafter
  · next i broken =>
    simp only [decide_not, Bool.not_eq_false', decide_eq_true_eq] at hclean
    have hprop := h.unswallowed i (h.requested i hclean)
    obtain ⟨pool, hpool, he⟩ := step_eq hs
    refine raised_of_answer hprop hs (hkept i ?_)
    rw [he]
    exact requested_note pool (h.requested i hclean)
  · cases hclean

end WatchedPool

/-- **When a cancellation is kept**: in every state of a run of clean steps, the cancellation of
every consumer is on its way out of its stream or has left it; and in such a state a step keeps all
of them exactly when it is clean. -/
theorem interruption_kept_iff {w₀ : ExecutionPool Job C Done Fault}
    {w : WatchedPool Job C Done Fault}
    (h : Reach WatchedPool.step (fun action u => WatchedPool.clean action u = true) { pool := w₀ } w) :
    w.Unswallowed ∧ ∀ action w', WatchedPool.step action w = some w' →
      (w'.Unswallowed ↔ WatchedPool.clean action w = true) := by
  have hkept : WatchedPool.Kept w := by
    refine h.invariant ⟨nofun, nofun⟩ fun u action v _ hu hclean hs => hu.step hs hclean
  refine ⟨hkept.unswallowed, fun action w' hs => ⟨fun hafter => ?_, fun hclean =>
    (hkept.step hs hclean).unswallowed⟩⟩
  by_contra hclean
  rw [Bool.not_eq_true] at hclean
  exact hkept.swallows hs hclean hafter

/-- A pool whose consumer was cancelled in `asyncio.wait` while its stream waited for its source:
the stream has ended with that. -/
def interrupted : WatchedPool ℕ ℕ ℕ ℕ where
  pool :=
    { scheduler := { capacity := 1 }
      streams :=
        [{ endsOnOwnWork := false
           permits := 0
           sourcePull := some .cancelled
           phase := .ended .raised }] }
  requested := [0]
  thrown := [0]

theorem interrupted_kept :
    interrupted.Unswallowed ∧ ∀ action w', WatchedPool.step action interrupted = some w' →
      (w'.Unswallowed ↔ WatchedPool.clean action interrupted = true) :=
  have hstart : Reach WatchedPool.step (fun action u => WatchedPool.clean action u = true)
      { pool := { scheduler := { capacity := 1 } } } interrupted :=
    .of_exec_checked [[.runStream], List.replicate 6 (.drive 0 none),
      [.cancel 0, .anext 0, .answer 0 .cancelled, .drive 0 none, .drive 0 none]].flatten
      (by decide +kernel)
  interruption_kept_iff hstart

/-- A pool whose consumer was cancelled as its stream awaited `changed`, after the source had
stopped: the stream has returned. -/
def swallowed : WatchedPool ℕ ℕ ℕ ℕ where
  pool :=
    { scheduler := { capacity := 1 }
      streams :=
        [{ endsOnOwnWork := false
           permits := 0
           exhausted := true
           phase := .ended .returned
           sourceStopped := true }] }
  requested := [0]

/-- **A stream can swallow its consumer's cancellation.** -/
theorem interruption_swallowed :
    ¬ ∀ (capacity : ℤ) (w₀ : ExecutionPool ℕ ℕ ℕ ℕ) (w : WatchedPool ℕ ℕ ℕ ℕ),
      ExecutionPool.open? capacity = some w₀ → Reachable WatchedPool.step { pool := w₀ } w →
      w.Unswallowed := by
  intro hall
  have hrun : exec WatchedPool.step
      [[.runStream], List.replicate 6 (.drive 0 none),
        [.answer 0 .stop, .anext 0, .cancel 0, .anext 0], List.replicate 10 (.drive 0 none)].flatten
      ({ pool := { scheduler := { capacity := 1 } } } : WatchedPool ℕ ℕ ℕ ℕ) = some swallowed := by
    decide +kernel
  have hkept := hall 1 _ swallowed rfl (.of_exec _ (fun _ _ => trivial) hrun)
  exact absurd (hkept 0 (by decide)).thrown (by decide)

end DrExec.Scheduling.Pool
