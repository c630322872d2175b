import DrExec.Scheduling.Streams

/-! # What a step does to one stream

A step of the pool changes one stream at most, apart from the wakeups that `_wake_streams` sets.
`change_of_effect` is the list of these changes, each with what the stream saw as it made it: what
the scheduler answered, and the condition of the branch it took. -/

namespace DrExec.Scheduling.Pool

open DrExec.Lib.Transition Scheduler ExecutionScheduler

variable {Job C Done Fault : Type} {w w' : ExecutionPool Job C Done Fault}

/-- A step of stream `i` itself. -/
inductive Change (w : ExecutionPool Job C Done Fault) (i : ℕ) (stream : Stream Job C Done) :
    Stream Job C Done → Prop
  | moves (stream' : Stream Job C Done) : Local w i stream stream' → Change w i stream stream'
  | took (completion : Completion (Context C) Done) : stream.phase = .take →
      Change w i stream
        { stream with outstanding := stream.outstanding - 1, phase := .took completion }
  | foundNone : stream.phase = .take → w.scheduler.broken = none →
      (∀ completion ∈ w.scheduler.ready, stream.ownedBy i completion.context = false) →
      Change w i stream { stream with phase := .checkEnd }
  | brokeOff : stream.phase = .take → Change w i stream (stream.enterFinally .raised)
  | admitted (submission : ExecutionSubmission Job (Context C)) : stream.phase = .admitCarried →
      stream.carried = some submission →
      Change w i stream
        { stream with carried := none, outstanding := stream.outstanding + 1, phase := .top }
  | refused (submission : ExecutionSubmission Job (Context C)) : stream.phase = .admitCarried →
      stream.carried = some submission →
      Change w i stream { stream with carried := none, exhausted := true, phase := .top }
  | noRoom (submission : ExecutionSubmission Job (Context C)) : stream.phase = .admitCarried →
      stream.carried = some submission → w.scheduler.intakeClosed = false →
      w.scheduler.canAdmit = false → Change w i stream { stream with phase := .collect }
  | keepsBooks (ending : Ending) : stream.phase = .bookkeeping ending →
      Change w i stream
        { stream with phase := if ending = .closed then .ended .closed else .departing ending }
  | departs (phase : Phase C Done) :
      (stream.phase = .yielded ∧ phase = .abandoned) ∨
        (∃ ending, stream.phase = .departing ending ∧ phase = .ended ending) →
      Change w i stream { stream with phase := phase }

/-! ### The answers of the scheduler -/

/-- What `take_completion_nowait` says when it returns `None`. -/
theorem none_of_taken {s s' : ExecutionScheduler Job (Context C) Done Fault}
    {ownedBy : Context C → Bool} (h : s.takeCompletionNowait (some ownedBy) = (.ok none, s')) :
    s.broken = none ∧ ∀ completion ∈ s.ready, ownedBy completion.context = false := by
  rcases s.takeCompletionNowait_cases (some ownedBy) with ⟨completion, l₁, l₂, -, -, -, he⟩ | ⟨hnone, he⟩
  · rw [he] at h
    cases h
  · rw [he, Prod.mk.injEq] at h
    refine ⟨?_, fun completion hready => ?_⟩
    swap
    · obtain ⟨owned, ho, hfalse⟩ := hnone completion hready
      cases ho
      exact hfalse
    have h := h.1
    unfold noneUnlessBroken at h
    split at h
    · cases h
    · assumption

/-- What `admit` says when it returns `NO_ROOM`. -/
theorem full_of_noRoom {s : ExecutionScheduler Job (Context C) Done Fault} {job : Job}
    {context : Context C} {start : Option Fault} (h : (s.admitJob job context start).1 = .noRoom) :
    s.intakeClosed = false ∧ s.canAdmit = false := by
  unfold admitJob at h
  split_ifs at h with hclosed hfull
  · rw [Bool.not_eq_true] at hclosed
    exact ⟨hclosed, by simp [canAdmit]; omega⟩
  · dsimp only at h
    split_ifs at h

/-! ### The changes -/

/-- A stream that takes. -/
theorem change_driveTake {i : ℕ} {stream : Stream Job C Done} (hp : stream.phase = .take) :
    ∃ (v : ExecutionPool Job C Done Fault) (stream' : Stream Job C Done),
      w.driveTake i stream = v.put i stream' ∧ v.streams = w.streams ∧
        Change w i stream stream' := by
  unfold ExecutionPool.driveTake
  dsimp only
  split
  · exact ⟨_, _, rfl, rfl, .brokeOff hp⟩
  · exact ⟨_, _, rfl, rfl, .took _ hp⟩
  · next hnone =>
    obtain ⟨hbroken, hready⟩ := none_of_taken (Prod.ext hnone rfl)
    exact ⟨_, _, rfl, rfl, .foundNone hp hbroken hready⟩

/-- A stream that submits. -/
theorem change_driveAdmit {i : ℕ} {stream : Stream Job C Done}
    {submission : ExecutionSubmission Job (Context C)} (hp : stream.phase = .admitCarried)
    (hc : stream.carried = some submission) (start : Option Fault) :
    ∃ (v : ExecutionPool Job C Done Fault) (stream' : Stream Job C Done),
      w.driveAdmit i stream start = v.put i stream' ∧ v.streams = w.streams ∧
        Change w i stream stream' := by
  obtain ⟨stream', he, ⟨-, rfl⟩ | ⟨-, rfl⟩ | ⟨hfull, rfl⟩⟩ := driveAdmit_cases w i hc start
  · exact ⟨_, _, he, rfl, .admitted submission hp hc⟩
  · exact ⟨_, _, he, rfl, .refused submission hp hc⟩
  · exact ⟨_, _, he, rfl, .noRoom submission hp hc (full_of_noRoom hfull).1 (full_of_noRoom hfull).2⟩

/-- **What a step does to a stream.** It changes nothing of it, or wakes it, or is a step of its
own, or opens it. -/
theorem change_of_effect (heff : Effect w w') {j : ℕ} {stream' : Stream Job C Done}
    (hj : w'.streams[j]? = some stream') :
    (∃ stream, w.streams[j]? = some stream ∧ (stream' = stream ∨
        stream' = { stream with wakeup := true } ∨ Change w j stream stream')) ∨
      (j = w.streams.length ∧
        ∃ kind width, stream' = { endsOnOwnWork := kind, permits := width }) := by
  have hsame : w'.streams = w.streams → ∃ stream, w.streams[j]? = some stream ∧ (stream' = stream ∨
      stream' = { stream with wakeup := true } ∨ Change w j stream stream') :=
    fun hstreams => ⟨stream', hstreams ▸ hj, .inl rfl⟩
  have hwoken : w'.streams = w.wakeAll.streams → ∃ stream, w.streams[j]? = some stream ∧
      (stream' = stream ∨ stream' = { stream with wakeup := true } ∨ Change w j stream stream') := by
    intro hstreams
    rw [hstreams] at hj
    simp only [ExecutionPool.wakeAll, List.getElem?_mapIdx, Option.map_eq_some_iff] at hj
    obtain ⟨stream, hj, rfl⟩ := hj
    refine ⟨stream, hj, ?_⟩
    split_ifs
    · exact .inr (.inl rfl)
    · exact .inl rfl
  have hput : ∀ {v : ExecutionPool Job C Done Fault} {i : ℕ} {stream new : Stream Job C Done},
      v.streams = w.streams → w'.streams = (v.put i new).streams → w.streams[i]? = some stream →
      Change w i stream new →
      ∃ stream, w.streams[j]? = some stream ∧ (stream' = stream ∨
        stream' = { stream with wakeup := true } ∨ Change w j stream stream') := by
    intro v i stream new hv hstreams hi hchange
    have hset : w'.streams = w.streams.set i new := by
      rw [hstreams]
      exact congrArg (List.set · i new) hv
    rw [hset, List.getElem?_set] at hj
    split_ifs at hj with hij
    · cases hj
      subst hij
      exact ⟨stream, hi, .inr (.inr hchange)⟩
    · exact ⟨stream', hj, .inl rfl⟩
  cases heff with
  | opened endsOnOwnWork width =>
    rcases getElem?_openStream hj with hold | ⟨hnew, rfl⟩
    · exact .inl ⟨stream', hold, .inl rfl⟩
    · exact .inr ⟨hnew, endsOnOwnWork, width, rfl⟩
  | moves i stream new hi hlocal =>
    exact .inl (hput rfl rfl hi (.moves new hlocal))
  | breaks i stream hi hp hbroke =>
    have hchange := Local.collect (w := w) (i := i) hp
    rw [Stream.collectPull_of_broke hbroke] at hchange
    exact .inl (hput rfl rfl hi (.moves _ hchange))
  | takes i stream hi hp =>
    obtain ⟨v, new, he, hv, hchange⟩ := change_driveTake (w := w) (i := i) hp
    exact .inl (hput hv (by rw [he]) hi hchange)
  | admits i stream submission start hi hp hc =>
    obtain ⟨v, new, he, hv, hchange⟩ := change_driveAdmit (w := w) (i := i) hp hc start
    exact .inl (hput hv (by rw [he]) hi hchange)
  | keepsBooks i stream ending hi hp =>
    refine .inl (hput rfl ?_ hi (.keepsBooks ending hp))
    unfold ExecutionPool.driveBookkeeping
    dsimp only
    split_ifs <;> rfl
  | departs i stream phase hi hphase =>
    refine .inl (hput rfl ?_ hi (.departs phase hphase))
    unfold ExecutionPool.releaseOwned
    split_ifs <;> rfl
  | finishes =>
    refine .inl (hwoken ?_)
    unfold ExecutionPool.finishClose
    dsimp only
    split_ifs <;> rfl
  | wakes | closes => exact .inl (hwoken rfl)
  | unchanged | worker | cancels | shutsDown | joins => exact .inl (hsame rfl)

theorem length_step (heff : Effect w w') : w.streams.length ≤ w'.streams.length := by
  cases heff with
  | opened endsOnOwnWork width => simp [ExecutionPool.openStream]
  | moves i stream | breaks i stream => exact (length_put w i _).ge
  | takes i stream hi hp =>
    obtain ⟨v, new, he, hv, -⟩ := change_driveTake (w := w) (i := i) hp
    rw [he, length_put, hv]
  | admits i stream submission start hi hp hc =>
    obtain ⟨v, new, he, hv, -⟩ := change_driveAdmit (w := w) (i := i) hp hc start
    rw [he, length_put, hv]
  | keepsBooks i stream ending =>
    unfold ExecutionPool.driveBookkeeping
    dsimp only
    split_ifs <;> exact (length_put _ i _).ge
  | departs i stream phase =>
    unfold ExecutionPool.releaseOwned
    split_ifs <;> exact (length_put _ i _).ge
  | finishes =>
    unfold ExecutionPool.finishClose
    dsimp only
    split_ifs <;> exact (length_wakeAll w).ge
  | wakes | closes => exact (length_wakeAll w).ge
  | unchanged | worker | cancels | shutsDown | joins => exact le_refl _

/-- **A property of one stream in every run**: what its wakeups and its own steps keep. -/
theorem stream_of_reach {ok : PoolAction Job C Done Fault → ExecutionPool Job C Done Fault → Prop}
    {P : Stream Job C Done → Prop} {i : ℕ} (hlt : i < w.streams.length)
    (h0 : ∀ stream, w.streams[i]? = some stream → P stream)
    (hwake : ∀ stream, P stream → P { stream with wakeup := true })
    (hchange : ∀ (v : ExecutionPool Job C Done Fault) (stream stream' : Stream Job C Done),
      Change v i stream stream' → P stream → P stream')
    (h : Reach ExecutionPool.step ok w w') :
    i < w'.streams.length ∧ ∀ stream, w'.streams[i]? = some stream → P stream := by
  refine h.invariant (I := fun v => i < v.streams.length ∧
    ∀ stream, v.streams[i]? = some stream → P stream) ⟨hlt, h0⟩ ?_
  rintro u action v - ⟨hu, hP⟩ - hstep
  refine ⟨hu.trans_le (length_step (effect_of_step hstep)), fun stream' hi' => ?_⟩
  rcases change_of_effect (effect_of_step hstep) hi' with ⟨stream, hi, rfl | rfl | hown⟩ | ⟨hlast, -⟩
  · exact hP stream' hi
  · exact hwake stream (hP stream hi)
  · exact hchange u stream stream' hown (hP stream hi)
  · omega

end DrExec.Scheduling.Pool
