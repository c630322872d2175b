import DrExec.Scheduling.Breaking
import DrExec.Scheduling.Streams

/-! # A break of a pool

A plain stream ends normally only when the scheduler has no residents. After a break it has some
until the completions are discarded (`Short`), and they are discarded only when no stream is left to
end (`Alarmed`); so no plain stream ends normally after a break (`ends_before_break`).
`break_surfaces` collects what a break means for the scheduler, a batch and a pool. -/

namespace DrExec.Scheduling.Scheduler.ExecutionScheduler

variable {Job Ctx Done Fault : Type} {s s' : ExecutionScheduler Job Ctx Done Fault}

theorem joining_breakWith (failure : Fault) : (s.breakWith failure).joining = s.joining := by
  cases hb : s.broken with
  | some _ => rw [breakWith_of_broken s failure (by simp [hb])]
  | none => rw [breakWith_of_unbroken s failure hb]

theorem joining_admitJob (job : Job) (context : Ctx) (start : Option Fault) :
    (s.admitJob job context start).2.joining = s.joining := by
  rcases s.admit_cases job context start with ⟨he, -⟩ | ⟨-, -, he⟩
  · rw [he]
  · obtain ⟨cancelled, hq⟩ := s.enqueue_eq job context
    rw [he]
    rcases (s.enqueue job context).ensureWorker_cases start with
      ⟨-, he⟩ | ⟨failure, -, he⟩ | ⟨-, -, he⟩
    · rw [he, hq]
      rfl
    · rw [he]
      refine (joining_breakWith failure).trans ?_
      rw [hq]
    · rw [he, hq]
      rfl

theorem joining_worker {action : Action Job Ctx Done Fault} (ha : IsWorker action)
    (h : step action s = some s') : s'.joining = s.joining := by
  rcases ha with ⟨worker, rfl⟩ | ⟨worker, result, rfl⟩
  · simp only [step] at h
    split at h
    · split_ifs at h
      cases h
      rcases s.workerTakes_cases worker with ⟨admitted, rest, -, -, he⟩ | ⟨-, he⟩ <;> rw [he]
    · cases h
  · simp only [step] at h
    split at h
    · next admitted _ =>
      cases h
      cases result with
      | ok completed => rw [workerFinishes_ok]
      | error failure =>
        rcases s.workerFinishes_error_cases worker admitted failure with ⟨-, he⟩ | ⟨-, he⟩ <;>
          rw [he]
    · cases h

theorem joining_taken (driver : ℕ) (ownedBy : Option (Ctx → Bool)) :
    (recordTaken driver (s.takeCompletionNowait ownedBy).1
      (s.takeCompletionNowait ownedBy).2).joining = s.joining := by
  rcases s.takeCompletionNowait_cases ownedBy with ⟨completion, l₁, l₂, -, -, -, he⟩ | ⟨-, he⟩
  · rw [he]
    rfl
  · rw [he]
    unfold noneUnlessBroken
    cases s.broken <;> rfl

end DrExec.Scheduling.Scheduler.ExecutionScheduler

namespace DrExec.Scheduling.Pool

open DrExec.Lib.Transition DrExec.Lib.Lists Scheduler ExecutionScheduler

variable {Job C Done Fault : Type}

/-! ### The phases of a stream that ends -/

/-- The stream is counted in `_active_streams`: it has not been through its bookkeeping. -/
def Phase.active : Phase C Done → Bool
  | departing _ | ended _ => false
  | _ => true

/-- The loop of the stream has returned. -/
def Phase.normal : Phase C Done → Bool
  | finalizing .returned | bookkeeping .returned | departing .returned | ended .returned => true
  | _ => false

/-- A stream that moved is neither counted again nor newly returned. -/
structure Stream.Goes (stream stream' : Stream Job C Done) : Prop where
  active : stream'.phase.active = true → stream.phase.active = true
  normal : stream'.phase.normal = true → stream.phase.normal = true

namespace Stream.Goes

variable {stream stream' : Stream Job C Done}

/-- From an active phase to one in which the loop has not returned. -/
theorem of_active (ha : stream.phase.active = true) (hn : stream'.phase.normal = false) :
    stream.Goes stream' :=
  ⟨fun _ => ha, fun h => by rw [hn] at h; cases h⟩

theorem of_phase (h : stream'.phase = stream.phase) : stream.Goes stream' :=
  ⟨fun ha => h ▸ ha, fun hn => h ▸ hn⟩

/-- The other locals of a stream do not matter. -/
theorem congr {stream₁ : Stream Job C Done} (h : stream₁.Goes stream')
    (hp : stream₁.phase = stream.phase) : stream.Goes stream' :=
  ⟨fun ha => hp ▸ h.active ha, fun hn => hp ▸ h.normal hn⟩

theorem enterFinally {ending : Ending} (ha : stream.phase.active = true)
    (hn : ending ≠ .returned ∨ stream.phase.normal = true) :
    stream.Goes (stream.enterFinally ending) := by
  obtain ⟨phase, he, hphase, -⟩ := stream.enterFinally_eq ending
  rw [he]
  refine ⟨fun _ => ha, fun hnormal => hn.resolve_left fun hne => ?_⟩
  rcases hphase with rfl | rfl | rfl | rfl <;> cases ending <;> simp [Phase.normal] at hnormal hne

theorem emptyPull (ha : stream.phase.active = true) : stream.Goes stream.emptyPull := by
  obtain ⟨pull, phase, he, -, hphase⟩ := stream.emptyPull_eq
  rw [he]
  refine of_active ha ?_
  rcases hphase with rfl | rfl | rfl | rfl | rfl | rfl <;> rfl

theorem pullDone (pull : Pull Job C) : stream.Goes (stream.pullDone pull) := by
  unfold Stream.pullDone
  dsimp only
  split
  · next hp =>
    refine (emptyPull ?_ : ({ stream with sourcePull := some pull } : Stream Job C Done).Goes _).congr rfl
    simp [hp, Phase.active]
  · next ending hp =>
    refine (enterFinally ?_ ?_ :
      ({ stream with sourcePull := some pull } : Stream Job C Done).Goes _).congr rfl
    · simp [hp, Phase.active]
    · cases ending <;> simp [hp, Phase.normal]
  · exact of_phase rfl

theorem answer (owner : ℕ) (answer : Answer Job C) : stream.Goes (stream.answer owner answer) := by
  cases answer with
  | submission submission => exact (pullDone _).congr rfl
  | stop => exact (pullDone _).congr rfl
  | raised => exact pullDone _
  | cancelled => exact pullDone _

end Stream.Goes

variable {w w' : ExecutionPool Job C Done Fault}

/-- **A stream's own step**: only its end condition makes its loop return. -/
theorem Local.goes {i : ℕ} {stream stream' : Stream Job C Done} (h : Local w i stream stream') :
    stream.Goes stream' ∨ stream.phase = .checkEnd ∧
      stream.atEnd w.scheduler.hasResidents = true ∧ stream' = stream.enterFinally .returned := by
  cases h with
  | ends hp hend => exact .inr ⟨hp, hend, rfl⟩
  | loopHead hp =>
    refine .inl ?_
    unfold Stream.loopHead
    dsimp only
    split_ifs
    · refine (Stream.Goes.emptyPull ?_).congr rfl
      simp [hp, Phase.active]
    · exact .of_active (by simp [hp, Phase.active]) rfl
  | yieldTaken completion hp =>
    refine .inl (.of_active (by simp [hp, Phase.active]) ?_)
    unfold Stream.yieldTaken
    rfl
  | goesOn hp | carriesNothing hp => exact .inl (.of_active (by simp [hp, Phase.active]) rfl)
  | collect hp =>
    have ha : stream.phase.active = true := by simp [hp, Phase.active]
    refine .inl ?_
    unfold Stream.collectPull
    split
    · exact .of_active ha rfl
    · exact .of_active ha rfl
    · exact .enterFinally ha (by simp)
    · exact .enterFinally ha (by simp)
    · exact .of_active ha rfl
  | park hp =>
    refine .inl (.of_active (by simp [hp, Phase.active]) ?_)
    unfold Stream.park
    rfl
  | resumes hp => exact .inl (.of_active (by rcases hp with hp | hp <;> simp [hp, Phase.active]) rfl)
  | settles cancelled hp => exact .inl (.of_active (by simp [hp, Phase.active]) rfl)
  | cancelled hp => exact .inl (.enterFinally (by simp [hp, Phase.active]) (by simp))
  | finalized hp => exact .inl (.enterFinally (by simp [hp, Phase.active]) (by simp))
  | acquires => exact .inl (.of_phase rfl)
  | answered answer => exact .inl (.answer i answer)

/-! ### The scheduler of a pool that broke -/

/-- The streams that are counted in `_active_streams`. -/
def ExecutionPool.busy (w : ExecutionPool Job C Done Fault) : ℕ :=
  (w.streams.map fun stream => stream.phase.active.toNat).sum

theorem busy_put {i : ℕ} {stream : Stream Job C Done} (hi : w.streams[i]? = some stream)
    (stream' : Stream Job C Done) :
    (w.put i stream').busy + stream.phase.active.toNat = w.busy + stream'.phase.active.toNat :=
  sum_map_set (fun stream => stream.phase.active.toNat) w.streams i stream' stream hi

theorem busy_congr (h : w'.streams = w.streams) : w'.busy = w.busy := by
  unfold ExecutionPool.busy
  rw [h]

theorem busy_wakeAll (w : ExecutionPool Job C Done Fault) : w.wakeAll.busy = w.busy := by
  unfold ExecutionPool.busy ExecutionPool.wakeAll
  dsimp only
  congr 1
  refine List.ext_getElem? fun j => ?_
  rw [List.getElem?_map, List.getElem?_mapIdx, List.getElem?_map]
  cases w.streams[j]? with
  | none => rfl
  | some stream =>
    simp only [Option.map_some]
    split_ifs <;> rfl

/-- Without a counted stream, every stream is over. -/
theorem inactive_of_busy (h : w.busy = 0) : ∀ stream ∈ w.streams, stream.phase.active = false := by
  intro stream hmem
  have := List.le_sum_of_mem (List.mem_map_of_mem (f := fun stream => stream.phase.active.toNat) hmem)
  unfold ExecutionPool.busy at h
  cases ha : stream.phase.active with
  | false => rfl
  | true =>
    simp only [ha, Bool.toNat_true] at this
    omega

/-- **The alarm of a break stays on** until the pool is closing and no stream is counted. -/
structure Alarmed (w : ExecutionPool Job C Done Fault) : Prop where
  counted : (w.busy : ℤ) ≤ w.activeStreams
  stopped : w.closing ≠ .open → w.state ≠ .running
  preserve : ∀ call ∈ w.scheduler.joining, call.preserveCompletions = true
  short : w.scheduler.Short ∨ w.closing ≠ .open ∧ w.busy = 0

namespace Alarmed

/-- A step that opens no stream, moves the close task nowhere, and shuts nothing. -/
theorem keep (h : Alarmed w) (hbusy : w'.busy ≤ w.busy)
    (hcounted : (w'.busy : ℤ) - w'.activeStreams ≤ w.busy - w.activeStreams)
    (hclosing : w'.closing = w.closing) (hstate : w'.state = .running → w.state = .running)
    (hjoining : w'.scheduler.joining = w.scheduler.joining)
    (hshort : w.scheduler.Short → w'.scheduler.Short) : Alarmed w' := by
  have hcount := h.counted
  refine ⟨by omega, fun hne hrun => h.stopped (hclosing ▸ hne) (hstate hrun), ?_, ?_⟩
  · rw [hjoining]
    exact h.preserve
  · rcases h.short with hs | ⟨hne, hzero⟩
    · exact .inl (hshort hs)
    · exact .inr ⟨hclosing ▸ hne, by omega⟩

/-- A step of a stream that leaves the pool's own fields alone. -/
theorem put (h : Alarmed w) {i : ℕ} {stream stream' : Stream Job C Done}
    (hi : w.streams[i]? = some stream) (hstreams : w'.streams = w.streams)
    (hgoes : stream'.phase.active = true → stream.phase.active = true)
    (hactive : w'.activeStreams = w.activeStreams) (hclosing : w'.closing = w.closing)
    (hstate : w'.state = .running → w.state = .running)
    (hjoining : w'.scheduler.joining = w.scheduler.joining)
    (hshort : w.scheduler.Short → w'.scheduler.Short) : Alarmed (w'.put i stream') := by
  have hcount := busy_put (w := w') (hstreams ▸ hi) stream'
  have hbusy := busy_congr hstreams
  have hle : stream'.phase.active.toNat ≤ stream.phase.active.toNat := by
    cases ha : stream'.phase.active with
    | false => simp
    | true => simp [hgoes ha]
  refine h.keep (by omega) ?_ hclosing hstate hjoining hshort
  rw [show (w'.put i stream').activeStreams = w'.activeStreams from rfl, hactive]
  omega

theorem takes (h : Alarmed w) {i : ℕ} {stream : Stream Job C Done} (hi : w.streams[i]? = some stream)
    (hp : stream.phase = .take) : Alarmed (w.driveTake i stream) := by
  have ha : stream.phase.active = true := by simp [hp, Phase.active]
  have hjoining := joining_taken (s := w.scheduler) i (some (stream.ownedBy i))
  have hshort : w.scheduler.Short → _ := fun hs => hs.taken i (some (stream.ownedBy i))
  unfold ExecutionPool.driveTake
  dsimp only
  split
  · refine h.put hi rfl (fun _ => ha) rfl rfl (fun hrun => ?_) hjoining hshort
    dsimp only at hrun
    split_ifs at hrun with hstate
    exact absurd hrun hstate
  · exact h.put hi rfl (fun _ => ha) rfl rfl id hjoining hshort
  · exact h.put hi rfl (fun _ => ha) rfl rfl id hjoining hshort

theorem admits (h : Alarmed w) (hacc : w.scheduler.Accounted) {i : ℕ} {stream : Stream Job C Done}
    (hi : w.streams[i]? = some stream) (hp : stream.phase = .admitCarried)
    {submission : ExecutionSubmission Job (Context C)} (hc : stream.carried = some submission)
    (start : Option Fault) : Alarmed (w.driveAdmit i stream start) := by
  obtain ⟨stream', he, -⟩ := driveAdmit_cases w i hc start
  rw [he]
  exact h.put hi rfl (fun _ => by simp [hp, Phase.active]) rfl rfl id (joining_admitJob _ _ _)
    fun hs => hs.admitJob hacc _ _ _

/-- The last stream that leaves a closed pool discards what is left. -/
theorem keepsBooks (h : Alarmed w) (hclosing : ClosingOk w) {i : ℕ} {stream : Stream Job C Done}
    {ending : Ending} (hi : w.streams[i]? = some stream) (hp : stream.phase = .bookkeeping ending) :
    Alarmed (w.driveBookkeeping i stream ending) := by
  have hcount := h.counted
  have ha : stream.phase.active = true := by simp [hp, Phase.active]
  -- The stream is counted before, and not after.
  have hbusy : ∀ phase : Phase C Done, phase.active = false →
      (w.put i { stream with phase := phase }).busy + 1 = w.busy := by
    intro phase hover
    have hput := busy_put hi { stream with phase := phase }
    simpa only [ha, hover, Bool.toNat_true, Bool.toNat_false, add_zero] using hput
  have hover : ∀ phase : Phase C Done,
      phase = (if ending = .closed then .ended .closed else .departing ending) →
      phase.active = false := by
    rintro phase rfl
    split_ifs <;> rfl
  unfold ExecutionPool.driveBookkeeping
  generalize hphase : (if ending = .closed then Phase.ended .closed else .departing ending :
    Phase C Done) = phase
  have hbusy := hbusy phase (hover phase hphase.symm)
  by_cases hlast : w.activeStreams - 1 = 0 ∧ w.shutdownComplete = true
  · simp only [if_pos hlast]
    refine ⟨?_, h.stopped, h.preserve, .inr ⟨?_, ?_⟩⟩
    · show ((w.put i { stream with phase := phase }).busy : ℤ) ≤ w.activeStreams - 1
      omega
    · show w.closing ≠ .open
      rw [hclosing.complete hlast.2]
      simp
    · show (w.put i { stream with phase := phase }).busy = 0
      omega
  · simp only [if_neg hlast]
    refine h.keep ?_ ?_ rfl id rfl id
    · show (w.put i { stream with phase := phase }).busy ≤ w.busy
      omega
    · show ((w.put i { stream with phase := phase }).busy : ℤ) - (w.activeStreams - 1) ≤
        w.busy - w.activeStreams
      omega

theorem departs (h : Alarmed w) {i : ℕ} {stream : Stream Job C Done} {phase : Phase C Done}
    (hi : w.streams[i]? = some stream)
    (hphase : (stream.phase = .yielded ∧ phase = .abandoned) ∨
      (∃ ending, stream.phase = .departing ending ∧ phase = .ended ending)) :
    Alarmed ((w.releaseOwned i stream).put i { stream with phase := phase }) := by
  have hgoes : phase.active = true → stream.phase.active = true := by
    rcases hphase with ⟨hp, -⟩ | ⟨ending, -, rfl⟩
    · exact fun _ => by simp [hp, Phase.active]
    · exact fun ha => by simp [Phase.active] at ha
  unfold ExecutionPool.releaseOwned
  split_ifs
  · refine h.put hi rfl hgoes rfl rfl id ?_ fun hs => hs.releaseOwned (owns i)
    dsimp only
    rw [releaseOwned_eq]
  · exact h.put hi rfl hgoes rfl rfl id rfl id

theorem opens (h : Alarmed w) (hrun : w.state = .running) (endsOnOwnWork : Bool) (width : ℕ) :
    Alarmed (w.openStream endsOnOwnWork width) := by
  have hcount := h.counted
  have hbusy : (w.openStream endsOnOwnWork width).busy = w.busy + 1 := by
    simp only [ExecutionPool.openStream, ExecutionPool.busy, List.map_append, List.sum_append]
    rfl
  refine ⟨?_, h.stopped, h.preserve, ?_⟩
  · rw [hbusy]
    simp only [ExecutionPool.openStream]
    omega
  · exact h.short.imp_right fun hdone => absurd hrun (h.stopped hdone.1)

/-- The close task after `shutdown` discards what is left, unless a stream is counted. -/
theorem finishes (h : Alarmed w) : Alarmed w.finishClose := by
  have hcount := h.counted
  have hbusy : w.finishClose.busy = w.busy := by
    refine (busy_congr ?_).trans (busy_wakeAll w)
    unfold ExecutionPool.finishClose
    dsimp only
    split_ifs <;> rfl
  have hactive : w.finishClose.activeStreams = w.activeStreams := by
    unfold ExecutionPool.finishClose
    dsimp only
    split_ifs <;> rfl
  have hjoining : w.finishClose.scheduler.joining = w.scheduler.joining := by
    rcases scheduler_finishClose w with he | he <;> rw [he]
    rfl
  refine ⟨by omega, fun _ => ?_, hjoining ▸ h.preserve, ?_⟩
  · unfold ExecutionPool.finishClose ExecutionPool.wakeAll
    dsimp only
    split_ifs <;> simp
  · by_cases hnone : w.activeStreams = 0
    · exact .inr ⟨by simp [ExecutionPool.finishClose], by omega⟩
    · have hs : w.finishClose.scheduler = w.scheduler := by
        unfold ExecutionPool.finishClose ExecutionPool.wakeAll
        dsimp only
        rw [if_neg hnone]
      rw [hs, hbusy]
      exact h.short.imp_right fun hdone => ⟨by simp [ExecutionPool.finishClose], hdone.2⟩

/-- `shutdown` keeps the completions, and with them the residents. -/
theorem joins (h : Alarmed w) {scheduler : ExecutionScheduler Job (Context C) Done Fault}
    (hj : w.closing = .joining)
    (hs : ExecutionScheduler.step (.shutdownEnd 0) w.scheduler = some scheduler) :
    Alarmed { w with scheduler := scheduler, closing := .joined } := by
  have hopen : w.closing ≠ .open := by simp [hj]
  simp only [ExecutionScheduler.step] at hs
  split at hs
  · next call hcall =>
    split_ifs at hs
    cases hs
    have hpreserve := h.preserve call (List.mem_of_getElem? hcall)
    refine ⟨h.counted, fun _ => h.stopped hopen, fun other hmem => ?_, ?_⟩
    · exact h.preserve other (List.mem_of_mem_eraseIdx hmem)
    · refine h.short.imp (fun hshort hbroken => ?_) fun hdone => ⟨by simp, hdone.2⟩
      unfold shutdownEnd at hbroken ⊢
      simp only [hpreserve, if_true, announceChange] at hbroken ⊢
      have := hshort hbroken
      simp only [List.length_nil]
      omega
  · cases hs

/-- **One step of a pool.** -/
theorem step (h : Alarmed w) (hclosing : ClosingOk w) (hacc : w.scheduler.Accounted)
    (heff : Effect w w') : Alarmed w' := by
  cases heff with
  | unchanged => exact h
  | worker action scheduler ha hs =>
    exact h.keep le_rfl le_rfl rfl id (joining_worker ha hs) fun hshort => hshort.worker hacc ha hs
  | opened endsOnOwnWork width hrun => exact h.opens hrun endsOnOwnWork width
  | moves i stream stream' hi hlocal =>
    refine h.put hi rfl ?_ rfl rfl id rfl id
    rcases hlocal.goes with hgoes | ⟨hp, -⟩
    · exact hgoes.active
    · exact fun _ => by simp [hp, Phase.active]
  | breaks i stream hi hp =>
    exact h.put hi rfl (fun _ => by simp [hp, Phase.active]) rfl rfl (fun hrun => by cases hrun) rfl id
  | takes i stream hi hp => exact h.takes hi hp
  | admits i stream submission start hi hp hc => exact h.admits hacc hi hp hc start
  | keepsBooks i stream ending hi hp => exact h.keepsBooks hclosing hi hp
  | departs i stream phase hi hphase => exact h.departs hi hphase
  | wakes =>
    have hbusy : ({ w.wakeAll with woken := w.woken + 1 } : ExecutionPool Job C Done Fault).busy =
        w.busy := (busy_congr rfl).trans (busy_wakeAll w)
    exact h.keep (by omega) (by rw [hbusy]; exact le_rfl) rfl id rfl id
  | closes hopen =>
    have hbusy : w.close.busy = w.busy := (busy_congr rfl).trans (busy_wakeAll _)
    have hcount := h.counted
    refine ⟨?_, fun _ => by simp [ExecutionPool.close, ExecutionPool.wakeAll], h.preserve, ?_⟩
    · rw [hbusy]
      exact hcount
    · refine h.short.imp (fun hs => hs.congr rfl rfl rfl rfl rfl) fun hdone => ?_
      exact absurd hopen hdone.1
  | cancels =>
    refine h.keep le_rfl le_rfl rfl id ?_ fun hs => ?_
    all_goals
      dsimp only
      rw [cancelAll, cancelTokens_eq]
    · rfl
    · exact hs.congr rfl rfl rfl rfl rfl
  | shutsDown hq =>
    have hopen : w.closing ≠ .open := by simp [hq]
    refine ⟨h.counted, fun _ => h.stopped hopen, fun call hmem => ?_, ?_⟩
    · rcases List.mem_append.mp hmem with hmem | hmem
      · exact h.preserve call hmem
      · rw [List.mem_singleton.mp hmem]
    · refine h.short.imp (fun hs => hs.congr rfl rfl rfl rfl rfl) fun hdone => ?_
      exact ⟨by simp, hdone.2⟩
  | joins scheduler hj hs => exact h.joins hj hs
  | finishes => exact h.finishes

end Alarmed

/-- **The alarm in every run.** -/
theorem alarmed_of_reach {capacity : ℤ} {w₀ : ExecutionPool Job C Done Fault}
    (h0 : ExecutionPool.open? capacity = some w₀) (h : Reachable ExecutionPool.step w₀ w) :
    Alarmed w := by
  refine h.invariant ?_ fun u a v hr hu _ hs => ?_
  · obtain ⟨scheduler, hs, rfl⟩ := open?_eq h0
    obtain ⟨-, rfl⟩ := init_eq hs
    exact ⟨le_rfl, fun hne => absurd rfl hne, by simp, .inl fun hb => by simp at hb⟩
  · exact hu.step (closingOk_of_reach h0 hr)
      (accounted_of_reachable (init_of_open? h0) (scheduler_reachable h0 hr)) (effect_of_step hs)

/-! ### No plain stream returns after a break -/

/-- The loop of the plain stream at position `i` has returned. -/
def Returned (w : ExecutionPool Job C Done Fault) (i : ℕ) : Prop :=
  ∃ stream, w.streams[i]? = some stream ∧ stream.endsOnOwnWork = false ∧ stream.phase.normal = true

theorem returned_put {i j : ℕ} {stream stream' : Stream Job C Done}
    (hi : w.streams[i]? = some stream) (hstreams : w'.streams = w.streams)
    (hkind : stream'.endsOnOwnWork = stream.endsOnOwnWork)
    (hn : stream'.phase.normal = true → stream.phase.normal = true)
    (h : Returned (w'.put i stream') j) : Returned w j := by
  obtain ⟨new, hj, hplain, hnormal⟩ := h
  refine forall_put (P := fun j new => new.endsOnOwnWork = false → new.phase.normal = true →
    Returned w j) ?_ ?_ j new hj hplain hnormal
  · exact fun hplain hnormal => ⟨stream, hi, hkind ▸ hplain, hn hnormal⟩
  · exact fun j old hj _ hplain hnormal => ⟨old, hstreams ▸ hj, hplain, hnormal⟩

theorem returned_wakeAll {j : ℕ} (hstreams : w'.streams = w.wakeAll.streams) (h : Returned w' j) :
    Returned w j := by
  obtain ⟨new, hj, hplain, hnormal⟩ := h
  obtain ⟨stream, wakeup, hst, rfl⟩ := keeps_wakeAll (hstreams ▸ hj)
  exact ⟨stream, hst, hplain, hnormal⟩

/-- One step, in which no plain stream finds the scheduler without residents. -/
theorem returned_step {j : ℕ}
    (hresident : ∀ stream ∈ w.streams, stream.phase = .checkEnd → w.scheduler.hasResidents = true)
    (heff : Effect w w') (h : Returned w' j) : Returned w j := by
  cases heff with
  | unchanged | worker | cancels | shutsDown | joins => exact h
  | opened endsOnOwnWork width =>
    obtain ⟨stream, hj, hplain, hnormal⟩ := h
    rcases getElem?_openStream hj with hj | ⟨-, rfl⟩
    · exact ⟨stream, hj, hplain, hnormal⟩
    · simp [Phase.normal] at hnormal
  | moves i stream stream' hi hlocal =>
    rcases hlocal.goes with hgoes | ⟨hp, hend, rfl⟩
    · exact returned_put hi rfl hlocal.keeps.kind hgoes.normal h
    · by_cases hkind : stream.endsOnOwnWork = true
      · obtain ⟨new, hj, hplain, hnormal⟩ := h
        refine forall_put (P := fun j new => new.endsOnOwnWork = false →
          new.phase.normal = true → Returned w j) ?_ ?_ j new hj hplain hnormal
        · intro hplain
          rw [hlocal.keeps.kind, hkind] at hplain
          cases hplain
        · exact fun j old hj _ hplain hnormal => ⟨old, hj, hplain, hnormal⟩
      · rw [hresident stream (List.mem_of_getElem? hi) hp] at hend
        simp [Stream.atEnd, hkind] at hend
  | breaks i stream hi hp =>
    have hgoes : stream.Goes (stream.enterFinally .raised) :=
      .enterFinally (by simp [hp, Phase.active]) (by simp)
    obtain ⟨phase, heq, -⟩ := stream.enterFinally_eq .raised
    exact returned_put hi rfl (by rw [heq]) hgoes.normal h
  | takes i stream hi hp =>
    rcases driveTake_cases w i stream with ⟨completion, scheduler, -, he⟩ | he | ⟨-, state, he⟩ <;>
      rw [he] at h
    · refine returned_put hi ?_ ?_ (fun hn => ?_) h
      · rfl
      · rfl
      · simp [Phase.normal] at hn
    · refine returned_put hi ?_ ?_ (fun hn => ?_) h
      · rfl
      · rfl
      · simp [Phase.normal] at hn
    · have hgoes : stream.Goes (stream.enterFinally .raised) :=
        .enterFinally (by simp [hp, Phase.active]) (by simp)
      obtain ⟨phase, heq, -⟩ := stream.enterFinally_eq .raised
      exact returned_put hi rfl (by rw [heq]) hgoes.normal h
  | admits i stream submission start hi hp hc =>
    obtain ⟨stream', he, hcases⟩ := driveAdmit_cases w i hc start
    rw [he] at h
    have hstream : stream'.endsOnOwnWork = stream.endsOnOwnWork ∧ stream'.phase.normal = false := by
      rcases hcases with ⟨-, rfl⟩ | ⟨-, rfl⟩ | ⟨-, rfl⟩ <;> exact ⟨rfl, rfl⟩
    exact returned_put hi rfl hstream.1 (fun hn => by simp [hstream.2] at hn) h
  | keepsBooks i stream ending hi hp =>
    unfold ExecutionPool.driveBookkeeping at h
    dsimp only at h
    refine returned_put hi ?_ ?_ ?_ h
    · split_ifs <;> rfl
    · rfl
    · intro hn
      dsimp only at hn
      split_ifs at hn with hclosed
      · simp [Phase.normal] at hn
      · rw [hp]
        cases ending <;> simp [Phase.normal] at hn ⊢
  | departs i stream phase hi hphase =>
    refine returned_put hi ?_ ?_ ?_ h
    · unfold ExecutionPool.releaseOwned
      split_ifs <;> rfl
    · rfl
    · rcases hphase with ⟨-, rfl⟩ | ⟨ending, hp, rfl⟩
      · exact fun hn => by simp [Phase.normal] at hn
      · rw [hp]
        cases ending <;> simp [Phase.normal]
  | wakes => exact returned_wakeAll rfl h
  | closes => exact returned_wakeAll rfl h
  | finishes =>
    refine returned_wakeAll ?_ h
    unfold ExecutionPool.finishClose
    dsimp only
    split_ifs <;> rfl

/-- **A plain stream whose loop returned had returned before the break.** -/
theorem ends_before_break {capacity : ℤ} {w₀ : ExecutionPool Job C Done Fault}
    (h0 : ExecutionPool.open? capacity = some w₀) (h : Reachable ExecutionPool.step w₀ w)
    (hb : w.scheduler.broken.isSome) (h' : Reachable ExecutionPool.step w w') {i : ℕ}
    (hr : Returned w' i) : Returned w i := by
  have hinit := init_of_open? h0
  suffices hinv : w'.scheduler.broken.isSome ∧ (Returned w' i → Returned w i) from hinv.2 hr
  refine h'.invariant (I := fun v => v.scheduler.broken.isSome ∧ (Returned v i → Returned w i))
    ⟨hb, id⟩ fun u a v hreach hu _ hs => ?_
  have hreach₀ : Reachable ExecutionPool.step w₀ u := h.trans hreach
  have hok := workersOk_of_reachable hinit (scheduler_reachable h0 hreach₀)
  have heff := effect_of_step hs
  refine ⟨?_, fun hr => hu.2 (returned_step (fun stream hmem hp => ?_) heff hr)⟩
  · rcases scheduler_step (closingOk_of_reach h0 hreach₀) heff with he | ⟨action, hstep⟩
    · rw [he]
      exact hu.1
    · rw [(Broke.step hok hu.1 hstep).broken]
      exact hu.1
  · rcases (alarmed_of_reach h0 hreach₀).short with hshort | ⟨-, hzero⟩
    · exact hshort.hasResidents hok hu.1
    · have hover := inactive_of_busy hzero stream hmem
      simp [hp, Phase.active] at hover

/-! ### What a break means -/

open Batch in
/-- **A break is never mistaken for completion.** The section that breaks the scheduler cancels the
tokens of all queued jobs, and in every run after it no job is started, the intake stays closed, and
every driver is handed the completions it can claim and then `SchedulerBroken`; a batch whose
scheduler is broken does not return, and no loop of a plain stream returns after the break. -/
theorem break_surfaces :
    (∀ (capacity : ℤ) (s₀ s s' : ExecutionScheduler Job C Done Fault) (action : Action Job C Done Fault)
      (failure : Fault), init capacity = some s₀ → Reachable ExecutionScheduler.step s₀ s →
      s.broken = none → ExecutionScheduler.step action s = some s' → s'.broken = some failure →
      (∀ admitted ∈ s.queuedAt action, admitted.cancellation ∈ s'.cancelled) ∧
        ∀ u, Reachable ExecutionScheduler.step s' u → Surfaced failure s' u) ∧
    (∀ (capacity : ℤ) (jobs : List Job) (wallTime : Bool) (b₀ b : RunBatch Job Done Fault),
      RunBatch.open? capacity jobs wallTime = some b₀ → Reachable RunBatch.step b₀ b →
      b.scheduler.broken.isSome → b.phase.ending? ≠ some .returned) ∧
    ∀ (capacity : ℤ) (w₀ w w' : ExecutionPool Job C Done Fault) (i : ℕ),
      ExecutionPool.open? capacity = some w₀ → Reachable ExecutionPool.step w₀ w →
      w.scheduler.broken.isSome → Reachable ExecutionPool.step w w' → ¬ Returned w i →
      ¬ Returned w' i := by
  refine ⟨?_, ?_, ?_⟩
  · intro capacity s₀ s s' action failure hinit h hb hs hb'
    refine ⟨cancelled_of_break hs hb hb', fun u hu => surfaced_of_reach ?_ hb' hu⟩
    exact (workersOk_of_reachable hinit h).step hs
  · exact fun capacity jobs wallTime b₀ b h0 h hb => RunBatch.not_returned_of_broken h0 h hb
  · exact fun capacity w₀ w w' i h0 h hb h' hnot hr => hnot (ends_before_break h0 h hb h' hr)

/-- A call that raises with a second job queued; the same for a batch, which then ends; and one for
a plain stream, which departs. -/
theorem raisedCall_surfaces :
    (∃ s' : ExecutionScheduler ℕ ℕ ℕ ℕ, s'.cancelled = [⟨1⟩] ∧ Surfaced 5 s' s') ∧
      (∃ b : Batch.RunBatch ℕ ℕ ℕ, b.phase.ending? = some (.broken 5) ∧
        b.phase.ending? ≠ some .returned) ∧
      ∃ w : ExecutionPool ℕ ℕ ℕ ℕ, w.streams.map Stream.phase = [.ended .raised] ∧
        ¬ Returned w 0 := by
  obtain ⟨hscheduler, hbatch, hpool⟩ := @break_surfaces ℕ ℕ ℕ ℕ
  refine ⟨⟨_, ?_, (hscheduler 2 _ _ _ (.finish 0 (.error 5)) 5 rfl (.of_exec
      [.admitJob 10 0 none, .takeAdmitted 0, .admitJob 20 1 none] (fun _ _ => trivial) rfl) rfl rfl
      rfl).2 _ .refl⟩,
    ⟨_, ?_, hbatch 2 [10, 20] false _ _ rfl (.of_exec [[.advance none, .advance none,
      .takeAdmitted 0, .advance none, .advance none, .finish 0 (.error 5)],
      List.replicate 3 (.advance none)].flatten (fun _ _ => trivial) rfl) rfl⟩,
    ⟨_, ?_, hpool 1 _ _ _ 0 rfl (.of_exec [[.runStream], List.replicate 6 (.drive 0 none),
      [.answer 0 (.submission ⟨7, 9⟩), .anext 0, .anext 0], List.replicate 9 (.drive 0 none),
      [.takeAdmitted 0, .finish 0 (.error 5)]].flatten (fun _ _ => trivial) rfl) rfl
      (.of_exec (List.replicate 4 (.drive 0 none)) (fun _ _ => trivial) rfl) ?_⟩⟩
  · rfl
  · rfl
  · rfl
  · rintro ⟨stream, hj, -, hnormal⟩
    cases hj
    cases hnormal

end DrExec.Scheduling.Pool
