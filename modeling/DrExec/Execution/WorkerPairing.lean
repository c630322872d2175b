import DrExec.Execution.ServedSet
import DrExec.Execution.ClosedPipes
import DrExec.Execution.WorkerCalls

/-! # Requests and results stay paired

What a worker owes are the calls whose result frame it has published or has still to write
(`ServedSet.owed`). A call that has a worker knows what it owes: nothing up to the request, and from
then on the call itself, until its result frame is read (`Phase.due`). So a worker that goes back to
the slot queue owes nothing, and the frame that a call interprets answers its own request
(`results_paired`). -/

namespace DrExec.Execution.WorkerPool

open DrExec.Lib.Transition DrExec.Lib.Lists

variable {R F : Type} {w w' u : WorkerSet F} {job job' : Job F} {choice : Choice}

/-! ### What a worker owes -/

def Frame.call? : Frame (ℕ × R) → Option ℕ
  | .ready => none
  | .other (k, _) => some k

/-- The calls whose result frames of worker `i` were published and not delivered, or are still to be
written. -/
def ServedSet.owed (v : ServedSet R) (i : ℕ) : List ℕ :=
  (v.set.unread i).filterMap Frame.call? ++ v.unanswered i

/-- What the worker of call `k` owes, where the call may come to use it again. -/
def Phase.due (k : ℕ) : Phase F → Option (ℕ × List ℕ)
  | .leaving _ false (.error .closedPipe) => none
  | .taken i | .spawned i | .leased i | .sending i | .completing (some (i, false)) _
  | .leaving i false _ | .returning i _ => some (i, [])
  | .flushing i | .receiving i => some (i, [k])
  | _ => none

/-- A worker in the slot queue, or one that was not spawned, owes nothing; the worker of a call owes
what is due. -/
structure Paired (v : ServedSet R) : Prop where
  idle : ∀ i, some i ∈ v.set.slots → v.owed i = []
  due : ∀ k (job : Job (ℕ × R)), v.set.jobs[k]? = some job → ∀ i calls, job.phase.due k = some (i, calls) →
    v.owed i = calls
  fresh : ∀ i, v.set.workers.length ≤ i → v.owed i = []

theorem Phase.worker?_of_due {k i : ℕ} {calls : List ℕ} {phase : Phase F}
    (h : phase.due k = some (i, calls)) : phase.worker? = some i := by
  unfold Phase.due at h
  split at h <;> simp_all [Phase.worker?]

theorem ServedSet.owed_flushing (v : ServedSet R) (k i : ℕ) :
    (v.sends k (.flushing i)).owed i = v.owed i ++ [k] := by
  simp only [ServedSet.owed, ServedSet.sends, Function.update_self, List.append_assoc]

theorem ServedSet.owed_sends (v : ServedSet R) (k : ℕ) {phase : Phase (ℕ × R)} {i : ℕ}
    (hne : phase ≠ .flushing i) : (v.sends k phase).owed i = v.owed i := by
  cases phase with
  | flushing j =>
    have he : i ≠ j := fun he => hne (by rw [he])
    simp only [ServedSet.owed, ServedSet.sends, Function.update_of_ne he]
  | _ => rfl

theorem Paired.of_owed {v v' : ServedSet R} (h : Paired v) (howed : ∀ i, v'.owed i = v.owed i)
    (hslots : ∀ i, some i ∈ v'.set.slots → some i ∈ v.set.slots)
    (hjobs : ∀ (k : ℕ) (job : Job (ℕ × R)), v'.set.jobs[k]? = some job →
      v.set.jobs[k]? = some job ∨ job.phase = .begun)
    (hworkers : v'.set.workers.length = v.set.workers.length) : Paired v' := by
  refine ⟨fun i hmem => ?_, fun k job hk i calls hdue => ?_, fun i hi => ?_⟩
  · rw [howed, h.idle i (hslots i hmem)]
  · rcases hjobs k job hk with hk | hbegun
    · rw [howed, h.due k job hk i calls hdue]
    · simp [hbegun, Phase.due] at hdue
  · rw [howed, h.fresh i (hworkers ▸ hi)]

/-- A step of call `k` is seen by the call and its worker: another worker owes what it owed. -/
theorem Paired.of_job {v v' : ServedSet R} {k : ℕ} {job : Job (ℕ × R)} (job' : Job (ℕ × R))
    (h : Paired v) (hleased : Leased v.set) (hk : v.set.jobs[k]? = some job)
    (hjobs : v'.set.jobs = v.set.jobs.set k job')
    (howed : ∀ i, job.phase.worker? ≠ some i → v'.owed i = v.owed i)
    (hslots : ∀ i, some i ∈ v'.set.slots → some i ∈ v.set.slots ∨ v'.owed i = [])
    (hdue : ∀ i calls, job'.phase.due k = some (i, calls) → v'.owed i = calls)
    (hworkers : v.set.workers.length ≤ v'.set.workers.length) : Paired v' := by
  refine ⟨fun i hmem => ?_, fun j other hj i calls hcalls => ?_, fun i hi => ?_⟩
  · rcases hslots i hmem with hmem | hnone
    · rw [howed i fun hi => (hleased.alone hk hi).1 hmem, h.idle i hmem]
    · exact hnone
  · rw [hjobs, List.getElem?_set] at hj
    split_ifs at hj with he hlt
    · cases hj
      exact hdue i calls (he ▸ hcalls)
    · rw [howed i fun hi => ?_, h.due j other hj i calls hcalls]
      exact he ((hleased.alone hk hi).2 j other hj (Phase.worker?_of_due hcalls)).symm
  · rw [howed i fun hw => ?_, h.fresh i (hworkers.trans hi)]
    obtain ⟨worker, hworker⟩ := hleased.known hk hw
    have := (List.getElem?_eq_some_iff.mp hworker).1
    omega

theorem JobStep.workers (h : JobStep w job choice u job') :
    w.workers.length ≤ u.workers.length := by
  cases h with
  | spawns => simp
  | refusesSpawned i | terminates i => exact (w.length_alter i _).ge
  | reads => simp [WorkerSet.setWorker]
  | _ => exact le_rfl

/-- A call that flushes has just written, and changed nothing else. -/
theorem JobStep.flushing (h : JobStep w job choice u job') {i : ℕ} (hi : job'.phase = .flushing i) :
    job.phase = .sending i ∧ u = w := by
  cases h with
  | goes phase hlocal =>
    dsimp only at hi
    subst hi
    cases hlocal with
    | writes j hp => exact ⟨hp, rfl⟩
  | gives entry phase hgives =>
    dsimp only at hi
    generalize job.phase = before at hgives
    cases hgives with
    | freed after => cases after <;> simp [After.phase] at hi
    | _ => simp at hi
  | reads j worker read rest ready phase hw hf hreads =>
    dsimp only at hi
    generalize job.phase = before at hreads
    cases hreads <;> simp at hi
  | retires j after hp =>
    dsimp only at hi
    split_ifs at hi
  | _ => simp at hi

/-- A worker gets into the slot queue from a call that returns it. -/
theorem JobStep.returns (h : JobStep w job choice u job') {i : ℕ} (hmem : some i ∈ u.slots) :
    some i ∈ w.slots ∨ ∃ result, job.phase = .returning i result := by
  cases h with
  | takesSlot rest hp hs | takesWorker j rest hp hs => exact .inl (hs ▸ List.mem_cons_of_mem _ hmem)
  | gives entry phase hgives =>
    rcases List.mem_append.mp hmem with hmem | hmem
    · exact .inl hmem
    · generalize job.phase = before at hgives
      cases hgives with
      | worker j result =>
        obtain rfl : i = j := by simpa using hmem
        exact .inr ⟨result, rfl⟩
      | _ => simp at hmem
  | refusesSpawned | terminates => exact .inl (by simpa using hmem)
  | _ => exact .inl hmem

/-- **What is due after a step** of a call that neither hears its worker nor flushes was due before,
or is nothing, of a worker that it has just taken or spawned. -/
theorem JobStep.due (h : JobStep w job choice u job') (hp : job.phase.listens? = none)
    (hne : ∀ j, job'.phase ≠ .flushing j) {k i : ℕ} {calls : List ℕ}
    (hdue : job'.phase.due k = some (i, calls)) :
    job.phase.due k = some (i, calls) ∨
      calls = [] ∧ (some i ∈ w.slots ∨ w.workers.length ≤ i) ∨
      w.closed = false ∧ job.phase = .leaving i false (.error .closedPipe) := by
  cases h with
  | goes phase hlocal =>
    dsimp only at hdue hne
    cases hlocal with
    | reuses j hp' hc | flushes j hp' => rw [hp']; exact .inl hdue
    | isReady j hp' => simp [hp', Phase.listens?] at hp
    | writes j hp' => exact absurd rfl (hne j)
    | completesLeased j discarded completion now hp' =>
      rw [hp']
      cases discarded with
      | false =>
        unfold WorkerSet.complete at hdue
        split_ifs at hdue <;> exact .inl hdue
      | true => simp [Phase.due] at hdue
    | releases j result hp' hc =>
      rw [hp']
      obtain ⟨rfl, rfl⟩ : j = i ∧ [] = calls := by simpa [Phase.due] using hdue
      by_cases hr : result = .error .closedPipe
      · exact .inr (.inr ⟨hc, by rw [hr]⟩)
      · refine .inl ?_
        unfold Phase.due
        split <;> simp_all
    | _ => simp [Phase.due] at hdue
  | takesWorker j rest hp' hs =>
    obtain ⟨rfl, rfl⟩ : j = i ∧ [] = calls := by simpa [Phase.due] using hdue
    exact .inr (.inl ⟨rfl, .inl (by rw [hs]; exact List.mem_cons_self)⟩)
  | spawns hp' =>
    obtain ⟨rfl, rfl⟩ : w.workers.length = i ∧ [] = calls := by simpa [Phase.due] using hdue
    exact .inr (.inl ⟨rfl, .inr le_rfl⟩)
  | registers j hp' hc => rw [hp']; exact .inl hdue
  | gives entry phase hgives =>
    dsimp only at hdue
    generalize job.phase = before at hgives
    cases hgives with
    | freed after => cases after <;> simp [Phase.due, After.phase] at hdue
    | _ => simp [Phase.due] at hdue
  | reads j worker read rest ready phase hw hf hreads =>
    generalize job.phase = before at hreads hp
    cases hreads <;> simp [Phase.listens?] at hp
  | retires j after hp' =>
    dsimp only at hdue
    split_ifs at hdue <;> simp [Phase.due] at hdue
  | _ => simp [Phase.due] at hdue

/-- **The frame that a call receives answers its request**, and is all its worker owes. -/
theorem Paired.receives {v : ServedSet R} {u : WorkerSet (ℕ × R)} {k i : ℕ} {job : Job (ℕ × R)}
    {frame : Frame (ℕ × R)} {ready : Bool} (h : Paired v) (hgreeted : Greeted v)
    (hk : v.set.jobs[k]? = some job) (hp : job.phase = .receiving i)
    (hd : Delivers v.set u i frame ready) : (∃ result, frame = .other (k, result)) ∧
      (u.unread i).filterMap Frame.call? ++ v.unanswered i = [] := by
  have howed : v.owed i = [k] := h.due k job hk i [k] (by rw [hp]; rfl)
  unfold ServedSet.owed at howed
  rw [hd.head] at howed
  rcases frame with _ | ⟨call, result⟩
  · have hread := hgreeted.read (List.mem_of_getElem? hk) (i := i) (by rw [hp]; rfl)
    rw [hd.head] at hread
    exact absurd List.mem_cons_self hread
  · rw [List.filterMap_cons_some (show Frame.call? (.other (call, result)) = some call from rfl),
      List.cons_append] at howed
    obtain ⟨rfl, hrest⟩ := List.cons.inj howed
    exact ⟨⟨result, rfl⟩, hrest⟩

/-- A call that waits for a frame of worker `i`. -/
theorem Paired.hears {v : ServedSet R} {u : WorkerSet (ℕ × R)} {k i : ℕ} {job job' : Job (ℕ × R)}
    (h : Paired v) (hgreeted : Greeted v) (hk : v.set.jobs[k]? = some job)
    (hs : Hears v.set u i job.phase job'.phase) {j : ℕ} {calls : List ℕ}
    (hdue : job'.phase.due k = some (j, calls)) :
    (u.unread j).filterMap Frame.call? ++ v.unanswered j = calls := by
  have hold := h.due k job hk
  have hreceives : ∀ frame ready, job.phase = .receiving i → Delivers v.set u i frame ready →
      (u.unread i).filterMap Frame.call? ++ v.unanswered i = [] :=
    fun frame ready hp hd => (h.receives hgreeted hk hp hd).2
  generalize job.phase = before at hs hold hreceives
  generalize job'.phase = phase at hs hdue
  cases hs with
  | wasReady hsilent hready =>
    rw [hsilent.unread]
    exact hold j calls hdue
  | ready hd =>
    obtain ⟨rfl, rfl⟩ : i = j ∧ [] = calls := by simpa [Phase.due] using hdue
    have howed := hold i [] rfl
    unfold ServedSet.owed at howed
    rw [hd.head, List.filterMap_cons_none rfl] at howed
    exact howed
  | answer frame ready hready hd =>
    obtain ⟨rfl, rfl⟩ : i = j ∧ [] = calls := by simpa [Phase.due] using hdue
    exact hreceives frame ready rfl hd
  | _ => simp [Phase.due] at hdue

theorem Hears.unread {i : ℕ} {before phase : Phase F} (h : Hears w u i before phase) :
    (∀ j, j ≠ i → u.unread j = w.unread j) ∧ ∀ j, phase ≠ .flushing j := by
  cases h with
  | stops _ reason hs => exact ⟨fun j _ => by rw [hs.unread], by simp⟩
  | wasReady hs | failsStartup hs | death hs => exact ⟨fun j _ => by rw [hs.unread], by simp⟩
  | ready hd | unready frame ready hready hd | answer frame ready hready hd =>
    exact ⟨hd.unread, by simp⟩

theorem Phase.worker?_of_listens {i : ℕ} {phase : Phase F} (h : phase.listens? = some i) :
    phase.worker? = some i ∧ ∀ j result, phase ≠ .returning j result := by
  cases phase <;> simp_all [Phase.listens?, Phase.worker?]

theorem Paired.step {v v' : ServedSet R} (h : Paired v) (hgreeted : Greeted v)
    (hleased : Leased v.set) (hcut : Cut v.set) (hs : Serves v v') : Paired v' := by
  cases hs with
  | imports i set hpub hi =>
    refine h.of_owed (fun j => ?_) (fun j hmem => hpub.slots ▸ hmem)
      (fun k job hk => .inl (hpub.jobs ▸ hk)) hpub.workers
    unfold ServedSet.owed
    dsimp only
    rw [hpub.unread]
    split_ifs
    · simp [List.filterMap_append, Frame.call?]
    · rfl
  | answers i k result rest set hpub hi hcalls =>
    refine h.of_owed (fun j => ?_) (fun j hmem => hpub.slots ▸ hmem)
      (fun k job hk => .inl (hpub.jobs ▸ hk)) hpub.workers
    unfold ServedSet.owed
    dsimp only
    rw [hpub.unread]
    by_cases he : j = i
    · subst he
      rw [if_pos rfl, Function.update_self, hcalls]
      simp [List.filterMap_append, Frame.call?]
    · rw [if_neg he, Function.update_of_ne he]
  | passes set hpass =>
    refine h.of_owed (fun i => ?_) hpass.slots hpass.jobs hpass.workers
    unfold ServedSet.owed
    rw [hpass.silent.unread]
  | job k choice job job' u hk hstepJob =>
    have hstep := jobStep_of_stepJob hstepJob
    have hjobs := hstep.others.1
    have hworkers := hstep.workers
    have howed : ∀ i, ServedSet.owed { v with set := { u with jobs := u.jobs.set k job' } } i =
        (u.unread i).filterMap Frame.call? ++ v.unanswered i := fun _ => rfl
    cases hp : job.phase.listens? with
    | some i =>
      have hhears := hears_of_stepJob hstepJob hp
      obtain ⟨hunread, hne⟩ := hhears.unread
      obtain ⟨hworker, hnot⟩ := Phase.worker?_of_listens hp
      refine Paired.of_job job' h hleased hk ?_ (fun j hj => ?_) (fun j hmem => ?_)
        (fun j calls hdue => ?_) ?_
      · rw [ServedSet.set_sends, ← hjobs]
      · have he : j ≠ i := fun he => hj (he ▸ hworker)
        rw [ServedSet.owed_sends _ _ (hne j), howed, hunread j he, ServedSet.owed]
      · rw [ServedSet.set_sends] at hmem
        exact .inl ((hstep.returns hmem).resolve_right fun ⟨result, hr⟩ => hnot j result hr)
      · rw [ServedSet.owed_sends _ _ (hne j), howed]
        exact h.hears hgreeted hk hhears hdue
      · rw [ServedSet.set_sends]
        exact hworkers
    | none =>
      have hsilent := hstep.silent hp
      rw [hsilent.unread] at howed
      change ∀ i, _ = v.owed i at howed
      by_cases hflush : ∃ i, job'.phase = .flushing i
      · obtain ⟨i, hi⟩ := hflush
        obtain ⟨hsending, rfl⟩ := hstep.flushing hi
        rw [hi]
        have hbefore : v.owed i = [] := h.due k job hk i [] (by rw [hsending]; rfl)
        refine Paired.of_job job' h hleased hk rfl (fun j hj => ?_) (fun j hmem => .inl hmem)
          (fun j calls hdue => ?_) hworkers
        · rw [ServedSet.owed_sends, howed]
          intro he
          obtain rfl : i = j := by simpa using he
          exact hj (by rw [hsending]; rfl)
        · rw [hi] at hdue
          obtain ⟨rfl, rfl⟩ : i = j ∧ [k] = calls := by simpa [Phase.due] using hdue
          rw [ServedSet.owed_flushing, howed, hbefore, List.nil_append]
      · have hne : ∀ i, job'.phase ≠ .flushing i := fun i hi => hflush ⟨i, hi⟩
        refine Paired.of_job job' h hleased hk ?_ (fun i _ => ?_) (fun i hmem => ?_)
          (fun i calls hdue => ?_) ?_
        · rw [ServedSet.set_sends, ← hjobs]
        · rw [ServedSet.owed_sends _ _ (hne i), howed]
        · rw [ServedSet.set_sends] at hmem
          refine (hstep.returns hmem).imp_right fun ⟨result, hr⟩ => ?_
          rw [ServedSet.owed_sends _ _ (hne i), howed]
          exact h.due k job hk i [] (by rw [hr]; rfl)
        · rw [ServedSet.owed_sends _ _ (hne i), howed]
          rcases hstep.due hp hne hdue with hdue | ⟨rfl, hmem | hnew⟩ | ⟨hopen, hclosed⟩
          · exact h.due k job hk i calls hdue
          · exact h.idle i hmem
          · exact h.fresh i hnew
          · have := hcut.calls job (List.mem_of_getElem? hk) i hclosed
            rw [hopen] at this
            cases this
        · rw [ServedSet.set_sends]
          exact hworkers

/-! ### What a call interprets -/

def interpretedFrame : Result F → Option (Frame F)
  | .ok (.interpreted frame) => some frame
  | _ => none

/-- The frame a call has interpreted. -/
def Phase.frame? : Phase F → Option (Frame F)
  | .completing _ completion => interpretedFrame (.ok completion)
  | phase => phase.outcome?.bind interpretedFrame

theorem interpretedFrame_complete (startedAt now : ℤ) (completion : Completion F) :
    interpretedFrame (WorkerSet.complete startedAt now completion) = none ∨
      interpretedFrame (WorkerSet.complete startedAt now completion) =
        interpretedFrame (.ok completion) := by
  unfold WorkerSet.complete
  split_ifs
  · exact .inl rfl
  · exact .inr rfl

/-- A call interprets the frame that it received, and no other. -/
theorem JobStep.frame (h : JobStep w job choice u job') {frame : Frame F}
    (hf : job'.phase.frame? = some frame) : job.phase.frame? = some frame ∨
      ∃ i, job.phase = .receiving i ∧ job'.phase = .completing (some (i, false)) (.interpreted frame) := by
  cases h with
  | goes phase hlocal =>
    dsimp only at hf
    cases hlocal with
    | completes completion now hp =>
      rw [hp]
      rcases interpretedFrame_complete job.startedAt now completion with he | he
      · exact absurd (he.symm.trans hf) (by simp)
      · exact .inl (he.symm.trans hf)
    | completesLeased i discarded completion now hp =>
      rw [hp]
      rcases interpretedFrame_complete job.startedAt now completion with he | he
      · exact absurd (he.symm.trans hf) (by simp)
      · exact .inl (he.symm.trans hf)
    | exits i discarded result hp | releases i result hp => rw [hp]; exact .inl hf
    | _ => simp [Phase.frame?, Phase.outcome?, Phase.result?, After.result?, interpretedFrame] at hf
  | gives entry phase hgives =>
    dsimp only at hf
    generalize job.phase = before at hgives
    cases hgives with
    | failed => simp [Phase.frame?, interpretedFrame] at hf
    | worker i result => exact .inl hf
    | freed after =>
      cases after with
      | refused => simp [Phase.frame?, After.phase, interpretedFrame] at hf
      | exited result => exact .inl hf
  | reads i worker read rest ready phase hw hfr hreads =>
    dsimp only at hf
    generalize job.phase = before at hreads
    cases hreads with
    | answer found =>
      obtain rfl : found = frame := by simpa [Phase.frame?, interpretedFrame] using hf
      exact .inr ⟨i, rfl, rfl⟩
    | _ => simp [Phase.frame?, Phase.outcome?, Phase.result?, interpretedFrame] at hf
  | retires i after hp =>
    rw [hp]
    dsimp only at hf
    split_ifs at hf <;> exact .inl hf
  | terminates i after hp => rw [hp]; exact .inl hf
  | _ => simp [Phase.frame?, Phase.outcome?, Phase.result?, After.result?, interpretedFrame] at hf

/-- Every frame interpreted for a call answers its own request. -/
def Answered (v : ServedSet R) : Prop :=
  ∀ k (job : Job (ℕ × R)), v.set.jobs[k]? = some job → ∀ frame, job.phase.frame? = some frame →
    ∃ result, frame = .other (k, result)

theorem Answered.step {v v' : ServedSet R} (h : Answered v) (hpaired : Paired v)
    (hgreeted : Greeted v) (hs : Serves v v') : Answered v' := by
  cases hs with
  | imports i set hpub hi => exact fun k job hk => h k job (hpub.jobs ▸ hk)
  | answers i k result rest set hpub hi hcalls => exact fun k job hk => h k job (hpub.jobs ▸ hk)
  | passes set hpass =>
    intro k job hk frame hf
    rcases hpass.jobs k job hk with hk | hbegun
    · exact h k job hk frame hf
    · simp [hbegun, Phase.frame?, Phase.outcome?, Phase.result?] at hf
  | job k choice job job' u hk hstepJob =>
    have hstep := jobStep_of_stepJob hstepJob
    intro j other hj frame hf
    rw [ServedSet.set_sends] at hj
    dsimp only at hj
    rw [hstep.others.1, List.getElem?_set] at hj
    split_ifs at hj with he hlt
    · cases hj
      subst he
      rcases hstep.frame hf with hf | ⟨i, hp, hp'⟩
      · exact h k job hk frame hf
      · have hhears := hears_of_stepJob hstepJob (i := i) (by rw [hp]; rfl)
        rw [hp, hp'] at hhears
        cases hhears with
        | answer _ ready hready hd => exact (hpaired.receives hgreeted hk hp hd).1
    · exact h j other hj frame hf

/-! ### Every run -/

theorem paired_of_reach {width : ℕ} {v : ServedSet R} (h : Reachable ServedSet.step (.init width) v) :
    Paired v ∧ Greeted v ∧ Answered v := by
  refine h.invariant (I := fun v => Paired v ∧ Greeted v ∧ Answered v) ⟨?_, ?_, ?_⟩
    fun v _ v' hr ⟨hpaired, hgreeted, hanswered⟩ _ hs => ?_
  · refine ⟨fun i _ => rfl, fun k job hk => ?_, fun i _ => rfl⟩
    simp [ServedSet.init, WorkerSet.init] at hk
  · exact ⟨fun i => le_rfl, fun job hmem => by simp [ServedSet.init, WorkerSet.init] at hmem⟩
  · intro k job hk
    simp [ServedSet.init, WorkerSet.init] at hk
  · have hset := ServedSet.set_of_reach hr
    have hserves := ServedSet.serves_of_step hs
    exact ⟨hpaired.step hgreeted (leased_of_reach hset) (cut_of_reach hset) hserves,
      hgreeted.step hserves, hanswered.step hpaired hgreeted hserves⟩

/-- **Requests and results stay paired.** In every run, with stops, deaths, respawns and close at
any point, the frame that a call interprets is a result for its own request; and a worker in the
slot queue has no unanswered request and no undelivered result frame. -/
theorem results_paired (width : ℕ) (v : ServedSet R)
    (h : Reachable ServedSet.step (.init width) v) :
    (∀ k (job : Job (ℕ × R)), v.set.jobs[k]? = some job → ∀ frame, job.phase.frame? = some frame →
      ∃ result, frame = .other (k, result)) ∧
    ∀ i, some i ∈ v.set.slots → v.unanswered i = [] ∧
      ∀ worker, v.set.workers[i]? = some worker →
        ∀ call result, some (.other (call, result)) ∉ worker.frames := by
  obtain ⟨hpaired, -, hanswered⟩ := paired_of_reach h
  refine ⟨hanswered, fun i hmem => ?_⟩
  obtain ⟨hresults, hnone⟩ := List.append_eq_nil_iff.mp (hpaired.idle i hmem)
  refine ⟨hnone, fun worker hw call result hframe => ?_⟩
  have hunread : (.other (call, result) : Frame (ℕ × R)) ∈ v.set.unread i := by
    unfold WorkerSet.unread
    rw [hw]
    exact List.reduceOption_mem_iff.mpr hframe
  have hnot := List.filterMap_eq_nil_iff.mp hresults _ hunread
  simp [Frame.call?] at hnot

/-- A call stopped while its worker runs its request, which the worker answers all the same, and a
call after it. -/
def stoppedThenServed : List (Action (ℕ × ℕ)) :=
  [.runBlocking none true 0, .job 0 .go, .job 0 .go, .job 0 .go, .job 0 (.spawn {}), .job 0 .go,
    .answer 0 .ready, .job 0 .go, .job 0 (.write false), .job 0 .go, .job 0 (.stop .cancelled),
    .answer 0 (.other (0, 7)), .job 0 (.clock 1), .job 0 .go, .job 0 .go, .job 0 .go, .job 0 .go,
    .runBlocking none false 2, .job 1 .go, .job 1 .go, .job 1 .go, .job 1 (.spawn {}), .job 1 .go,
    .answer 1 .ready, .job 1 .go, .job 1 (.write false), .job 1 .go, .answer 1 (.other (1, 8)),
    .job 1 .go, .job 1 (.clock 3), .job 1 .go, .job 1 .go]

theorem stoppedThenServed_paired : ∃ v : ServedSet ℕ,
    exec ServedSet.step stoppedThenServed (.init 1) = some v ∧ v.set.slots = [some 1] ∧
      (∃ job, v.set.jobs[1]? = some job ∧ job.phase.frame? = some (.other (1, 8)) ∧
        ∃ result, Frame.other (1, 8) = .other (1, result)) ∧ v.unanswered 1 = [] := by
  obtain ⟨v, hrun, hslots, job, hjob, hframe⟩ : ∃ v : ServedSet ℕ,
      exec ServedSet.step stoppedThenServed (.init 1) = some v ∧ v.set.slots = [some 1] ∧
        ∃ job, v.set.jobs[1]? = some job ∧ job.phase.frame? = some (.other (1, 8)) :=
    ⟨_, rfl, rfl, _, rfl, rfl⟩
  have hpaired := results_paired 1 v (.of_exec stoppedThenServed (fun _ _ => trivial) hrun)
  exact ⟨v, hrun, hslots, ⟨job, hjob, hframe, hpaired.1 1 job hjob _ hframe⟩,
    (hpaired.2 1 (by rw [hslots]; exact List.mem_singleton_self _)).1⟩

end DrExec.Execution.WorkerPool
