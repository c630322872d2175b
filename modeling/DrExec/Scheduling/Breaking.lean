import DrExec.Scheduling.BatchSteps

/-! # After a break

A break drops the queue and closes the intake for good: from then on no job is started
(`surfaced_of_reach`), a driver is handed what it can claim and then sees the break (`surfaces`), and the
scheduler has more residents than jobs and completions, since it still counts the ones that the
break dropped (`Short`). So a batch, which ends normally only without residents, does not end
normally after a break (`not_returned_of_broken`). -/

namespace DrExec.Scheduling.Scheduler.ExecutionScheduler

open DrExec.Lib.Transition DrExec.Lib.Lists

variable {Job Ctx Done Fault : Type} {s s' u : ExecutionScheduler Job Ctx Done Fault}
  {action : Action Job Ctx Done Fault} {failure : Fault}

/-! ### What a break leaves -/

/-- The queue at the moment at which a section would break the scheduler. -/
def queuedAt (action : Action Job Ctx Done Fault) (s : ExecutionScheduler Job Ctx Done Fault) :
    List (Admitted Job Ctx) :=
  match action with
  | .admitJob job context _ => (s.enqueue job context).pending
  | _ => s.pending

/-- What a section does in a broken scheduler: it starts no job, and only a taking, a release or a
discard removes a completion. -/
structure Broke (s s' : ExecutionScheduler Job Ctx Done Fault) : Prop where
  broken : s'.broken = s.broken
  cancelled : s.cancelled ⊆ s'.cancelled
  history : ∃ events, s'.history = s.history ++ events ∧ (∀ t job, .called t job ∉ events) ∧
    ∀ completion ∈ s.ready, completion ∈ s'.ready ∨
      (∃ driver, .delivered driver completion ∈ events) ∨ .released completion.ticket ∈ events ∨
        .discarded completion.ticket ∈ events

/-- A section that adds no event and takes no completion. -/
theorem Broke.of_eq (hb : s'.broken = s.broken) (hc : s.cancelled ⊆ s'.cancelled)
    (hh : s'.history = s.history) (hy : s.ready ⊆ s'.ready) : s.Broke s' :=
  ⟨hb, hc, [], by simp [hh], by simp, fun _ hmem => .inl (hy hmem)⟩

theorem Broke.dropCompletions (s : ExecutionScheduler Job Ctx Done Fault) :
    s.Broke s.dropCompletions := by
  refine ⟨rfl, List.Subset.refl _, _, rfl, by simp, fun completion hmem => ?_⟩
  exact .inr (.inr (.inr (List.mem_map.mpr ⟨completion, hmem, rfl⟩)))

theorem Broke.taken (s : ExecutionScheduler Job Ctx Done Fault) (driver : ℕ)
    (ownedBy : Option (Ctx → Bool)) :
    s.Broke (recordTaken driver (s.takeCompletionNowait ownedBy).1
      (s.takeCompletionNowait ownedBy).2) := by
  rcases s.takeCompletionNowait_cases ownedBy with ⟨completion, l₁, l₂, hy, -, -, he⟩ | ⟨-, he⟩
  · rw [he]
    refine ⟨rfl, List.Subset.refl _, [.delivered driver completion], rfl, by simp, ?_⟩
    intro other hmem
    rw [hy, List.mem_append, List.mem_cons] at hmem
    rcases hmem with hmem | rfl | hmem
    · exact .inl (List.mem_append_left _ hmem)
    · exact .inr (.inl ⟨driver, by simp⟩)
    · exact .inl (List.mem_append_right _ hmem)
  · rw [he]
    unfold noneUnlessBroken
    cases s.broken <;> exact .of_eq rfl (List.Subset.refl _) rfl (List.Subset.refl _)

/-- **One section after a break.** -/
theorem Broke.step (hok : s.WorkersOk) (hb : s.broken.isSome) (h : step action s = some s') :
    s.Broke s' := by
  obtain ⟨hclosed, hpending⟩ := hok.broken_empty hb
  have hrefl : s.cancelled ⊆ s.cancelled := List.Subset.refl _
  cases outcome_of_step h with
  | unchanged => exact .of_eq rfl hrefl rfl (List.Subset.refl _)
  | admitJob job context start hopen => rw [hclosed] at hopen; cases hopen
  | takes worker =>
    rcases s.workerTakes_cases worker with ⟨admitted, rest, hnone, -⟩ | ⟨-, he⟩
    · simp [hnone] at hb
    · rw [he]
      exact .of_eq rfl hrefl rfl (List.Subset.refl _)
  | finishes worker admitted result =>
    cases result with
    | ok completed =>
      rw [workerFinishes_ok]
      exact ⟨rfl, hrefl, _, rfl, by simp, fun _ hmem => .inl (List.mem_append_left _ hmem)⟩
    | error failure =>
      rcases s.workerFinishes_error_cases worker admitted failure with ⟨-, he⟩ | ⟨hnone, -⟩
      · rw [he]
        exact ⟨rfl, hrefl, _, rfl, by simp, fun _ hmem => .inl hmem⟩
      · simp [hnone] at hb
  | taken driver ownedBy => exact .taken s driver ownedBy
  | released ownedBy =>
    rw [releaseOwned_eq]
    refine ⟨rfl, hrefl, _, rfl, by simp, fun completion hmem => ?_⟩
    by_cases hown : ownedBy completion.context = true
    · exact .inr (.inr (.inl (List.mem_map.mpr ⟨completion, by simp [hmem, hown], rfl⟩)))
    · exact .inl (by simp [hmem, hown])
  | cancelled expired =>
    exact .of_eq rfl (List.subset_append_right _ _) rfl (List.Subset.refl _)
  | closed => exact .of_eq rfl hrefl rfl (List.Subset.refl _)
  | shutdownBegin => exact .of_eq rfl hrefl rfl (List.Subset.refl _)
  | shutdownEnd call joining =>
    have hdrop := Broke.dropCompletions ({ s with workers := [], pending := [] } :
      ExecutionScheduler Job Ctx Done Fault)
    unfold shutdownEnd
    dsimp only
    split_ifs
    · exact .of_eq rfl hrefl rfl (List.Subset.refl _)
    · exact ⟨hdrop.broken, hdrop.cancelled, hdrop.history⟩
  | discarded =>
    have hdrop := Broke.dropCompletions s
    exact ⟨hdrop.broken, hdrop.cancelled, hdrop.history⟩

theorem Broke.trans (h : s.Broke s') (h' : s'.Broke u) : s.Broke u := by
  obtain ⟨events, hhistory, hcalls, hready⟩ := h.history
  obtain ⟨events', hhistory', hcalls', hready'⟩ := h'.history
  refine ⟨h'.broken.trans h.broken, fun _ hmem => h'.cancelled (h.cancelled hmem),
    events ++ events', by rw [hhistory', hhistory, List.append_assoc], ?_, ?_⟩
  · intro t job hmem
    rcases List.mem_append.mp hmem with hmem | hmem
    · exact hcalls t job hmem
    · exact hcalls' t job hmem
  · intro completion hmem
    have hleft : ∀ l l' : List (Event Job Ctx Done), l ⊆ l' →
        ((∃ driver, .delivered driver completion ∈ l) ∨ .released completion.ticket ∈ l ∨
          .discarded completion.ticket ∈ l) →
        (∃ driver, .delivered driver completion ∈ l') ∨ .released completion.ticket ∈ l' ∨
          .discarded completion.ticket ∈ l' := by
      rintro l l' hsub (⟨driver, hd⟩ | hd | hd)
      · exact .inl ⟨driver, hsub hd⟩
      · exact .inr (.inl (hsub hd))
      · exact .inr (.inr (hsub hd))
    rcases hready completion hmem with hkept | hgone
    · exact (hready' completion hkept).imp id (hleft _ _ (List.subset_append_right _ _))
    · exact .inr (hleft _ _ (List.subset_append_left _ _) hgone)

/-- **A run after a break.** -/
theorem broke_of_reach (hok : s.WorkersOk) (hb : s.broken.isSome) (h : Reachable step s u) :
    s.Broke u ∧ u.WorkersOk := by
  refine h.invariant (I := fun v => s.Broke v ∧ v.WorkersOk)
    ⟨.of_eq rfl (List.Subset.refl _) rfl (List.Subset.refl _), hok⟩ fun v a w _ hv _ hs => ?_
  have hbroken : v.broken.isSome := by rw [hv.1.broken]; exact hb
  exact ⟨hv.1.trans (.step hv.2 hbroken hs), hv.2.step hs⟩

/-! ### The break itself -/

/-- Only an admission and the end of a call can break. -/
theorem broken_of_other (h : step action s = some s') :
    s'.broken = s.broken ∨ (∃ job context start, action = .admitJob job context start) ∨
      ∃ worker failure, action = .finish worker (.error failure) := by
  cases action with
  | admitJob job context start => exact .inr (.inl ⟨job, context, start, rfl⟩)
  | finish worker result =>
    cases result with
    | error failure => exact .inr (.inr ⟨worker, failure, rfl⟩)
    | ok completed =>
      simp only [step] at h
      split at h
      · cases h
        exact .inl rfl
      · cases h
  | takeAdmitted worker =>
    simp only [step] at h
    split at h
    · split_ifs at h
      cases h
      rcases s.workerTakes_cases worker with ⟨admitted, rest, -, -, he⟩ | ⟨-, he⟩ <;>
        exact .inl (by rw [he])
    · cases h
  | takeCompletionNowait driver ownedBy =>
    cases h
    exact .inl (Broke.taken s driver ownedBy).broken
  | takeCompletion driver =>
    simp only [step] at h
    split_ifs at h
    cases h
    exact .inl (Broke.taken s driver none).broken
  | releaseOwned ownedBy =>
    cases h
    exact .inl (by rw [releaseOwned_eq])
  | cancelAll =>
    cases h
    exact .inl (by rw [cancelAll, cancelTokens_eq]; rfl)
  | expire =>
    cases h
    exact .inl (by rw [expire_eq])
  | closeIntake => cases h; exact .inl rfl
  | shutdownBegin preserveCompletions => cases h; exact .inl rfl
  | shutdownEnd index =>
    simp only [step] at h
    split at h
    · split_ifs at h
      cases h
      unfold shutdownEnd
      dsimp only
      split_ifs <;> exact .inl rfl
    · cases h
  | discardCompletions =>
    simp only [step] at h
    split_ifs at h
    cases h
    exact .inl rfl

/-- **A break cancels the queue**: the token of every job that was queued, and of the one whose
worker could not start. -/
theorem cancelled_of_break (h : step action s = some s') (hb : s.broken = none)
    (hb' : s'.broken = some failure) :
    ∀ admitted ∈ s.queuedAt action, admitted.cancellation ∈ s'.cancelled := by
  intro queued hmem
  have hne : s'.broken ≠ s.broken := by simp [hb, hb']
  rcases broken_of_other h with he | ⟨job, context, start, rfl⟩ | ⟨worker, fault, rfl⟩
  · exact absurd he hne
  · cases h
    rcases s.admit_cases job context start with ⟨he, -⟩ | ⟨-, -, he⟩
    · exact absurd (by rw [he]) hne
    · have hq : (s.enqueue job context).broken = none := by
        obtain ⟨cancelled, hq⟩ := s.enqueue_eq job context
        rw [hq]
        exact hb
      rw [he] at hb' ⊢
      rcases (s.enqueue job context).ensureWorker_cases start with
        ⟨-, he⟩ | ⟨fault, -, he⟩ | ⟨-, -, he⟩
      · rw [he] at hb'
        cases hq.symm.trans hb'
      · rw [he, breakWith_of_unbroken _ fault hq]
        refine List.mem_append_left _ (List.mem_reverse.mpr ?_)
        exact List.mem_map.mpr ⟨queued, hmem, rfl⟩
      · rw [he] at hb'
        cases hq.symm.trans hb'
  · simp only [step] at h
    split at h
    · next admitted _ =>
      cases h
      rcases s.workerFinishes_error_cases worker admitted fault with ⟨hsome, -⟩ | ⟨-, he⟩
      · simp [hb] at hsome
      · rw [he]
        refine List.mem_append_left _ (List.mem_reverse.mpr ?_)
        exact List.mem_map.mpr ⟨queued, hmem, rfl⟩
    · cases h

/-- **A break surfaces**: a driver takes the oldest completion it can claim, and without one the
break is raised to it, whatever others could claim. -/
theorem surfaces (hb : s.broken = some failure) (ownedBy : Option (Ctx → Bool)) :
    (∃ completion l₁ l₂ s', s.ready = l₁ ++ completion :: l₂ ∧
      (∀ owned, ownedBy = some owned → owned completion.context = true) ∧
      (∀ earlier ∈ l₁, ∃ owned, ownedBy = some owned ∧ owned earlier.context = false) ∧
      s.takeCompletionNowait ownedBy = (.ok (some completion), s') ∧ s'.ready = l₁ ++ l₂) ∨
      ((∀ completion ∈ s.ready, ∃ owned, ownedBy = some owned ∧ owned completion.context = false) ∧
        s.takeCompletionNowait ownedBy = (.error failure, s)) := by
  rcases s.takeCompletionNowait_cases ownedBy with
    ⟨completion, l₁, l₂, hy, hown, hearlier, he⟩ | ⟨hnone, he⟩
  · exact .inl ⟨completion, l₁, l₂, _, hy, hown, hearlier, he, rfl⟩
  · refine .inr ⟨hnone, ?_⟩
    rw [he, noneUnlessBroken, hb]

/-- What holds in every state `u` after the break that led to `s'`. -/
structure Surfaced (failure : Fault) (s' u : ExecutionScheduler Job Ctx Done Fault) : Prop where
  broken : u.broken = some failure
  intake : u.intakeClosed = true
  refuses : ∀ job context start, u.admitJob job context start = (.intakeClosed, u)
  dropped : u.pending = [] ∧ u.takeAdmitted = (none, u)
  cancelled : s'.cancelled ⊆ u.cancelled
  history : ∃ events, u.history = s'.history ++ events ∧ (∀ t job, .called t job ∉ events) ∧
    ∀ completion ∈ s'.ready, completion ∈ u.ready ∨
      (∃ driver, .delivered driver completion ∈ events) ∨ .released completion.ticket ∈ events ∨
        .discarded completion.ticket ∈ events
  claims : ∀ ownedBy : Option (Ctx → Bool),
    (∃ completion l₁ l₂ v, u.ready = l₁ ++ completion :: l₂ ∧
      (∀ owned, ownedBy = some owned → owned completion.context = true) ∧
      (∀ earlier ∈ l₁, ∃ owned, ownedBy = some owned ∧ owned earlier.context = false) ∧
      u.takeCompletionNowait ownedBy = (.ok (some completion), v) ∧ v.ready = l₁ ++ l₂) ∨
      ((∀ completion ∈ u.ready, ∃ owned, ownedBy = some owned ∧ owned completion.context = false) ∧
        u.takeCompletionNowait ownedBy = (.error failure, u))
  wakes : u.takeWait = true
  never : u.takeCompletion.1 ≠ .ok none

/-- **A break stays**, in every run after it. -/
theorem surfaced_of_reach (hok : s.WorkersOk) (hb : s.broken = some failure)
    (h : Reachable step s u) : Surfaced failure s u := by
  obtain ⟨hbroke, huok⟩ := broke_of_reach hok (by simp [hb]) h
  have hub : u.broken = some failure := hbroke.broken.trans hb
  obtain ⟨hclosed, hpending⟩ := huok.broken_empty (by simp [hub])
  refine ⟨hub, hclosed, fun job context start => ?_, ⟨hpending, ?_⟩, hbroke.cancelled,
    hbroke.history, surfaces hub, ?_, ?_⟩
  · rw [admitJob, if_pos hclosed]
  · simp [takeAdmitted, hub]
  · simp [takeWait, hub]
  · rcases surfaces hub none with ⟨completion, l₁, l₂, v, -, -, -, he, -⟩ | ⟨-, he⟩ <;>
      simp [takeCompletion, he]

/-! ### Residents that nothing stands for -/

/-- A broken scheduler has more residents than queued jobs, calls and completions. -/
def Short (s : ExecutionScheduler Job Ctx Done Fault) : Prop :=
  s.broken.isSome → (s.pending.length + s.running + s.ready.length : ℤ) < s.residents

theorem Short.congr (h : s.Short) (hb : s'.broken = s.broken) (hp : s'.pending = s.pending)
    (hg : s'.running = s.running) (hy : s'.ready = s.ready) (hr : s'.residents = s.residents) :
    s'.Short := by
  unfold Short
  rw [hb, hp, hg, hy, hr]
  exact h

/-- A break of a scheduler in which a job is resident that is neither running nor buffered. -/
theorem Short.breakWith (h : s.Short) (hge : (s.running + s.ready.length : ℤ) < s.residents)
    (failure : Fault) : (s.breakWith failure).Short := by
  cases hb : s.broken with
  | some _ => rw [breakWith_of_broken s failure (by simp [hb])]; exact h
  | none =>
    rw [breakWith_of_unbroken s failure hb]
    intro _
    simpa using hge

theorem Short.admitJob (h : s.Short) (hacc : s.Accounted) (job : Job) (context : Ctx)
    (start : Option Fault) : (s.admitJob job context start).2.Short := by
  rcases s.admit_cases job context start with ⟨he, -⟩ | ⟨-, -, he⟩
  · rw [he]
    exact h
  · have hge := hacc.residents_ge
    obtain ⟨cancelled, hq⟩ := s.enqueue_eq job context
    have hqueued : (s.enqueue job context).Short := by
      rw [hq]
      intro hb
      have := h hb
      simp only [List.length_append, List.length_singleton]
      omega
    rw [he]
    rcases (s.enqueue job context).ensureWorker_cases start with
      ⟨-, he⟩ | ⟨failure, -, he⟩ | ⟨-, -, he⟩
    · rw [he]
      exact hqueued.congr rfl rfl rfl rfl rfl
    · rw [he]
      refine (hqueued.breakWith ?_ failure).congr rfl rfl rfl rfl rfl
      rw [hq]
      dsimp only
      omega
    · rw [he]
      exact hqueued.congr rfl rfl rfl rfl rfl

/-- A worker thread that raises takes its job with it. -/
theorem Short.worker (h : s.Short) (hacc : s.Accounted) (ha : IsWorker action)
    (hs : step action s = some s') : s'.Short := by
  have hge := hacc.residents_ge
  rcases ha with ⟨worker, rfl⟩ | ⟨worker, result, rfl⟩
  · simp only [step] at hs
    split at hs
    · split_ifs at hs
      cases hs
      rcases s.workerTakes_cases worker with ⟨admitted, rest, hnone, -, he⟩ | ⟨-, he⟩
      · rw [he]
        intro hb
        simp [hnone] at hb
      · rw [he]
        exact h
    · cases hs
  · simp only [step] at hs
    split at hs
    · next admitted _ =>
      cases hs
      cases result with
      | ok completed =>
        rw [workerFinishes_ok]
        intro hb
        have := h hb
        simp only [List.length_append, List.length_singleton]
        omega
      | error failure =>
        rcases s.workerFinishes_error_cases worker admitted failure with ⟨hb, he⟩ | ⟨-, he⟩
        · rw [he]
          intro _
          have := h hb
          dsimp only
          omega
        · rw [he]
          intro _
          simp only [List.length_nil]
          omega
    · cases hs

theorem Short.taken (h : s.Short) (driver : ℕ) (ownedBy : Option (Ctx → Bool)) :
    (recordTaken driver (s.takeCompletionNowait ownedBy).1
      (s.takeCompletionNowait ownedBy).2).Short := by
  rcases s.takeCompletionNowait_cases ownedBy with ⟨completion, l₁, l₂, hy, -, -, he⟩ | ⟨-, he⟩
  · rw [he]
    intro hb
    have := h hb
    rw [hy] at this
    simp only [recordTaken, handOver, popToken, announceChange, record, List.length_append,
      List.length_cons] at this ⊢
    omega
  · rw [he]
    unfold noneUnlessBroken
    cases s.broken <;> exact h

theorem Short.releaseOwned (h : s.Short) (ownedBy : Ctx → Bool) : (s.releaseOwned ownedBy).Short := by
  rw [releaseOwned_eq]
  intro hb
  have := h hb
  have hlen := s.ready.length_eq_length_filter_add fun completion => ownedBy completion.context
  dsimp only
  omega

/-- A broken scheduler that is short has residents. -/
theorem Short.hasResidents (h : s.Short) (hok : s.WorkersOk) (hb : s.broken.isSome) :
    s.hasResidents = true := by
  have := h hb
  have hrun := hok.running_eq
  simp only [ExecutionScheduler.hasResidents, decide_eq_true_eq]
  omega

end DrExec.Scheduling.Scheduler.ExecutionScheduler

namespace DrExec.Scheduling.Batch

open DrExec.Lib.Transition Scheduler ExecutionScheduler

variable {Job Done Fault : Type}

namespace RunBatch

variable {b b' : RunBatch Job Done Fault} {action : BatchAction Done Fault}

/-! ### A batch after a break -/

/-- **A batch that returns has nothing left that could break.** -/
structure Honest (b : RunBatch Job Done Fault) : Prop where
  short : b.phase.ending? = none → b.scheduler.Short
  returned : b.phase.ending? = some .returned →
    b.scheduler.broken = none ∧ b.scheduler.pending = [] ∧ b.scheduler.running = 0

/-- With nothing queued and nothing running, a worker thread can only return. -/
theorem idle_worker {batchAction : BatchAction Done Fault} {section' : Action Job Unit Done Fault}
    {s s' : ExecutionScheduler Job Unit Done Fault} (hok : s.WorkersOk)
    (ha : batchAction.worker? = some section') (hb : s.broken = none) (hp : s.pending = [])
    (hr : s.running = 0) (hs : ExecutionScheduler.step section' s = some s') :
    s'.broken = none ∧ s'.pending = [] ∧ s'.running = 0 := by
  rcases BatchAction.isWorker ha with ⟨worker, rfl⟩ | ⟨worker, result, rfl⟩
  · simp only [ExecutionScheduler.step] at hs
    split at hs
    · split_ifs at hs
      cases hs
      rcases s.workerTakes_cases worker with ⟨admitted, rest, -, hne, -⟩ | ⟨-, he⟩
      · rw [hp] at hne
        cases hne
      · rw [he]
        exact ⟨hb, hp, hr⟩
    · cases hs
  · simp only [ExecutionScheduler.step] at hs
    split at hs
    · next admitted hw =>
      have hcalls : admitted ∈ s.calls :=
        List.mem_filterMap.mpr ⟨_, List.mem_of_getElem? hw, rfl⟩
      have hrun := hok.running_eq
      have hpos := List.length_pos_of_mem hcalls
      omega
    · cases hs

theorem Honest.effect (h : Honest b) (hsingle : Single b) (hok : b.scheduler.WorkersOk)
    (hacc : b.scheduler.Accounted) (heff : Effect b action b') : Honest b' := by
  have hge := hacc.residents_ge
  have hrun := hok.running_eq
  -- Within the loop the scheduler is short, and nothing has been returned.
  have hloop : ∀ (phase : BatchPhase Job Fault) {scheduler}, phase.ending? = none →
      scheduler.Short → ∀ c : RunBatch Job Done Fault, c.phase = phase →
      c.scheduler = scheduler → Honest c := by
    rintro phase scheduler hphase hshort c rfl rfl
    exact ⟨fun _ => hshort, fun hreturned => absurd (hphase.symm.trans hreturned) (by simp)⟩
  -- In the `finally` block only a return promises anything.
  have hfinally : ∀ ending : BatchEnding Fault, b.phase.ending? = some ending →
      ∀ c : RunBatch Job Done Fault, c.phase.ending? = some ending →
      c.scheduler.broken = b.scheduler.broken → (b.scheduler.pending = [] → c.scheduler.pending = []) →
      c.scheduler.running = b.scheduler.running → Honest c := by
    intro ending hending c hc hbroken hpending hrunning
    refine ⟨fun hnone => absurd (hc.symm.trans hnone) (by simp), fun hreturned => ?_⟩
    obtain ⟨hb, hp, hr⟩ := h.returned (hending.trans (hc.symm.trans hreturned))
    exact ⟨hbroken.trans hb, hpending hp, hrunning.trans hr⟩
  cases heff with
  | worker ha hs =>
    refine ⟨fun hphase => (h.short hphase).worker hacc (BatchAction.isWorker ha) hs,
      fun hreturned => ?_⟩
    obtain ⟨hb, hp, hr⟩ := h.returned hreturned
    exact idle_worker hok ha hb hp hr hs
  | pullsCarried job _ hp | pulls job rest _ hp | exhausts _ hp | full _ hp | goesOn _ hp
  | resumes hp => exact hloop _ rfl (h.short (by rw [hp]; rfl)) _ rfl rfl
  | admits job start hp =>
    have hshort := (h.short (by rw [hp]; rfl)).admitJob hacc job () start
    rcases b.admitPulled_cases job start (hsingle.room job hp) with ⟨-, he⟩ | ⟨-, he⟩ <;> rw [he]
    · exact hloop .intake rfl hshort _ rfl rfl
    · exact hloop .checkEnd rfl hshort _ rfl rfl
  | ends _ hp _ hnone =>
    have hshort := h.short (by rw [hp]; rfl)
    have hresidents : b.scheduler.residents ≤ 0 := by simpa [hasResidents] using hnone
    refine ⟨fun hphase => (by cases hphase), fun _ => ⟨?_, ?_, ?_⟩⟩
    · by_contra hb
      have := hshort (Option.isSome_iff_ne_none.mpr hb)
      omega
    · rw [← List.length_eq_zero_iff]
      dsimp only
      omega
    · dsimp only
      omega
  | takes _ hp hwait =>
    have hshort := h.short (by rw [hp]; rfl)
    rcases b.take_cases with ⟨completion, rest, -, he⟩ | ⟨failure, -, -, he⟩ | ⟨hr, hb, he⟩
    · have htaken := hshort.taken 0 none
      rw [show b.scheduler.takeCompletionNowait none = b.scheduler.takeCompletion from rfl,
        ← scheduler_take] at htaken
      exact hloop .yielded rfl htaken b.take (by rw [he]) rfl
    · rw [he]
      exact ⟨fun hphase => (by cases hphase), fun hreturned => (by cases hreturned)⟩
    · have hquiet : b.scheduler.running = 0 ∧ b.scheduler.pending = [] := by
        simpa [takeWait, hr, hb] using hwait
      rw [he]
      exact ⟨fun hphase => (by cases hphase), fun _ => ⟨hb, hquiet.2, hquiet.1⟩⟩
  | closes => exact ⟨fun hphase => (by cases hphase), fun hreturned => (by cases hreturned)⟩
  | closesIntake ending _ hp => exact hfinally ending (by rw [hp]; rfl) _ rfl rfl id rfl
  | quiesces ending _ hp => exact hfinally ending (by rw [hp]; rfl) _ rfl rfl id rfl
  | shuts ending _ hp => exact hfinally ending (by rw [hp]; rfl) _ rfl rfl id rfl
  | joins ending _ scheduler hp hs =>
    simp only [ExecutionScheduler.step] at hs
    split at hs
    · split_ifs at hs
      cases hs
      refine hfinally ending (by rw [hp]; rfl) _ rfl ?_ (fun _ => ?_) ?_
      all_goals
        unfold shutdownEnd
        dsimp only
        split_ifs <;> rfl
    · cases hs
  | expires =>
    rw [expire_eq]
    exact ⟨fun hphase => (h.short hphase).congr rfl rfl rfl rfl rfl, h.returned⟩
  | watcherReturns => exact ⟨h.short, h.returned⟩

/-- **A batch does not return after a break.** -/
theorem not_returned_of_broken {capacity : ℤ} {jobs : List Job} {wallTime : Bool}
    {b₀ : RunBatch Job Done Fault} (h0 : open? capacity jobs wallTime = some b₀)
    (h : Reachable step b₀ b) (hb : b.scheduler.broken.isSome) :
    b.phase.ending? ≠ some .returned := by
  obtain ⟨hinit, hb₀⟩ := open?_eq h0
  have hhonest : Honest b := by
    refine h.invariant ?_ fun u a v hr hu _ hs => ?_
    · subst hb₀
      exact ⟨fun _ hbroken => by simp at hbroken, fun hreturned => by simp [BatchPhase.ending?] at hreturned⟩
    · have hreach := scheduler_reachable hr
      exact hu.effect (single_of_reach h0 hr) (workersOk_of_reachable hinit hreach)
        (accounted_of_reachable hinit hreach) (effect_of_step hs)
  intro hreturned
  rw [(hhonest.returned hreturned).1] at hb
  cases hb

end RunBatch

end DrExec.Scheduling.Batch
