import DrExec.Execution.WorkerSlots

/-! # Leases are exclusive

A worker is in one place: one entry of the slot queue, or one call, or one entry that a call of
`close` drained (`Leased.owned`). So the end of its result pipe is read by the one call that has it,
which then discards it, and no call waits for a worker whose end was read (`Leased.spent`). -/

namespace DrExec.Execution.WorkerPool

open DrExec.Lib.Transition DrExec.Lib.Lists

variable {F : Type} {w w' u : WorkerSet F} {job job' : Job F} {choice : Choice}

/-! ### Where a worker is -/

/-- The worker a call has. -/
def Phase.worker? : Phase F → Option ℕ
  | .taken i | .spawned i | .leased i | .sending i | .flushing i | .receiving i | .dying i
  | .completing (some (i, _)) _ | .leaving i _ _ | .returning i _ | .retiring i _
  | .terminating i _ => some i
  | _ => none

/-- The call has read its worker's end, or discards the worker for another reason. -/
def Phase.finished : Phase F → Bool
  | .dying _ | .completing (some (_, true)) _ | .leaving _ true _ | .retiring _ _
  | .terminating _ _ => true
  | _ => false

/-- The entries a call of `close` has drained. -/
def Closer.pending : Closer → List (Option ℕ)
  | .draining pending | .refilling pending => pending
  | _ => []

/-- 1 if the call has worker `i`, else 0. -/
def Phase.owns (i : ℕ) (phase : Phase F) : ℕ := if phase.worker? = some i then 1 else 0

/-- The places at which worker `i` is. -/
def WorkerSet.owners (w : WorkerSet F) (i : ℕ) : ℕ :=
  w.slots.count (some i) + (w.jobs.map fun job => job.phase.owns i).sum +
    (w.closers.map fun closer => closer.pending.count (some i)).sum

/-- 1 if worker `i` was spawned, else 0. -/
def WorkerSet.spawned (w : WorkerSet F) (i : ℕ) : ℕ := if i < w.workers.length then 1 else 0

@[simp] theorem spawned_alter (i j : ℕ) (f : Worker F → Worker F) :
    (w.alter i f).spawned j = w.spawned j := by
  unfold WorkerSet.alter
  split <;> simp [WorkerSet.spawned, WorkerSet.setWorker]

@[simp] theorem spawned_setWorker (i j : ℕ) (worker : Worker F) :
    (w.setWorker i worker).spawned j = w.spawned j := by
  simp [WorkerSet.spawned, WorkerSet.setWorker]

@[simp] theorem spawned_put (entry : Option ℕ) (j : ℕ) : (w.put entry).spawned j = w.spawned j :=
  rfl

/-- A step of a call that changes only its phase keeps its worker, and what it has finished. -/
theorem Local.worker {phase : Phase F} (h : Local w job choice phase) :
    (phase.worker? = job.phase.worker? ∨ phase.worker? = none) ∧
      (job.phase.finished = true → phase.worker? = none ∨ phase.finished = true) := by
  cases h with
  | interrupted i reason hp | closedPipe i worker hp =>
    rcases hp with hp | hp <;> simp [hp, Phase.worker?, Phase.finished]
  | completesLeased i discarded completion now hp =>
    cases discarded <;> simp [hp, Phase.worker?, Phase.finished]
  | exits i discarded result hp => simp [hp, Phase.worker?, Phase.finished]
  | _ => simp_all [Phase.worker?, Phase.finished]

theorem Reads.worker {i : ℕ} {before phase : Phase F} {read : Option (Frame F)}
    (h : Reads i before read phase) : before.worker? = some i ∧ before.finished = false ∧
      phase.worker? = some i ∧ (read = none → phase.finished = true) := by
  cases h <;> simp [Phase.worker?, Phase.finished]

/-- **One step of a call** moves its worker, and a new one from nowhere. -/
theorem JobStep.owns (h : JobStep w job choice u job') (i : ℕ) :
    u.slots.count (some i) + job'.phase.owns i + w.spawned i ≤
      w.slots.count (some i) + job.phase.owns i + u.spawned i := by
  cases h with
  | goes phase hlocal =>
    have hle : phase.owns i ≤ job.phase.owns i := by
      unfold Phase.owns
      rcases hlocal.worker.1 with he | he
      · rw [he]
      · simp [he]
    dsimp only
    omega
  | takesSlot rest hp hs => simp [hs, hp, Phase.owns, Phase.worker?, WorkerSet.spawned]
  | takesWorker j rest hp hs =>
    simp only [hs, hp, Phase.owns, Phase.worker?, WorkerSet.spawned, List.count_cons,
      Option.some.injEq, beq_iff_eq]
    split_ifs <;> omega
  | spawns hp =>
    simp only [hp, Phase.owns, Phase.worker?, WorkerSet.spawned, List.length_append,
      List.length_singleton, Option.some.injEq]
    split_ifs <;> simp_all
    omega
  | escapes script error started hp => simp [hp, Phase.owns, Phase.worker?, WorkerSet.spawned]
  | gives entry phase hgives =>
    generalize job.phase = before at hgives
    cases hgives with
    | failed errno message =>
      rw [spawned_put]
      simp [WorkerSet.put, Phase.owns, Phase.worker?]
    | worker j result =>
      rw [spawned_put]
      simp only [WorkerSet.put, Phase.owns, Phase.worker?, List.count_append, List.count_singleton,
        Option.some.injEq, beq_iff_eq]
      split_ifs <;> simp_all
    | freed after =>
      rw [spawned_put]
      cases after <;> simp [WorkerSet.put, Phase.owns, Phase.worker?, After.phase]
  | registers j hp => simp [hp, Phase.owns, Phase.worker?, WorkerSet.spawned]
  | reads j worker read rest ready phase hw hf hreads =>
    have hle : phase.owns i = job.phase.owns i := by
      obtain ⟨hbefore, -, hafter, -⟩ := hreads.worker
      unfold Phase.owns
      rw [hbefore, hafter]
    rw [spawned_setWorker]
    simp only [WorkerSet.setWorker, hle]
    omega
  | retires j after hp =>
    simp only [hp, Phase.owns, Phase.worker?, WorkerSet.spawned]
    split_ifs <;> simp_all
  | refusesSpawned j hp =>
    rw [spawned_alter, WorkerSet.slots_alter]
    simp [hp, Phase.owns, Phase.worker?]
  | terminates j after hp =>
    rw [spawned_alter, WorkerSet.slots_alter]
    simp [Phase.owns, Phase.worker?]

theorem CloserStep.owns {closer closer' : Closer} (h : CloserStep w closer u closer') (i : ℕ) :
    u.slots.count (some i) + closer'.pending.count (some i) ≤
      w.slots.count (some i) + closer.pending.count (some i) ∧ u.spawned i = w.spawned i := by
  cases h with
  | checks => split_ifs <;> exact ⟨le_rfl, rfl⟩
  | drainsEntry pending entry rest hs =>
    refine ⟨?_, rfl⟩
    simp only [hs, Closer.pending, List.count_append, List.count_cons, List.count_nil]
    omega
  | refillsEntry rest => exact ⟨by simp [WorkerSet.put, Closer.pending], rfl⟩
  | kills j rest => exact ⟨by simp [Closer.pending], spawned_alter j i _⟩
  | killsIdle j rest =>
    exact ⟨by simp [Closer.pending, List.count_cons], spawned_alter j i _⟩
  | _ => exact ⟨by simp [Closer.pending], rfl⟩

/-! ### Every run -/

/-- **Leases are exclusive.** A spawned worker is in at most one place, no other is in any; and a
worker whose end was read is in no entry of the queue, and in the hands of no call that would use
it. -/
structure Leased (w : WorkerSet F) : Prop where
  owned : ∀ i, w.owners i ≤ w.spawned i
  spent : ∀ i worker, w.workers[i]? = some worker → worker.Spent → some i ∉ w.slots ∧
    ∀ job ∈ w.jobs, job.phase.worker? = some i → job.phase.finished = true

/-- The one call that has a worker. -/
theorem Leased.alone (h : Leased w) {k i : ℕ} (hk : w.jobs[k]? = some job)
    (hi : job.phase.worker? = some i) : some i ∉ w.slots ∧
      ∀ j other, w.jobs[j]? = some other → other.phase.worker? = some i → j = k := by
  have howned := h.owned i
  have hsum := sum_map_set (fun job : Job F => job.phase.owns i) w.jobs k
    { job with phase := .begun } job hk
  simp only [show job.phase.owns i = 1 by simp [Phase.owns, hi],
    show Phase.owns i (.begun : Phase F) = 0 from rfl] at hsum
  have hle : w.spawned i ≤ 1 := by
    unfold WorkerSet.spawned
    split_ifs <;> omega
  unfold WorkerSet.owners at howned
  refine ⟨fun hmem => ?_, fun j other hj ho => ?_⟩
  · have := List.count_pos_iff.mpr hmem
    omega
  · by_contra hne
    have hmem : other ∈ w.jobs.set k { job with phase := .begun } := by
      refine List.mem_iff_getElem?.mpr ⟨j, ?_⟩
      rw [List.getElem?_set_ne (Ne.symm hne)]
      exact hj
    have := List.le_sum_of_mem (List.mem_map_of_mem (f := fun job : Job F => job.phase.owns i) hmem)
    simp only [show other.phase.owns i = 1 by simp [Phase.owns, ho]] at this
    omega

theorem getElem?_alter {i j : ℕ} {f : Worker F → Worker F} {worker' : Worker F}
    (h : (w.alter j f).workers[i]? = some worker') :
    ∃ worker, w.workers[i]? = some worker ∧ (worker' = worker ∨ i = j ∧ worker' = f worker) := by
  unfold WorkerSet.alter at h
  split at h
  · next old hj =>
    simp only [WorkerSet.setWorker, List.getElem?_set] at h
    split_ifs at h with he hlt
    · exact ⟨old, he ▸ hj, .inr ⟨he.symm, (Option.some.inj h).symm⟩⟩
    · exact ⟨worker', h, .inl rfl⟩
  · exact ⟨worker', h, .inl rfl⟩

theorem spent_alter {i j : ℕ} {f : Worker F → Worker F}
    (hf : ∀ worker : Worker F, (f worker).Spent → worker.Spent) {worker' : Worker F}
    (h : (w.alter j f).workers[i]? = some worker') (hs : worker'.Spent) :
    ∃ worker, w.workers[i]? = some worker ∧ worker.Spent := by
  obtain ⟨worker, hi, rfl | ⟨-, rfl⟩⟩ := getElem?_alter h
  · exact ⟨_, hi, hs⟩
  · exact ⟨worker, hi, hf worker hs⟩

/-- The end of a worker is read by the call that has it, and by no other step. -/
theorem JobStep.spent (h : JobStep w job choice u job') {i : ℕ} {worker' : Worker F}
    (hi : u.workers[i]? = some worker') (hs : worker'.Spent) :
    (∃ worker, w.workers[i]? = some worker ∧ worker.Spent) ∨
      job.phase.worker? = some i ∧ job'.phase.finished = true ∧ u.slots = w.slots := by
  cases h with
  | spawns hp =>
    rw [List.getElem?_append] at hi
    split_ifs at hi
    · exact .inl ⟨worker', hi, hs⟩
    · obtain ⟨hlt, rfl⟩ := List.getElem?_eq_some_iff.mp hi
      have := hs.1
      simp at this
  | refusesSpawned j hp => exact .inl (spent_alter (f := Worker.kill) (fun _ => id) hi hs)
  | terminates j after hp => exact .inl (spent_alter (fun _ => .of_terminate) hi hs)
  | reads j worker read rest ready phase hw hf hreads =>
    simp only [WorkerSet.setWorker, List.getElem?_set] at hi
    split_ifs at hi with he hlt
    · subst he
      cases hi
      obtain ⟨hbefore, -, -, hfinished⟩ := hreads.worker
      cases read with
      | none => exact .inr ⟨hbefore, hfinished rfl, rfl⟩
      | some frame => exact .inl ⟨worker, hw, hs.1, by rw [hf]; simpa using hs.2⟩
    · exact .inl ⟨worker', hi, hs⟩
  | _ => exact .inl ⟨worker', hi, hs⟩

/-- No step of a call brings a worker whose end was read back into use. -/
theorem JobStep.keepsSpent (h : JobStep w job choice u job') {i : ℕ} (hlt : i < w.workers.length)
    (hslots : some i ∉ w.slots)
    (hfinished : job.phase.worker? = some i → job.phase.finished = true) :
    some i ∉ u.slots ∧ (job'.phase.worker? = some i → job'.phase.finished = true) := by
  cases h with
  | goes phase hlocal =>
    obtain ⟨hworker, hfin⟩ := hlocal.worker
    refine ⟨hslots, fun hi => ?_⟩
    dsimp only at hi ⊢
    rcases hworker with he | he
    · exact (hfin (hfinished (he ▸ hi))).resolve_left (by simp [hi])
    · simp [he] at hi
  | takesSlot rest hp hs =>
    exact ⟨fun hmem => hslots (hs ▸ List.mem_cons_of_mem _ hmem), by simp [Phase.worker?]⟩
  | takesWorker j rest hp hs =>
    refine ⟨fun hmem => hslots (hs ▸ List.mem_cons_of_mem _ hmem), fun hi => ?_⟩
    simp only [Phase.worker?, Option.some.injEq] at hi
    subst hi
    exact absurd (by rw [hs]; exact List.mem_cons_self) hslots
  | spawns hp =>
    refine ⟨hslots, fun hi => ?_⟩
    simp only [Phase.worker?, Option.some.injEq] at hi
    omega
  | escapes script error started hp => exact ⟨hslots, by simp [Phase.worker?]⟩
  | gives entry phase hgives =>
    generalize job.phase = before at hgives hfinished
    cases hgives with
    | failed errno message => simpa [WorkerSet.put, Phase.worker?] using hslots
    | worker j result =>
      have hne : i ≠ j := by
        rintro rfl
        simp [Phase.worker?, Phase.finished] at hfinished
      simpa [WorkerSet.put, Phase.worker?, hne] using hslots
    | freed after => cases after <;> simpa [WorkerSet.put, Phase.worker?, After.phase] using hslots
  | registers j hp =>
    rw [hp] at hfinished
    exact ⟨hslots, hfinished⟩
  | reads j worker read rest ready phase hw hf hreads =>
    obtain ⟨hbefore, hnot, hafter, -⟩ := hreads.worker
    refine ⟨hslots, fun hi => ?_⟩
    simp [hfinished (hbefore.trans (hafter.symm.trans hi))] at hnot
  | retires j after hp =>
    refine ⟨hslots, fun hi => ?_⟩
    dsimp only at hi ⊢
    split_ifs at hi ⊢
    · rfl
    · simp [Phase.worker?] at hi
  | refusesSpawned j hp => exact ⟨by simpa using hslots, fun _ => rfl⟩
  | terminates j after hp => simpa [Phase.worker?] using hslots

theorem Leased.step {action : Action F} (h : Leased w) (heff : Effect w action w') : Leased w' := by
  cases heff with
  | runBlocking deadlineNs cancellable startedAt =>
    refine ⟨fun i => ?_, fun i worker hi hs => ?_⟩
    · have := h.owned i
      simpa [WorkerSet.owners, WorkerSet.spawned, Phase.owns, Phase.worker?] using this
    · obtain ⟨hslots, hjobs⟩ := h.spent i worker hi hs
      refine ⟨hslots, fun job hmem hw => ?_⟩
      rcases List.mem_append.mp hmem with hmem | hmem
      · exact hjobs job hmem hw
      · rw [List.mem_singleton.mp hmem] at hw
        simp [Phase.worker?] at hw
  | close =>
    refine ⟨fun i => ?_, h.spent⟩
    have := h.owned i
    simpa [WorkerSet.owners, WorkerSet.spawned, Closer.pending] using this
  | job k choice job job' u hk hstep =>
    obtain ⟨hjobs, hclosers, -⟩ := hstep.others
    refine ⟨fun i => ?_, fun i worker' hi hs => ?_⟩
    · have howned := h.owned i
      have hmove := hstep.owns i
      have hsum := sum_map_set (fun job : Job F => job.phase.owns i) w.jobs k job' job hk
      simp only [WorkerSet.owners, WorkerSet.spawned, hjobs, hclosers] at howned hmove hsum ⊢
      omega
    · rcases hstep.spent hi hs with ⟨worker, hw, hspent⟩ | ⟨hown, hfinished, hslots⟩
      · obtain ⟨hslots, hothers⟩ := h.spent i worker hw hspent
        obtain ⟨hslots', hjob⟩ := hstep.keepsSpent (List.getElem?_eq_some_iff.mp hw).1 hslots
          (hothers job (List.mem_of_getElem? hk))
        refine ⟨hslots', fun other hmem ho => ?_⟩
        dsimp only at hmem
        rw [hjobs] at hmem
        rcases List.mem_or_eq_of_mem_set hmem with hmem | rfl
        · exact hothers other hmem ho
        · exact hjob ho
      · -- The call has just read the end of its own worker.
        obtain ⟨hnot, honly⟩ := h.alone hk hown
        refine ⟨by dsimp only; rwa [hslots], fun other hmem ho => ?_⟩
        obtain ⟨j, hj⟩ := List.mem_iff_getElem?.mp hmem
        dsimp only at hj
        rw [hjobs, List.getElem?_set] at hj
        split_ifs at hj with he hlt
        · cases hj
          exact hfinished
        · exact absurd (honly j other hj ho).symm he
  | closer k closer closer' u hk hstep =>
    obtain ⟨hjobs, hclosers, -⟩ := hstep.others
    refine ⟨fun i => ?_, fun i worker' hi hs => ?_⟩
    · have howned := h.owned i
      obtain ⟨hmove, hspawned⟩ := hstep.owns i
      have hsum := sum_map_set (fun closer : Closer => closer.pending.count (some i)) w.closers k
        closer' closer hk
      simp only [WorkerSet.owners, WorkerSet.spawned, hjobs, hclosers] at howned hspawned hsum ⊢
      omega
    · have hspent : ∃ worker, w.workers[i]? = some worker ∧ worker.Spent := by
        cases hstep with
        | kills | killsIdle => exact spent_alter (fun _ => .of_terminate) hi hs
        | _ => exact ⟨worker', hi, hs⟩
      obtain ⟨worker, hw, hspent⟩ := hspent
      obtain ⟨hslots, hothers⟩ := h.spent i worker hw hspent
      refine ⟨fun hmem => hslots ?_, fun job hmem => hothers job (hjobs ▸ hmem)⟩
      cases hstep with
      | drainsEntry pending entry rest he => exact he ▸ List.mem_cons_of_mem _ hmem
      | refillsEntry rest => simpa [WorkerSet.put] using hmem
      | kills | killsIdle => simpa using hmem
      | _ => exact hmem
  | worker action j worker worker' hw ht hspent =>
    refine ⟨fun i => ?_, fun i found hi hs => ?_⟩
    · have := h.owned i
      rwa [spawned_setWorker]
    · simp only [WorkerSet.setWorker, List.getElem?_set] at hi
      split_ifs at hi with he hlt
      · cases hi
        exact h.spent i worker (he ▸ hw) (hspent hs)
      · exact h.spent i found hi hs

theorem leased_of_reach {ok : Action F → WorkerSet F → Prop} {width : ℕ}
    (h : Reach WorkerSet.step ok (.init width) w) : Leased w := by
  refine h.invariant ?_ fun u a v _ hu _ hs => hu.step (effect_of_step hs)
  refine ⟨fun i => ?_, fun i worker hi => by simp [WorkerSet.init] at hi⟩
  simp [WorkerSet.init, WorkerSet.owners, List.count_replicate]

end DrExec.Execution.WorkerPool
