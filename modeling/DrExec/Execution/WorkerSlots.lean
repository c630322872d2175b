import DrExec.Execution.WorkerPoolSteps

/-! # The slots of a worker set

The entries of the slot queue, the slots that calls hold, the entries a call of `close` has drained
and not refilled, and the slots lost to an exception of `_spawn_worker` other than `_SpawnFailure`
add up to the width, in every run (`accounted_of_reach`). So the slots are conserved exactly while
none is lost and none is drained (`slots_conserved_iff`). -/

namespace DrExec.Execution.WorkerPool

open DrExec.Lib.Transition DrExec.Lib.Lists

variable {F : Type}

/-! ### Who has a slot -/

/-- A lease call in progress has taken a slot, or a lease has not exited. -/
def Phase.holds : Phase F → Bool
  | .begun | .entering | .waiting | .completing none _ | .ended _ => false
  | _ => true

/-- The exception of `_spawn_worker` that `lease` does not handle. -/
def escapedSpawn : Result F → Bool
  | .error (.spawn _) => true
  | _ => false

/-- The lease call let an exception of `_spawn_worker` pass. -/
def Phase.leaked : Phase F → Bool
  | .ended result => escapedSpawn result
  | _ => false

/-- The result with which a lease exits. -/
def After.result? : After F → Option (Result F)
  | .refused _ => none
  | .exited result => some result

def Phase.result? : Phase F → Option (Result F)
  | .leaving _ _ result | .returning _ result => some result
  | .retiring _ after | .terminating _ after | .freeing after => after.result?
  | _ => none

/-- The entries a call of `close` has drained and not refilled. -/
def Closer.inHand : Closer → ℕ
  | .draining pending | .refilling pending => pending.length
  | _ => 0

namespace WorkerSet

variable (w : WorkerSet F)

def held : ℕ := (w.jobs.map fun job => job.phase.holds.toNat).sum

def lost : ℕ := (w.jobs.map fun job => job.phase.leaked.toNat).sum

def drained : ℕ := (w.closers.map Closer.inHand).sum

@[simp] theorem slots_alter (i : ℕ) (f : Worker F → Worker F) : (w.alter i f).slots = w.slots := by
  unfold alter
  split <;> rfl

@[simp] theorem jobs_alter (i : ℕ) (f : Worker F → Worker F) : (w.alter i f).jobs = w.jobs := by
  unfold alter
  split <;> rfl

@[simp] theorem closers_alter (i : ℕ) (f : Worker F → Worker F) : (w.alter i f).closers = w.closers := by
  unfold alter
  split <;> rfl

@[simp] theorem width_alter (i : ℕ) (f : Worker F → Worker F) : (w.alter i f).width = w.width := by
  unfold alter
  split <;> rfl

@[simp] theorem live_alter (i : ℕ) (f : Worker F → Worker F) : (w.alter i f).live = w.live := by
  unfold alter
  split <;> rfl

@[simp] theorem closed_alter (i : ℕ) (f : Worker F → Worker F) : (w.alter i f).closed = w.closed := by
  unfold alter
  split <;> rfl

end WorkerSet

/-! ### One step of a call -/

/-- A call has put back what it took, but for the slot it holds or lost, and no lease exits with an
exception of `_spawn_worker`. -/
structure JobOk (job : Job F) : Prop where
  balanced : job.took = job.gave + job.phase.holds.toNat + job.phase.leaked.toNat
  result : ∀ result, job.phase.result? = some result → escapedSpawn result = false

theorem escapedSpawn_complete (startedAt now : ℤ) (completion : Completion F) :
    escapedSpawn (WorkerSet.complete startedAt now completion) = false := by
  unfold WorkerSet.complete
  split_ifs <;> rfl

variable {w w' u : WorkerSet F} {job job' : Job F} {choice : Choice}

/-- A step that changes only the phase neither takes nor gives. -/
theorem Local.holds {phase : Phase F} (h : Local w job choice phase) :
    phase.holds = job.phase.holds ∧ phase.leaked = false ∧ job.phase.leaked = false ∧
      ∀ result, phase.result? = some result →
        job.phase.result? = some result ∨ escapedSpawn result = false := by
  cases h with
  | interrupted i reason hp | closedPipe i worker hp =>
    rcases hp with hp | hp <;>
      simp [hp, Phase.holds, Phase.leaked, Phase.result?, escapedSpawn]
  | overflows deadlineNs elapsed hp =>
    simp [hp, Phase.holds, Phase.leaked, Phase.result?, escapedSpawn]
  | completes completion now hp =>
    simp [hp, Phase.holds, Phase.leaked, Phase.result?, escapedSpawn_complete]
  | completesLeased i discarded completion now hp =>
    simp [hp, Phase.holds, Phase.leaked, Phase.result?, escapedSpawn_complete]
  | exits i discarded result hp | releases i result hp =>
    simp [hp, Phase.holds, Phase.leaked, Phase.result?, After.result?]
  | _ => simp_all [Phase.holds, Phase.leaked, Phase.result?, After.result?]

/-- A call that puts its slot back holds it before, and not after. -/
theorem Gives.holds {before phase : Phase F} {entry : Option ℕ} (h : Gives before entry phase)
    (hresult : ∀ result, before.result? = some result → escapedSpawn result = false) :
    before.holds = true ∧ before.leaked = false ∧ phase.holds = false ∧ phase.leaked = false ∧
      phase.result? = none := by
  cases h with
  | failed errno message => simp [Phase.holds, Phase.leaked, Phase.result?]
  | worker i result => simp [Phase.holds, Phase.leaked, Phase.result?, hresult result rfl]
  | freed after =>
    cases after with
    | refused => simp [Phase.holds, Phase.leaked, Phase.result?, After.phase]
    | exited result =>
      simp [Phase.holds, Phase.leaked, Phase.result?, After.phase, hresult result rfl]

theorem Reads.holds {i : ℕ} {before phase : Phase F} {read : Option (Frame F)}
    (h : Reads i before read phase) :
    before.holds = true ∧ before.leaked = false ∧ phase.holds = true ∧ phase.leaked = false ∧
      phase.result? = none := by
  cases h <;> simp [Phase.holds, Phase.leaked, Phase.result?]

/-- **One step of a call** moves a slot between the queue and the call. -/
theorem JobStep.slots (h : JobStep w job choice u job') (hok : JobOk job) :
    JobOk job' ∧ u.slots.length + job'.phase.holds.toNat + job'.phase.leaked.toNat =
      w.slots.length + job.phase.holds.toNat + job.phase.leaked.toNat := by
  have hbalanced := hok.balanced
  cases h with
  | goes phase hlocal =>
    obtain ⟨hholds, hleaked, hnot, hresult⟩ := hlocal.holds
    rw [hnot] at hbalanced
    refine ⟨⟨?_, fun result hr => ?_⟩, ?_⟩
    · simp only [hholds, hleaked]
      exact hbalanced
    · exact (hresult result hr).elim (hok.result result) id
    · simp only [hholds, hleaked, hnot]
  | takesSlot rest hp hs | takesWorker i rest hp hs =>
    rw [hp] at hbalanced
    refine ⟨⟨?_, fun result hr => ?_⟩, ?_⟩
    · simp only [Phase.holds, Phase.leaked, Bool.toNat_false, Bool.toNat_true] at hbalanced ⊢
      omega
    · simp [Phase.result?] at hr
    · simp [hp, hs, Phase.holds, Phase.leaked]
  | spawns hp =>
    rw [hp] at hbalanced
    exact ⟨⟨hbalanced, fun result hr => by simp [Phase.result?] at hr⟩,
      by simp [hp, Phase.holds, Phase.leaked]⟩
  | escapes script error started hp =>
    rw [hp] at hbalanced
    refine ⟨⟨?_, fun result hr => by simp [Phase.result?] at hr⟩,
      by simp [hp, Phase.holds, Phase.leaked, escapedSpawn]⟩
    simp only [Phase.holds, Phase.leaked, escapedSpawn, Bool.toNat_false, Bool.toNat_true] at hbalanced ⊢
    omega
  | gives entry phase hgives =>
    obtain ⟨hholds, hleaked, hholds', hleaked', hnone⟩ := hgives.holds hok.result
    simp only [hholds, hleaked, Bool.toNat_false, Bool.toNat_true] at hbalanced
    refine ⟨⟨?_, fun result hr => by simp [hnone] at hr⟩, ?_⟩
    · simp only [hholds', hleaked', Bool.toNat_false]
      omega
    · simp [hholds, hleaked, hholds', hleaked', WorkerSet.put]
  | registers i hp | refusesSpawned i hp =>
    rw [hp] at hbalanced
    exact ⟨⟨hbalanced, fun result hr => by simp [Phase.result?, After.result?] at hr⟩,
      by simp [hp, Phase.holds, Phase.leaked]⟩
  | reads i worker read rest ready phase hw hf hreads =>
    obtain ⟨hholds, hleaked, hholds', hleaked', hnone⟩ := hreads.holds
    refine ⟨⟨?_, fun result hr => by simp [hnone] at hr⟩, ?_⟩
    · simpa only [hholds', hleaked', hholds, hleaked] using hbalanced
    · simp [hholds, hleaked, hholds', hleaked', WorkerSet.setWorker]
  | retires i after hp =>
    have hresult := hok.result
    rw [hp] at hbalanced hresult
    split_ifs
    · exact ⟨⟨hbalanced, hresult⟩, by simp [hp, Phase.holds, Phase.leaked]⟩
    · exact ⟨⟨hbalanced, hresult⟩, by simp [hp, Phase.holds, Phase.leaked]⟩
  | terminates i after hp =>
    have hresult := hok.result
    rw [hp] at hbalanced hresult
    exact ⟨⟨hbalanced, hresult⟩, by simp [hp, Phase.holds, Phase.leaked]⟩

/-- Only a spawn that ends with an unexpected exception loses a slot. -/
theorem JobStep.leaked (h : JobStep w job choice u job') (hok : JobOk job)
    (hl : job'.phase.leaked = true) : ∃ script error started, choice = .spawn script ∧
      spawnWorker script = .raised error started := by
  cases h with
  | escapes script error started hp hc hspawn => exact ⟨script, error, started, hc, hspawn⟩
  | goes phase hlocal => simp [hlocal.holds.2.1] at hl
  | gives entry phase hgives => simp [(hgives.holds hok.result).2.2.2.1] at hl
  | reads i worker read rest ready phase hw hf hreads => simp [hreads.holds.2.2.2.1] at hl
  | retires i after hp =>
    dsimp only at hl
    split_ifs at hl <;> cases hl
  | _ => cases hl

/-- A step of a call leaves the calls, those of `close`, and the width alone. -/
theorem JobStep.others (h : JobStep w job choice u job') :
    u.jobs = w.jobs ∧ u.closers = w.closers ∧ u.width = w.width := by
  cases h <;> simp [WorkerSet.put, WorkerSet.setWorker]

theorem CloserStep.others {closer closer' : Closer} (h : CloserStep w closer u closer') :
    u.jobs = w.jobs ∧ u.closers = w.closers ∧ u.width = w.width := by
  cases h <;> simp [WorkerSet.put]

theorem CloserStep.slots {closer closer' : Closer} (h : CloserStep w closer u closer') :
    u.slots.length + closer'.inHand = w.slots.length + closer.inHand := by
  cases h with
  | checks => split_ifs <;> rfl
  | drainsEntry pending entry rest hs =>
    simp only [hs, Closer.inHand, List.length_append, List.length_cons, List.length_nil]
    omega
  | refillsEntry rest =>
    simp only [WorkerSet.put, Closer.inHand, List.length_append, List.length_cons, List.length_nil]
    omega
  | _ => simp [Closer.inHand]

/-! ### Every run -/

/-- **The slots are accounted for.** -/
structure Accounted (w : WorkerSet F) : Prop where
  jobs : ∀ job ∈ w.jobs, JobOk job
  total : w.slots.length + w.held + w.lost + w.drained = w.width

theorem Accounted.step {action : Action F} (h : Accounted w) (heff : Effect w action w') :
    Accounted w' := by
  have htotal := h.total
  cases heff with
  | runBlocking deadlineNs cancellable startedAt =>
    refine ⟨fun job hmem => ?_, ?_⟩
    · rcases List.mem_append.mp hmem with hmem | hmem
      · exact h.jobs job hmem
      · rw [List.mem_singleton.mp hmem]
        exact ⟨rfl, fun result hr => by simp [Phase.result?] at hr⟩
    · simp only [WorkerSet.held, WorkerSet.lost, WorkerSet.drained, List.map_append, List.sum_append] at htotal ⊢
      simpa [Phase.holds, Phase.leaked] using htotal
  | job i choice job job' u hi hs =>
    obtain ⟨hjobs, hclosers, hwidth⟩ := hs.others
    obtain ⟨hok, hslots⟩ := hs.slots (h.jobs job (List.mem_of_getElem? hi))
    have hheld := sum_map_set (fun job : Job F => job.phase.holds.toNat) w.jobs i job' job hi
    have hlost := sum_map_set (fun job : Job F => job.phase.leaked.toNat) w.jobs i job' job hi
    refine ⟨fun other hmem => ?_, ?_⟩
    · rw [hjobs] at hmem
      rcases List.mem_or_eq_of_mem_set hmem with hmem | rfl
      · exact h.jobs other hmem
      · exact hok
    · simp only [WorkerSet.held, WorkerSet.lost, WorkerSet.drained, hjobs, hclosers, hwidth] at htotal hheld hlost ⊢
      omega
  | close =>
    refine ⟨h.jobs, ?_⟩
    simp only [WorkerSet.held, WorkerSet.lost, WorkerSet.drained, List.map_append, List.sum_append] at htotal ⊢
    simpa [Closer.inHand] using htotal
  | closer j closer closer' u hj hs =>
    obtain ⟨hjobs, hclosers, hwidth⟩ := hs.others
    have hslots := hs.slots
    have hdrained := sum_map_set Closer.inHand w.closers j closer' closer hj
    refine ⟨fun job hmem => h.jobs job (hjobs ▸ hmem), ?_⟩
    simp only [WorkerSet.held, WorkerSet.lost, WorkerSet.drained, hjobs, hclosers, hwidth] at htotal hdrained ⊢
    omega
  | worker => exact ⟨h.jobs, htotal⟩

theorem accounted_of_reach {ok : Action F → WorkerSet F → Prop} {width : ℕ}
    (h : Reach WorkerSet.step ok (.init width) w) : Accounted w := by
  refine h.invariant ?_ fun u a v _ hu _ hs => hu.step (effect_of_step hs)
  refine ⟨fun job hmem => by simp [WorkerSet.init] at hmem, ?_⟩
  simp [WorkerSet.init, WorkerSet.held, WorkerSet.lost, WorkerSet.drained]

/-- `_spawn_worker` ends with an exception that `lease` does not expect. -/
def Spawned.escapes : Spawned → Bool
  | .raised _ _ => true
  | _ => false

/-- The spawn that an action is about. -/
def Action.script? : Action F → Option SpawnScript
  | .job _ (.spawn script) => some script
  | _ => none

/-- A spawn ends with a worker or with `_SpawnFailure`. -/
def Guarded (action : Action F) : Prop :=
  ∀ script ∈ action.script?, (spawnWorker script).escapes = false

instance (action : Action F) : Decidable (Guarded action) :=
  inferInstanceAs (Decidable (∀ script ∈ action.script?, (spawnWorker script).escapes = false))

/-- Only an unguarded spawn loses a slot. -/
theorem lost_of_guarded {width : ℕ}
    (h : Reach WorkerSet.step (fun action _ => Guarded action) (.init width) w) : w.lost = 0 := by
  have hnone : ∀ job ∈ w.jobs, job.phase.leaked = false := by
    refine h.invariant (I := fun w => ∀ job ∈ w.jobs, job.phase.leaked = false)
      (fun job hmem => by simp [WorkerSet.init] at hmem) fun u a v hr hu hok hs => ?_
    cases effect_of_step hs with
    | runBlocking deadlineNs cancellable startedAt =>
      intro job hmem
      rcases List.mem_append.mp hmem with hmem | hmem
      · exact hu job hmem
      · rw [List.mem_singleton.mp hmem]
        rfl
    | job i choice job job' v' hi hstep =>
      intro other hmem
      rw [hstep.others.1] at hmem
      rcases List.mem_or_eq_of_mem_set hmem with hmem | rfl
      · exact hu other hmem
      · by_contra hl
        have hjob := (accounted_of_reach hr).jobs job (List.mem_of_getElem? hi)
        obtain ⟨script, error, started, rfl, hspawn⟩ := hstep.leaked hjob (by simpa using hl)
        simp [Guarded, Action.script?, hspawn, Spawned.escapes] at hok
    | close | worker => exact hu
    | closer j closer closer' v' hj hstep =>
      intro other hmem
      exact hu other (hstep.others.1 ▸ hmem)
  unfold WorkerSet.lost
  refine List.sum_eq_zero fun n hn => ?_
  obtain ⟨job, hmem, rfl⟩ := List.mem_map.mp hn
  simp [hnone job hmem]

/-- **Slot conservation, exactly**: the queue and the calls have all slots if and only if no spawn
lost one and no call of `close` has drained one; a call that holds no slot has put back what it
took, unless its spawn lost it; and only an exception that `lease` does not expect of
`_spawn_worker` loses one. -/
theorem slots_conserved_iff (width : ℕ) (w : WorkerSet F)
    (h : Reachable WorkerSet.step (.init width) w) :
    (w.slots.length + w.held = w.width ↔ w.lost = 0 ∧ w.drained = 0) ∧
      (∀ job ∈ w.jobs, job.phase.holds = false → (job.gave = job.took ↔ job.phase.leaked = false)) ∧
      (Reach WorkerSet.step (fun action _ => Guarded action) (.init width) w → w.lost = 0) := by
  have hacc := accounted_of_reach h
  have htotal := hacc.total
  refine ⟨by omega, fun job hmem hholds => ?_, lost_of_guarded⟩
  have hbalanced := (hacc.jobs job hmem).balanced
  rw [hholds, Bool.toNat_false] at hbalanced
  cases hl : job.phase.leaked with
  | false =>
    rw [hl, Bool.toNat_false] at hbalanced
    exact ⟨fun _ => rfl, fun _ => by omega⟩
  | true =>
    rw [hl, Bool.toNat_true] at hbalanced
    exact ⟨fun _ => by omega, fun hf => by cases hf⟩

/-- The slot of a call whose first pipe cannot be made is lost. -/
def pipeless : List (Action ℕ) :=
  [.runBlocking none false 0, .job 0 .go, .job 0 .go, .job 0 .go,
    .job 0 (.spawn { requestPipe := some (.osError (some 24) "Too many open files") })]

theorem pipeless_conserved_iff : ∃ w : WorkerSet ℕ, exec WorkerSet.step pipeless (.init 1) = some w ∧
    (w.slots.length + w.held = w.width ↔ w.lost = 0 ∧ w.drained = 0) :=
  ⟨_, rfl, (slots_conserved_iff 1 _ (.of_exec pipeless (fun _ _ => trivial) rfl)).1⟩

theorem pipeless_loses_slot : ¬ ∀ (width : ℕ) (w : WorkerSet ℕ),
    Reachable WorkerSet.step (.init width) w → w.slots.length + w.held = w.width ∧
      ∀ job ∈ w.jobs, job.phase.holds = false → job.gave = job.took := by
  intro hall
  have := (hall 1 _ (.of_exec pipeless (fun _ _ => trivial) rfl)).1
  exact absurd this (by decide)

end DrExec.Execution.WorkerPool
