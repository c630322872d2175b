import DrExec.Execution.WorkerSlots

/-! # No worker outlives close

Every worker that is not terminated is in `_live`, or in the hands of a lease call that is about to
register it, or of a call that took it out of `_live` to terminate it (`Custody`). A call of `close`
sets the flag before it empties `_live`, and nothing is registered once the flag is set; so when
every call has exited, every worker is terminated (`none_outlives_close`). -/

namespace DrExec.Execution.WorkerPool

open DrExec.Lib.Transition DrExec.Lib.Lists

variable {F : Type} {w w' u : WorkerSet F} {job job' : Job F} {choice : Choice}

/-! ### Custody -/

/-- The call has worker `i` to register or to terminate. -/
def Phase.keeps (i : ℕ) : Phase F → Bool
  | .spawned j | .terminating j _ => j = i
  | _ => false

/-- The workers a call of `close` took out of `_live` and has yet to terminate. -/
def Closer.targets : Closer → List ℕ
  | .killing live => live
  | _ => []

/-- A call of `close` that came past its check. -/
def Closer.entered : Closer → Bool
  | .checking | .setting => false
  | _ => true

/-- Worker `i` was spawned and is not terminated. -/
def WorkerSet.Running (w : WorkerSet F) (i : ℕ) : Prop :=
  ∃ worker, w.workers[i]? = some worker ∧ worker.terminated = false

theorem Worker.terminated_terminate (worker : Worker F) : worker.terminate.terminated = true :=
  terminated_endOfFile worker.kill

theorem running_alter {i j : ℕ} {f : Worker F → Worker F} (hf : ∀ worker, (f worker).terminated = true)
    (h : (w.alter i f).Running j) : j ≠ i ∧ w.Running j := by
  obtain ⟨worker, hj, ht⟩ := h
  unfold WorkerSet.alter at hj
  split at hj
  · next old hi =>
    simp only [WorkerSet.setWorker, List.getElem?_set] at hj
    split_ifs at hj with he hlt
    · cases hj
      rw [hf] at ht
      cases ht
    · exact ⟨Ne.symm he, worker, hj, ht⟩
  · next hi =>
    refine ⟨?_, worker, hj, ht⟩
    rintro rfl
    rw [hi] at hj
    cases hj

theorem running_setWorker {i j : ℕ} {old new : Worker F} (hi : w.workers[i]? = some old)
    (ht : new.terminated = old.terminated) (h : (w.setWorker i new).Running j) : w.Running j := by
  obtain ⟨worker, hj, hrun⟩ := h
  simp only [WorkerSet.setWorker, List.getElem?_set] at hj
  split_ifs at hj with he hlt
  · cases hj
    exact ⟨old, he ▸ hi, ht ▸ hrun⟩
  · exact ⟨worker, hj, hrun⟩

/-- A step of a call that changes only its phase neither has nor gets a worker to keep. -/
theorem Local.keeps {phase : Phase F} (h : Local w job choice phase) (i : ℕ) :
    job.phase.keeps i = false ∧ phase.keeps i = false := by
  cases h with
  | interrupted j reason hp | closedPipe j worker hp => rcases hp with hp | hp <;> simp [hp, Phase.keeps]
  | _ => simp_all [Phase.keeps]

/-- **One step of a call** hands a worker on: a worker that runs after it is in custody again, or
was in the custody of others before. -/
theorem JobStep.custody (h : JobStep w job choice u job') {i : ℕ} (hi : u.Running i) :
    job'.phase.keeps i = true ∨ i ∈ u.live ∨
      w.Running i ∧ i ∉ w.live ∧ job.phase.keeps i = false := by
  by_cases hlive : i ∈ u.live
  · exact .inr (.inl hlive)
  cases h with
  | goes phase hlocal => exact .inr (.inr ⟨hi, hlive, (hlocal.keeps i).1⟩)
  | takesSlot rest hp | takesWorker j rest hp | escapes script error started hp =>
    exact .inr (.inr ⟨hi, hlive, by simp [hp, Phase.keeps]⟩)
  | spawns hp =>
    obtain ⟨worker, hw, ht⟩ := hi
    rw [List.getElem?_append] at hw
    split_ifs at hw with hlt
    · exact .inr (.inr ⟨⟨worker, hw, ht⟩, hlive, by simp [hp, Phase.keeps]⟩)
    · refine .inl ?_
      have := (List.getElem?_eq_some_iff.mp hw).1
      simp only [List.length_singleton] at this
      simp only [Phase.keeps, decide_eq_true_eq]
      omega
  | gives entry phase hgives =>
    refine .inr (.inr ⟨hi, hlive, ?_⟩)
    generalize job.phase = before at hgives
    cases hgives <;> rfl
  | registers j hp =>
    simp only [List.mem_cons, not_or] at hlive
    exact .inr (.inr ⟨hi, hlive.2, by simp [hp, Phase.keeps, Ne.symm hlive.1]⟩)
  | reads j worker read rest ready phase hw hf hreads =>
    refine .inr (.inr ⟨running_setWorker hw ?_ hi, hlive, ?_⟩)
    · rfl
    · generalize job.phase = before at hreads
      cases hreads <;> rfl
  | retires j after hp =>
    by_cases he : i = j
    · subst he
      by_cases hmem : i ∈ w.live
      · exact .inl (by simp [hmem, Phase.keeps])
      · exact .inr (.inr ⟨hi, hmem, by simp [hp, Phase.keeps]⟩)
    · refine .inr (.inr ⟨hi, ?_, by simp [hp, Phase.keeps]⟩)
      simpa [he] using hlive
  | refusesSpawned j hp =>
    obtain ⟨hne, hrun⟩ := running_alter (fun _ => rfl) hi
    exact .inr (.inr ⟨hrun, by simpa using hlive, by simp [hp, Phase.keeps, Ne.symm hne]⟩)
  | terminates j after hp =>
    obtain ⟨hne, hrun⟩ := running_alter Worker.terminated_terminate hi
    exact .inr (.inr ⟨hrun, by simpa using hlive, by simp [hp, Phase.keeps, Ne.symm hne]⟩)

theorem CloserStep.custody {closer closer' : Closer} (h : CloserStep w closer u closer') {i : ℕ}
    (hi : u.Running i) : i ∈ closer'.targets ∨ i ∈ u.live ∨
      w.Running i ∧ i ∉ w.live ∧ i ∉ closer.targets := by
  by_cases hlive : i ∈ u.live
  · exact .inr (.inl hlive)
  cases h with
  | snapshots =>
    by_cases hmem : i ∈ w.live
    · exact .inl hmem
    · exact .inr (.inr ⟨hi, hmem, by simp [Closer.targets]⟩)
  | kills j rest =>
    obtain ⟨hne, hrun⟩ := running_alter Worker.terminated_terminate hi
    by_cases hmem : i ∈ rest
    · exact .inl hmem
    · exact .inr (.inr ⟨hrun, by simpa using hlive, by simp [Closer.targets, hne, hmem]⟩)
  | killsIdle j rest =>
    obtain ⟨-, hrun⟩ := running_alter Worker.terminated_terminate hi
    exact .inr (.inr ⟨hrun, by simpa using hlive, by simp [Closer.targets]⟩)
  | _ => exact .inr (.inr ⟨hi, hlive, by simp [Closer.targets]⟩)

/-- **Custody**: every running worker is in `_live` or in the hands of a call; the flag is set
before `_live` is emptied, and nothing is registered after that. -/
structure Custody (w : WorkerSet F) : Prop where
  covered : ∀ i, w.Running i → i ∈ w.live ∨ (∃ job ∈ w.jobs, job.phase.keeps i = true) ∨
    ∃ closer ∈ w.closers, i ∈ closer.targets
  flagged : ∀ closer ∈ w.closers, closer.entered = true → w.closed = true
  swept : w.closed = true → w.live = [] ∨ .snapshotting ∈ w.closers

/-- A step of a call registers nothing once the flag is set, and never sets it. -/
theorem JobStep.flag (h : JobStep w job choice u job') :
    u.closed = w.closed ∧ (w.closed = true → u.live ⊆ w.live) := by
  cases h with
  | registers i hp hc => exact ⟨rfl, fun htrue => by simp [hc] at htrue⟩
  | retires => exact ⟨rfl, fun _ => List.filter_subset_self ..⟩
  | refusesSpawned i | terminates i => simp
  | _ => exact ⟨rfl, fun _ => List.Subset.refl _⟩

theorem CloserStep.flag {closer closer' : Closer} (h : CloserStep w closer u closer') :
    (w.closed = true → u.closed = true) ∧ (closer'.entered = true → closer.entered = true ∨
      u.closed = true) ∧ (u.closed = true → w.closed = true ∨ closer' = .snapshotting) ∧
      (u.live = [] ∨ u.live = w.live ∧ closer ≠ .snapshotting) := by
  cases h with
  | checks =>
    refine ⟨id, ?_, .inl, .inr ⟨rfl, by simp⟩⟩
    split_ifs with hc
    · exact fun _ => .inr hc
    · exact fun h => by cases h
  | sets => exact ⟨fun _ => rfl, fun _ => .inr rfl, fun _ => .inr rfl, .inr ⟨rfl, by simp⟩⟩
  | snapshots => exact ⟨id, fun _ => .inl rfl, .inl, .inl rfl⟩
  | kills i rest | killsIdle i rest => simp [Closer.entered]
  | _ => exact ⟨id, fun _ => .inl rfl, .inl, .inr ⟨rfl, by simp⟩⟩

theorem Custody.step {action : Action F} (h : Custody w) (heff : Effect w action w') :
    Custody w' := by
  cases heff with
  | runBlocking deadlineNs cancellable startedAt =>
    refine ⟨fun i hi => ?_, h.flagged, h.swept⟩
    rcases h.covered i hi with hl | ⟨job, hmem, hk⟩ | hc
    · exact .inl hl
    · exact .inr (.inl ⟨job, List.mem_append_left _ hmem, hk⟩)
    · exact .inr (.inr hc)
  | close =>
    refine ⟨fun i hi => ?_, fun closer hmem he => ?_, fun hc => ?_⟩
    · rcases h.covered i hi with hl | hj | ⟨closer, hmem, ht⟩
      · exact .inl hl
      · exact .inr (.inl hj)
      · exact .inr (.inr ⟨closer, List.mem_append_left _ hmem, ht⟩)
    · rcases List.mem_append.mp hmem with hmem | hmem
      · exact h.flagged closer hmem he
      · rw [List.mem_singleton.mp hmem] at he
        cases he
    · exact (h.swept hc).imp_right fun hmem => List.mem_append_left _ hmem
  | job k choice job job' u hk hs =>
    obtain ⟨hjobs, hclosers, -⟩ := hs.others
    obtain ⟨hclosed, hlive⟩ := hs.flag
    refine ⟨fun i hi => ?_, fun closer hmem he => ?_, fun hc => ?_⟩
    · dsimp only
      rw [hjobs, hclosers]
      rcases hs.custody hi with hkeeps | hl | ⟨hrun, hnot, hkeeps⟩
      · exact .inr (.inl ⟨job', mem_set_new hk job', hkeeps⟩)
      · exact .inl hl
      · rcases h.covered i hrun with hl | ⟨other, hmem, ho⟩ | hc
        · exact absurd hl hnot
        · refine .inr (.inl ⟨other, mem_set_of_ne hk hmem ?_, ho⟩)
          rintro rfl
          rw [hkeeps] at ho
          cases ho
        · exact .inr (.inr hc)
    · exact hclosed.trans (h.flagged closer (hclosers ▸ hmem) he)
    · have hc : w.closed = true := hclosed.symm.trans hc
      rcases h.swept hc with hl | hmem
      · exact .inl (List.subset_nil.mp (hl ▸ hlive hc))
      · exact .inr (hclosers ▸ hmem)
  | closer k closer closer' u hk hs =>
    obtain ⟨hjobs, hclosers, -⟩ := hs.others
    obtain ⟨hkept, hentered, hset, hlive⟩ := hs.flag
    refine ⟨fun i hi => ?_, fun other hmem he => ?_, fun hc => ?_⟩
    · dsimp only
      rw [hjobs, hclosers]
      rcases hs.custody hi with htarget | hl | ⟨hrun, hnot, htarget⟩
      · exact .inr (.inr ⟨closer', mem_set_new hk closer', htarget⟩)
      · exact .inl hl
      · rcases h.covered i hrun with hl | hj | ⟨other, hmem, ho⟩
        · exact absurd hl hnot
        · exact .inr (.inl hj)
        · refine .inr (.inr ⟨other, mem_set_of_ne hk hmem ?_, ho⟩)
          rintro rfl
          exact htarget ho
    · dsimp only at hmem
      rw [hclosers] at hmem
      rcases List.mem_or_eq_of_mem_set hmem with hmem | rfl
      · exact hkept (h.flagged other hmem he)
      · exact (hentered he).elim (fun h' => hkept (h.flagged closer (List.mem_of_getElem? hk) h')) id
    · dsimp only at hc ⊢
      rw [hclosers]
      rcases hset hc with hc | rfl
      · rcases h.swept hc, hlive with ⟨hl | hmem, hl' | ⟨hl', hne⟩⟩
        · exact .inl hl'
        · exact .inl (hl'.trans hl)
        · exact .inl hl'
        · exact .inr (mem_set_of_ne hk hmem (Ne.symm hne))
      · exact .inr (mem_set_new hk _)
  | worker action i worker worker' hw ht =>
    refine ⟨fun j hj => h.covered j (running_setWorker hw ht hj), h.flagged, h.swept⟩

theorem custody_of_reach {ok : Action F → WorkerSet F → Prop} {width : ℕ}
    (h : Reach WorkerSet.step ok (.init width) w) : Custody w := by
  refine h.invariant ?_ fun u a v _ hu _ hs => hu.step (effect_of_step hs)
  refine ⟨fun i hi => ?_, by simp [WorkerSet.init], by simp [WorkerSet.init]⟩
  obtain ⟨worker, hw, -⟩ := hi
  simp [WorkerSet.init] at hw

/-! ### After close -/

/-- The call is in no lease call and has no lease. -/
def Phase.outside : Phase F → Bool
  | .begun | .completing none _ | .ended _ => true
  | _ => false

/-- The flag is set, no worker runs, and a lease call in progress has not come past its first check.
-/
structure Shut (w : WorkerSet F) : Prop where
  closed : w.closed = true
  idle : ∀ job ∈ w.jobs, job.phase.holds = false ∧ job.phase ≠ .waiting
  terminated : ∀ i, ¬ w.Running i

theorem JobStep.idle (h : JobStep w job choice u job') (hc : w.closed = true)
    (hidle : job.phase.holds = false) (hwait : job.phase ≠ .waiting) :
    job'.phase.holds = false ∧ job'.phase ≠ .waiting ∧ u.workers = w.workers := by
  cases h with
  | goes phase hlocal =>
    refine ⟨hlocal.holds.1.trans hidle, ?_, rfl⟩
    rintro rfl
    cases hlocal with
    | enters hp hopen => simp [hc] at hopen
  | takesSlot rest hp | takesWorker i rest hp => exact absurd hp hwait
  | spawns hp | refusesSpawned i hp | registers i hp | retires i after hp | terminates i after hp =>
    simp [hp, Phase.holds] at hidle
  | escapes script error started hp => simp [hp, Phase.holds] at hidle
  | gives entry phase hgives =>
    generalize job.phase = before at hgives hidle
    cases hgives <;> cases hidle
  | reads i worker read rest ready phase hw hf hreads =>
    simp [hreads.holds.1] at hidle

theorem Shut.step {action : Action F} (h : Shut w) (heff : Effect w action w') : Shut w' := by
  cases heff with
  | runBlocking deadlineNs cancellable startedAt =>
    refine ⟨h.closed, fun job hmem => ?_, h.terminated⟩
    rcases List.mem_append.mp hmem with hmem | hmem
    · exact h.idle job hmem
    · rw [List.mem_singleton.mp hmem]
      exact ⟨rfl, by simp⟩
  | close => exact ⟨h.closed, h.idle, h.terminated⟩
  | job k choice job job' u hk hs =>
    obtain ⟨hholds, hwaits⟩ := h.idle job (List.mem_of_getElem? hk)
    obtain ⟨hholds', hwaits', hworkers⟩ := hs.idle h.closed hholds hwaits
    refine ⟨hs.flag.1.trans h.closed, fun other hmem => ?_, fun i hi => ?_⟩
    · dsimp only at hmem
      rw [hs.others.1] at hmem
      rcases List.mem_or_eq_of_mem_set hmem with hmem | rfl
      · exact h.idle other hmem
      · exact ⟨hholds', hwaits'⟩
    · obtain ⟨worker, hw, ht⟩ := hi
      exact h.terminated i ⟨worker, hworkers ▸ hw, ht⟩
  | closer k closer closer' u hk hs =>
    refine ⟨hs.flag.1 h.closed, fun job hmem => h.idle job (hs.others.1 ▸ hmem), fun i hi => ?_⟩
    cases hs with
    | kills j rest | killsIdle j rest =>
      exact h.terminated i (running_alter Worker.terminated_terminate hi).2
    | _ => exact h.terminated i hi
  | worker action i worker worker' hw ht =>
    exact ⟨h.closed, h.idle, fun j hj => h.terminated j (running_setWorker hw ht hj)⟩

/-- A process was started that no worker stands for. -/
def Spawned.orphans : Spawned → Bool
  | .raised _ started => started
  | _ => false

/-- A spawn returns a worker or starts no process. -/
def Clean (action : Action F) : Prop :=
  ∀ script ∈ action.script?, (spawnWorker script).orphans = false

instance (action : Action F) : Decidable (Clean action) :=
  inferInstanceAs (Decidable (∀ script ∈ action.script?, (spawnWorker script).orphans = false))

theorem orphans_of_reach {w₀ : WorkerSet F} (h0 : w₀.orphans = 0)
    (h : Reach WorkerSet.step (fun action _ => Clean action) w₀ w) : w.orphans = 0 := by
  refine h.invariant (I := fun w => w.orphans = 0) h0 fun u a v _ hu hok hs => ?_
  have halter : ∀ (w : WorkerSet F) i f, (w.alter i f).orphans = w.orphans := by
    intro w i f
    unfold WorkerSet.alter
    split <;> rfl
  cases effect_of_step hs with
  | job i choice job job' v' hi hstep =>
    cases hstep with
    | escapes script error started hp hc hspawn =>
      rw [hc] at hok
      have hnot : started = false := by simpa [Clean, Action.script?, hspawn, Spawned.orphans] using hok
      rw [hnot]
      exact hu
    | refusesSpawned | terminates => simpa [halter] using hu
    | _ => exact hu
  | closer j closer closer' v' hj hstep =>
    cases hstep with
    | kills | killsIdle => simpa [halter] using hu
    | _ => exact hu
  | _ => exact hu

/-- **No worker outlives close.** In every state a running worker is in `_live`, or spawned by a
lease call that has not registered it, or taken out of `_live` by a call that is about to terminate
it. Once close has returned and every lease call and lease has exited, every process that was ever
spawned is a terminated worker, and no later lease call gets a lease. -/
theorem none_outlives_close (width : ℕ) (w : WorkerSet F)
    (h : Reach WorkerSet.step (fun action _ => Clean action) (.init width) w) :
    (∀ i, w.Running i → i ∈ w.live ∨ (∃ job ∈ w.jobs, job.phase = .spawned i) ∨
      (∃ job ∈ w.jobs, ∃ after, job.phase = .terminating i after) ∨
      ∃ closer ∈ w.closers, ∃ live, closer = .killing live ∧ i ∈ live) ∧
    (w.closers ≠ [] → (∀ closer ∈ w.closers, closer = .returned) →
      (∀ job ∈ w.jobs, job.phase.outside = true) →
      ∀ u, Reach WorkerSet.step (fun action _ => Clean action) w u →
        (∀ worker ∈ u.workers, worker.terminated = true) ∧ u.orphans = 0 ∧
        ∀ job ∈ u.jobs, job.phase.holds = false) := by
  have hcustody := custody_of_reach h
  refine ⟨fun i hi => ?_, fun hne hreturned houtside u hu => ?_⟩
  · rcases hcustody.covered i hi with hl | ⟨job, hmem, hk⟩ | ⟨closer, hmem, ht⟩
    · exact .inl hl
    · cases hp : job.phase with
      | spawned j =>
        obtain rfl : j = i := by simpa [hp, Phase.keeps] using hk
        exact .inr (.inl ⟨job, hmem, hp⟩)
      | terminating j after =>
        obtain rfl : j = i := by simpa [hp, Phase.keeps] using hk
        exact .inr (.inr (.inl ⟨job, hmem, after, hp⟩))
      | _ => simp [hp, Phase.keeps] at hk
    · cases closer with
      | killing live => exact .inr (.inr (.inr ⟨_, hmem, live, rfl, ht⟩))
      | _ => simp [Closer.targets] at ht
  · -- Every call of `close` has returned, so `_live` is empty, and no call keeps a worker.
    have hclosed : w.closed = true := by
      obtain ⟨closer, hmem⟩ := List.exists_mem_of_ne_nil _ hne
      exact hcustody.flagged closer hmem (by rw [hreturned closer hmem]; rfl)
    have hlive : w.live = [] := by
      refine (hcustody.swept hclosed).resolve_right fun hmem => ?_
      exact absurd (hreturned _ hmem) (by simp)
    have hshut : Shut w := by
      refine ⟨hclosed, fun job hmem => ?_, fun i hi => ?_⟩
      · have hout := houtside job hmem
        cases hp : job.phase with
        | completing lease completion => cases lease <;> simp_all [Phase.outside, Phase.holds]
        | _ => simp_all [Phase.outside, Phase.holds]
      · rcases hcustody.covered i hi with hl | ⟨job, hmem, hk⟩ | ⟨closer, hmem, ht⟩
        · simp [hlive] at hl
        · have hout := houtside job hmem
          cases hp : job.phase <;> simp [hp, Phase.keeps, Phase.outside] at hk hout
        · simp [hreturned closer hmem, Closer.targets] at ht
    have hlater : Shut u := hu.invariant hshut fun _ _ _ _ hv _ hs => hv.step (effect_of_step hs)
    refine ⟨fun worker hmem => ?_, orphans_of_reach (orphans_of_reach rfl h) hu,
      fun job hmem => (hlater.idle job hmem).1⟩
    obtain ⟨i, hi⟩ := List.mem_iff_getElem?.mp hmem
    by_contra ht
    exact hlater.terminated i ⟨worker, hi, by simpa using ht⟩

/-- A pool closed while its one worker is spawned: the call finds it closed and terminates the
worker. -/
def closedMidSpawn : List (Action ℕ) :=
  [.runBlocking none false 0, .job 0 .go, .job 0 .go, .job 0 .go, .job 0 (.spawn {}), .close, .closer 0,
    .closer 0, .closer 0, .closer 0, .closer 0, .closer 0, .job 0 .go, .job 0 .go, .job 0 .go,
    .job 0 (.clock 1)]

theorem closedMidSpawn_outlived : ∃ w : WorkerSet ℕ, w.workers.length = 1 ∧
    (∀ worker ∈ w.workers, worker.terminated = true) ∧ w.orphans = 0 ∧
      ∀ job ∈ w.jobs, job.phase.holds = false :=
  ⟨_, rfl, (none_outlives_close 1 _ (.of_exec_checked closedMidSpawn rfl)).2 (by decide) (by decide)
    (by decide) _ .refl⟩

end DrExec.Execution.WorkerPool
