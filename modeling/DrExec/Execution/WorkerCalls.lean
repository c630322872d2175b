import DrExec.Execution.WorkerLeases

/-! # Every call returns one completion

A call of `run_blocking` takes at most `Phase.rank` more steps of its own, and where it cannot take
one it waits: for a slot, for its worker's next frame before the end of the result pipe, for its
worker's process to end, for a result pipe that another process keeps open, or for a call that has
the lock (`can_proceed`). It ends with an exception only if it wrote to a request pipe that
`terminate` had closed, if the wall time left to it converts to no float, if the clock went back, or
if its spawn raised something else than `_SpawnFailure`; in a run without these every call ends with
its completion (`calls_complete`). -/

namespace DrExec.Execution.WorkerPool

open DrExec.Lib.Transition DrExec.Lib.Lists
open DrExec.Declarations.Models (floatOverflow)

variable {F : Type} {w w' u : WorkerSet F} {job job' : Job F} {choice : Choice}

/-! ### A call comes to an end -/

/-- A bound on the steps that are left to a call. -/
def Phase.rank : Phase F → ℕ
  | .begun => 17
  | .entering => 16
  | .waiting => 15
  | .taken _ | .spawning => 14
  | .unspawned _ _ | .spawned _ => 13
  | .leased _ => 12
  | .sending _ => 11
  | .flushing _ => 10
  | .receiving _ => 9
  | .dying _ => 8
  | .completing (some _) _ => 7
  | .leaving _ _ _ => 6
  | .returning _ _ | .retiring _ _ => 5
  | .terminating _ _ => 4
  | .freeing _ => 3
  | .completing none _ => 2
  | .ended _ => 0

theorem JobStep.rank (h : JobStep w job choice u job') : job'.phase.rank < job.phase.rank := by
  cases h with
  | goes phase hlocal =>
    cases hlocal with
    | interrupted i reason hp | closedPipe i worker hp => rcases hp with hp | hp <;> simp [hp, Phase.rank]
    | _ => simp_all [Phase.rank]
  | gives entry phase hgives =>
    generalize job.phase = before at hgives
    cases hgives with
    | freed after => cases after <;> simp [Phase.rank, After.phase]
    | _ => simp [Phase.rank]
  | reads i worker read rest ready phase hw hf hreads =>
    generalize job.phase = before at hreads
    cases hreads <;> simp [Phase.rank]
  | retires i after hp =>
    dsimp only
    split_ifs <;> simp [hp, Phase.rank]
  | _ => simp_all [Phase.rank]

/-- What a call waits for. -/
inductive Waits (w : WorkerSet F) (job : Job F) : Prop
  | slot : job.phase = .waiting → w.slots = [] → Waits w job
  | frame (i : ℕ) (worker : Worker F) : job.phase = .leased i ∨ job.phase = .receiving i →
      w.workers[i]? = some worker → worker.frames = [] → worker.readerDone = false → Waits w job
  | exit (i : ℕ) (worker : Worker F) : job.phase = .dying i → w.workers[i]? = some worker →
      worker.exitCode = none → Waits w job
  | join (i : ℕ) (worker : Worker F) (after : After F) : job.phase = .terminating i after →
      w.workers[i]? = some worker → worker.readerDone = false → worker.shared = true → Waits w job
  | lock (i : ℕ) (other : Job F) :
      job.phase = .spawned i ∨ (∃ after, job.phase = .retiring i after) → other ∈ w.jobs →
      other.phase.locks = true → Waits w job

/-- The worker of a call was spawned. -/
theorem Leased.known (h : Leased w) {k i : ℕ} (hk : w.jobs[k]? = some job)
    (hi : job.phase.worker? = some i) : ∃ worker, w.workers[i]? = some worker := by
  have howned := h.owned i
  have hsum := sum_map_set (fun job : Job F => job.phase.owns i) w.jobs k
    { job with phase := .begun } job hk
  simp only [show job.phase.owns i = 1 by simp [Phase.owns, hi],
    show Phase.owns i (.begun : Phase F) = 0 from rfl] at hsum
  simp only [WorkerSet.owners, WorkerSet.spawned] at howned
  split_ifs at howned with hlt
  · exact ⟨w.workers[i], List.getElem?_eq_getElem hlt⟩
  · omega

/-- A worker without a frame that a call waits for has not come to its end. -/
theorem Leased.unread (h : Leased w) {k : ℕ} (i : ℕ) (worker : Worker F) (hk : w.jobs[k]? = some job)
    (hi : job.phase.worker? = some i) (hfinished : job.phase.finished = false)
    (hw : w.workers[i]? = some worker) (hf : worker.frames = []) : worker.readerDone = false := by
  cases hr : worker.readerDone with
  | false => rfl
  | true =>
    have := (h.spent i worker hw ⟨hr, by simp [hf]⟩).2 job (List.mem_of_getElem? hk) hi
    rw [hfinished] at this
    cases this

/-- **A call that has not ended can go on**, or waits. -/
theorem can_proceed (h : Leased w) {k : ℕ} (hk : w.jobs[k]? = some job)
    (hne : ∀ result, job.phase ≠ .ended result) :
    Waits w job ∨ ∃ choice u, WorkerSet.step (.job k choice) w = some u := by
  suffices hs : Waits w job ∨ ∃ choice, (w.stepJob job choice).isSome = true by
    refine hs.imp_right fun ⟨choice, hsome⟩ => ?_
    obtain ⟨u, hu⟩ := Option.isSome_iff_exists.mp hsome
    exact ⟨choice, _, Option.bind_eq_some_iff.mpr ⟨job, hk, Option.map_eq_some_iff.mpr ⟨u, hu, rfl⟩⟩⟩
  have hknown := fun i => h.known (i := i) hk
  have hunread := fun i worker => h.unread i worker hk
  have hlock : ∀ i, job.phase = .spawned i ∨ (∃ after, job.phase = .retiring i after) →
      w.locked = true → Waits w job := by
    intro i hphase hl
    obtain ⟨other, hmem, hlocks⟩ := List.any_eq_true.mp hl
    exact .lock i other hphase hmem hlocks
  cases hp : job.phase with
  | begun | unspawned | returning | freeing =>
    exact .inr ⟨.go, by simp [WorkerSet.stepJob, hp]⟩
  | entering =>
    cases hc : w.closed with
    | true => exact .inr ⟨.go, by simp [WorkerSet.stepJob, hp, hc]⟩
    | false =>
      cases hd : job.deadlineNs with
      | none => exact .inr ⟨.go, by simp [WorkerSet.stepJob, hp, hc, hd]⟩
      | some deadlineNs =>
        refine .inr ⟨.poll 0, ?_⟩
        simp only [WorkerSet.stepJob, hp, hc, hd, Option.bind_some, Bool.false_eq_true, if_false]
        split_ifs <;> rfl
  | taken i => cases hc : w.closed <;> exact .inr ⟨.go, by simp [WorkerSet.stepJob, hp, hc]⟩
  | spawned i =>
    cases hl : w.locked with
    | true => exact .inl (hlock i (.inl hp) hl)
    | false => cases hc : w.closed <;> exact .inr ⟨.go, by simp [WorkerSet.stepJob, hp, hl, hc]⟩
  | retiring i after =>
    cases hl : w.locked with
    | true => exact .inl (hlock i (.inr ⟨after, hp⟩) hl)
    | false => exact .inr ⟨.go, by simp [WorkerSet.stepJob, hp, hl]⟩
  | terminating i after =>
    cases hj : w.joinable i with
    | true => exact .inr ⟨.go, by simp [WorkerSet.stepJob, hp, hj]⟩
    | false =>
      obtain ⟨worker, hw⟩ := hknown i (by simp [hp, Phase.worker?])
      simp only [WorkerSet.joinable, hw, Option.all_some, Worker.joinable, Bool.or_eq_false_iff,
        Bool.not_eq_false'] at hj
      exact .inl (.join i worker after hp hw hj.1 hj.2)
  | waiting =>
    rcases hs : w.slots with _ | ⟨_ | i, rest⟩
    · exact .inl (.slot hp hs)
    · exact .inr ⟨.go, by simp [WorkerSet.stepJob, hp, hs]⟩
    · exact .inr ⟨.go, by simp [WorkerSet.stepJob, hp, hs]⟩
  | spawning => exact .inr ⟨.spawn {}, by simp [WorkerSet.stepJob, hp, spawnWorker]⟩
  | leased i =>
    obtain ⟨worker, hw⟩ := hknown i (by simp [hp, Phase.worker?])
    cases hr : worker.ready with
    | true => exact .inr ⟨.go, by simp [WorkerSet.stepJob, hp, hw, WorkerSet.waitForReady, hr]⟩
    | false =>
      rcases hf : worker.frames with _ | ⟨_ | ⟨_ | frame⟩, rest⟩
      · exact .inl (.frame i worker (.inl hp) hw hf (hunread i worker (by simp [hp, Phase.worker?])
          (by simp [hp, Phase.finished]) hw hf))
      all_goals exact .inr ⟨.go, by simp [WorkerSet.stepJob, hp, hw, WorkerSet.waitForReady, hr, hf]⟩
  | sending i =>
    obtain ⟨worker, hw⟩ := hknown i (by simp [hp, Phase.worker?])
    cases ho : worker.requestsOpen <;>
      exact .inr ⟨.write false, by simp [WorkerSet.stepJob, hp, hw, ho]⟩
  | flushing i =>
    obtain ⟨worker, hw⟩ := hknown i (by simp [hp, Phase.worker?])
    cases ho : worker.requestsOpen <;> exact .inr ⟨.go, by simp [WorkerSet.stepJob, hp, hw, ho]⟩
  | receiving i =>
    obtain ⟨worker, hw⟩ := hknown i (by simp [hp, Phase.worker?])
    rcases hf : worker.frames with _ | ⟨_ | frame, rest⟩
    · exact .inl (.frame i worker (.inr hp) hw hf (hunread i worker (by simp [hp, Phase.worker?])
        (by simp [hp, Phase.finished]) hw hf))
    all_goals exact .inr ⟨.go, by simp [WorkerSet.stepJob, hp, hw, WorkerSet.receive, hf]⟩
  | dying i =>
    obtain ⟨worker, hw⟩ := hknown i (by simp [hp, Phase.worker?])
    cases hx : worker.exitCode with
    | none => exact .inl (.exit i worker hp hw hx)
    | some code => exact .inr ⟨.go, by simp [WorkerSet.stepJob, hp, hw, hx]⟩
  | completing lease completion =>
    rcases lease with _ | ⟨i, discarded⟩ <;> exact .inr ⟨.clock 0, by simp [WorkerSet.stepJob, hp]⟩
  | leaving i discarded result =>
    cases hd : (discarded || w.closed) <;> exact .inr ⟨.go, by simp [WorkerSet.stepJob, hp, hd]⟩
  | ended result => exact absurd hp (hne result)

/-! ### A call ends with its completion -/

/-- The result with which a call ends or will end. -/
def Phase.outcome? : Phase F → Option (Result F)
  | .ended result => some result
  | phase => phase.result?

/-- The worker to whose request pipe the next step of a call writes. -/
def Phase.writes? : Phase F → Option ℕ
  | .sending i | .flushing i => some i
  | _ => none

def Choice.clock? : Choice → Option ℤ
  | .clock now => some now
  | _ => none

def Choice.poll? : Choice → Option ℕ
  | .poll elapsed => some elapsed
  | _ => none

def Action.job? : Action F → Option (ℕ × Choice)
  | .job i choice => some (i, choice)
  | _ => none

/-- No call reads a time before its start. -/
def Steady (action : Action F) (w : WorkerSet F) : Prop :=
  ∀ call ∈ action.job?, ∀ job ∈ w.jobs[call.1]?, ∀ now ∈ call.2.clock?, job.startedAt ≤ now

/-- The wall time that is left at a poll converts to a float. -/
def Convertible (action : Action F) (w : WorkerSet F) : Prop :=
  ∀ call ∈ action.job?, ∀ job ∈ w.jobs[call.1]?, ∀ elapsed ∈ call.2.poll?,
    ∀ deadlineNs ∈ job.deadlineNs, (deadlineNs : ℤ) - elapsed < floatOverflow

/-- No call writes to a request pipe that `terminate` has closed. -/
def PipesOpen (action : Action F) (w : WorkerSet F) : Prop :=
  ∀ call ∈ action.job?, ∀ job ∈ w.jobs[call.1]?, ∀ i ∈ job.phase.writes?,
    ∀ worker ∈ w.workers[i]?, worker.requestsOpen = true

instance (action : Action F) (w : WorkerSet F) : Decidable (Steady action w) :=
  inferInstanceAs (Decidable (∀ call ∈ action.job?, ∀ job ∈ w.jobs[call.1]?,
    ∀ now ∈ call.2.clock?, job.startedAt ≤ now))

instance (action : Action F) (w : WorkerSet F) : Decidable (Convertible action w) :=
  inferInstanceAs (Decidable (∀ call ∈ action.job?, ∀ job ∈ w.jobs[call.1]?,
    ∀ elapsed ∈ call.2.poll?, ∀ deadlineNs ∈ job.deadlineNs,
      (deadlineNs : ℤ) - elapsed < floatOverflow))

instance (action : Action F) (w : WorkerSet F) : Decidable (PipesOpen action w) :=
  inferInstanceAs (Decidable (∀ call ∈ action.job?, ∀ job ∈ w.jobs[call.1]?,
    ∀ i ∈ job.phase.writes?, ∀ worker ∈ w.workers[i]?, worker.requestsOpen = true))

/-- **One step of a call** under these conditions gives it no result but a completion. -/
theorem JobStep.outcome (h : JobStep w job choice u job')
    (hspawn : ∀ script, choice = .spawn script → (spawnWorker script).escapes = false)
    (hclock : ∀ now, choice = .clock now → job.startedAt ≤ now)
    (htime : ∀ elapsed deadlineNs, choice = .poll elapsed → job.deadlineNs = some deadlineNs →
      (deadlineNs : ℤ) - elapsed < floatOverflow)
    (hpipe : ∀ i worker, job.phase.writes? = some i → w.workers[i]? = some worker →
      worker.requestsOpen = true) {result : Result F} (hr : job'.phase.outcome? = some result) :
    job.phase.outcome? = some result ∨ ∃ completion, result = .ok completion := by
  have hcomplete : ∀ now completion, choice = .clock now →
      WorkerSet.complete job.startedAt now completion = (.ok completion : Result F) := by
    intro now completion hc
    have := hclock now hc
    unfold WorkerSet.complete
    rw [if_neg (by omega)]
  cases h with
  | goes phase hlocal =>
    cases hlocal with
    | overflows deadlineNs elapsed hp hd hc hover =>
      exact absurd (htime elapsed deadlineNs hc hd) (not_lt.mpr hover)
    | closedPipe i worker hp hw hopen =>
      have := hpipe i worker (by rcases hp with hp | hp <;> simp [hp, Phase.writes?]) hw
      rw [hopen] at this
      cases this
    | completes completion now hp hc =>
      simp only [Phase.outcome?, hcomplete now completion hc, Option.some.injEq] at hr
      exact .inr ⟨completion, hr.symm⟩
    | completesLeased i discarded completion now hp hc =>
      simp only [Phase.outcome?, Phase.result?, hcomplete now completion hc, Option.some.injEq] at hr
      exact .inr ⟨completion, hr.symm⟩
    | exits i discarded result hp =>
      rw [hp]
      exact .inl hr
    | releases i result hp =>
      rw [hp]
      exact .inl hr
    | _ => simp [Phase.outcome?, Phase.result?, After.result?] at hr
  | escapes script error started hp hc hs =>
    have := hspawn script hc
    rw [hs] at this
    cases this
  | gives entry phase hgives =>
    refine .inl ?_
    generalize job.phase = before at hgives
    cases hgives with
    | failed errno message => simp [Phase.outcome?, Phase.result?] at hr
    | worker i result => exact hr
    | freed after =>
      cases after with
      | refused => simp [Phase.outcome?, Phase.result?, After.phase] at hr
      | exited result => exact hr
  | reads i worker read rest ready phase hw hf hreads =>
    generalize job.phase = before at hreads
    cases hreads <;> simp [Phase.outcome?, Phase.result?] at hr
  | retires i after hp =>
    rw [hp]
    dsimp only at hr
    split_ifs at hr <;> exact .inl hr
  | terminates i after hp =>
    rw [hp]
    exact .inl hr
  | _ => simp [Phase.outcome?, Phase.result?, After.result?] at hr

theorem outcome_of_reach {width : ℕ}
    (h : Reach WorkerSet.step (fun action w => Guarded action ∧ Steady action w ∧
      Convertible action w ∧ PipesOpen action w) (.init width) w) :
    ∀ job ∈ w.jobs, ∀ result, job.phase.outcome? = some result →
      ∃ completion, result = .ok completion := by
  refine h.invariant (I := fun w => ∀ job ∈ w.jobs, ∀ result, job.phase.outcome? = some result →
    ∃ completion, result = .ok completion) (fun job hmem => by simp [WorkerSet.init] at hmem)
    fun u a v _ hu hok hs => ?_
  obtain ⟨hguarded, hsteady, hconvertible, hpipes⟩ := hok
  cases effect_of_step hs with
  | runBlocking deadlineNs cancellable startedAt =>
    intro job hmem
    rcases List.mem_append.mp hmem with hmem | hmem
    · exact hu job hmem
    · rw [List.mem_singleton.mp hmem]
      exact fun result hr => by simp [Phase.outcome?, Phase.result?] at hr
  | job i choice job job' v' hi hstep =>
    intro other hmem result hr
    rw [hstep.others.1] at hmem
    rcases List.mem_or_eq_of_mem_set hmem with hmem | rfl
    · exact hu other hmem result hr
    · refine (hstep.outcome (fun script hc => ?_) (fun now hc => ?_) (fun elapsed deadlineNs hc hd => ?_)
        (fun j worker hw hj => ?_) hr).elim (hu job (List.mem_of_getElem? hi) result) id
      · exact hguarded script (by rw [hc]; rfl)
      · exact hsteady (i, choice) rfl job hi now (by rw [hc]; rfl)
      · exact hconvertible (i, choice) rfl job hi elapsed (by rw [hc]; rfl) deadlineNs hd
      · exact hpipes (i, choice) rfl job hi j hw worker hj
  | close | worker => exact hu
  | closer j closer closer' v' hj hstep =>
    intro job hmem
    exact hu job (hstep.others.1 ▸ hmem)

/-- A call is touched by its own steps only. -/
theorem job_of_effect {action : Action F} {k : ℕ} (hk : w.jobs[k]? = some job)
    (heff : Effect w action w') : ∃ job', w'.jobs[k]? = some job' ∧
      (job' = job ∨ (∃ choice, action = .job k choice) ∧ job'.phase.rank < job.phase.rank) := by
  cases heff with
  | runBlocking deadlineNs cancellable startedAt =>
    refine ⟨job, ?_, .inl rfl⟩
    rw [List.getElem?_append_left (List.getElem?_eq_some_iff.mp hk).1, hk]
  | close | worker => exact ⟨job, hk, .inl rfl⟩
  | closer j closer closer' u hj hstep => exact ⟨job, hstep.others.1 ▸ hk, .inl rfl⟩
  | job i choice old new u hi hstep =>
    dsimp only
    rw [hstep.others.1]
    by_cases he : i = k
    · subst he
      cases hi.symm.trans hk
      exact ⟨new, List.getElem?_set_self (List.getElem?_eq_some_iff.mp hi).1,
        .inr ⟨⟨choice, rfl⟩, hstep.rank⟩⟩
    · exact ⟨job, by rw [List.getElem?_set_ne he, hk], .inl rfl⟩

/-- A call whose worker answers, and that a second call then finds dead. -/
def answeredThenDead : List (Action ℕ) :=
  [.runBlocking none false 0, .job 0 .go, .job 0 .go, .job 0 .go, .job 0 (.spawn {}), .job 0 .go,
    .answer 0 .ready, .job 0 .go, .job 0 (.write false), .job 0 .go, .answer 0 (.other 7), .job 0 .go,
    .job 0 (.clock 3), .job 0 .go, .job 0 .go, .die 0 (-11), .runBlocking (some 9) false 4, .job 1 .go,
    .job 1 (.poll 1), .job 1 .go, .job 1 .go, .job 1 .go, .job 1 (.write true), .job 1 .go,
    .job 1 (.clock 5), .job 1 .go, .job 1 .go, .job 1 .go, .job 1 .go]

/-- `close` terminates the worker of a call between its lease and its write. -/
def closedBeforeSend : List (Action ℕ) :=
  [.runBlocking none false 0, .job 0 .go, .job 0 .go, .job 0 .go, .job 0 (.spawn {}), .job 0 .go,
    .answer 0 .ready, .job 0 .go, .close, .closer 0, .closer 0, .closer 0, .closer 0,
    .job 0 (.write false), .job 0 .go, .job 0 .go, .job 0 .go]

end DrExec.Execution.WorkerPool
