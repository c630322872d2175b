import DrExec.Execution.WorkerCustody
import DrExec.Execution.WorkerLeases

/-! # Closed request pipes

`terminate` closes a worker's request pipe. Only the call that has the worker and gives it up
terminates it, and a call of `close`, which has set the flag (`Cut`). So a call that writes to a
closed pipe finds the flag at the exit of its lease, and does not return the worker. -/

namespace DrExec.Execution.WorkerPool

open DrExec.Lib.Transition DrExec.Lib.Lists

variable {F : Type} {w w' u : WorkerSet F} {job job' : Job F} {choice : Choice}

/-- The request pipe of a worker is closed only when it is in no place, or the flag is set; so a
call that meets a closed pipe finds the flag at the exit of its lease. -/
structure Cut (w : WorkerSet F) : Prop where
  pipes : ∀ i worker, w.workers[i]? = some worker → worker.requestsOpen = false →
    w.closed = true ∨ w.owners i = 0
  calls : ∀ job ∈ w.jobs, ∀ i, job.phase = .leaving i false (.error .closedPipe) → w.closed = true

theorem owners_pos {k i : ℕ} (hk : w.jobs[k]? = some job) (hi : job.phase.worker? = some i) :
    0 < w.owners i := by
  have hle := List.le_sum_of_mem
    (List.mem_map_of_mem (f := fun job : Job F => job.phase.owns i) (List.mem_of_getElem? hk))
  have hone : job.phase.owns i = 1 := by simp [Phase.owns, hi]
  unfold WorkerSet.owners
  omega

/-- A step of a call closes the request pipe of no worker but its own, which it then gives up. -/
theorem JobStep.cuts (h : JobStep w job choice u job') {i : ℕ} {worker' : Worker F}
    (hi : u.workers[i]? = some worker') (hcut : worker'.requestsOpen = false) :
    (∃ worker, w.workers[i]? = some worker ∧ worker.requestsOpen = false) ∨
      job.phase.worker? = some i ∧ job'.phase.worker? = none ∧
        u.slots.count (some i) = w.slots.count (some i) := by
  cases h with
  | spawns hp =>
    rw [List.getElem?_append] at hi
    split_ifs at hi
    · exact .inl ⟨worker', hi, hcut⟩
    · obtain ⟨hlt, rfl⟩ := List.getElem?_eq_some_iff.mp hi
      simp at hcut
  | refusesSpawned j hp =>
    obtain ⟨worker, hw, rfl | ⟨-, rfl⟩⟩ := getElem?_alter hi
    · exact .inl ⟨_, hw, hcut⟩
    · exact .inl ⟨worker, hw, hcut⟩
  | terminates j after hp =>
    obtain ⟨worker, hw, rfl | ⟨rfl, -⟩⟩ := getElem?_alter hi
    · exact .inl ⟨_, hw, hcut⟩
    · exact .inr ⟨by rw [hp]; rfl, rfl, by rw [WorkerSet.slots_alter]⟩
  | reads j worker read rest ready phase hw hf hreads =>
    simp only [WorkerSet.setWorker, List.getElem?_set] at hi
    split_ifs at hi with he hlt
    · subst he
      cases hi
      exact .inl ⟨worker, hw, hcut⟩
    · exact .inl ⟨worker', hi, hcut⟩
  | _ => exact .inl ⟨worker', hi, hcut⟩

/-- A call leaves its lease with the error of a closed pipe after it met one. -/
theorem JobStep.meetsClosed (h : JobStep w job choice u job') {i : ℕ}
    (hi : job'.phase = .leaving i false (.error .closedPipe)) : job.phase.worker? = some i ∧
      ∃ worker, w.workers[i]? = some worker ∧ worker.requestsOpen = false := by
  cases h with
  | goes phase hlocal =>
    dsimp only at hi
    subst hi
    generalize hresult : (Except.error Escaped.closedPipe : Result F) = result at hlocal
    cases hlocal with
    | closedPipe j worker hp hw hopen =>
      exact ⟨by rcases hp with hp | hp <;> simp [hp, Phase.worker?], worker, hw, hopen⟩
    | completesLeased j discarded completion now hp =>
      unfold WorkerSet.complete at hresult
      split_ifs at hresult
      simp at hresult
  | gives entry phase hgives =>
    dsimp only at hi
    generalize job.phase = before at hgives
    cases hgives with
    | freed after => cases after <;> simp [After.phase] at hi
    | _ => simp at hi
  | reads j worker read rest ready phase hw hf hreads =>
    dsimp only at hi
    generalize job.phase = before at hreads
    cases hreads <;> simp at hi
  | retires j after hp =>
    dsimp only at hi
    split_ifs at hi
  | _ => simp at hi

theorem Cut.setWorker {i : ℕ} {old new : Worker F} (h : Cut w) (hi : w.workers[i]? = some old)
    (hopen : new.requestsOpen = old.requestsOpen) : Cut (w.setWorker i new) := by
  refine ⟨fun j worker hj hcut => ?_, h.calls⟩
  simp only [WorkerSet.setWorker, List.getElem?_set] at hj
  split_ifs at hj with he hlt
  · cases hj
    exact h.pipes j old (he ▸ hi) (hopen ▸ hcut)
  · exact h.pipes j worker hj hcut

/-- A step of a call gives no worker a place that was in none. -/
theorem owners_job {k : ℕ} (hk : w.jobs[k]? = some job) (h : JobStep w job choice u job') (i : ℕ) :
    WorkerSet.owners { u with jobs := u.jobs.set k job' } i + w.spawned i ≤
      w.owners i + u.spawned i := by
  obtain ⟨hjobs, hclosers, -⟩ := h.others
  have hmove := h.owns i
  have hsum := sum_map_set (fun job : Job F => job.phase.owns i) w.jobs k job' job hk
  simp only [WorkerSet.owners, WorkerSet.spawned, hjobs, hclosers] at hmove hsum ⊢
  omega

theorem spawned_le (w : WorkerSet F) (i : ℕ) : w.spawned i ≤ 1 := by
  unfold WorkerSet.spawned
  split_ifs <;> omega

theorem Cut.stepJob {k : ℕ} (h : Cut w) (hleased : Leased w) (hk : w.jobs[k]? = some job)
    (hs : JobStep w job choice u job') : Cut { u with jobs := u.jobs.set k job' } := by
  have hflag := hs.flag.1
  have hjobs := hs.others.1
  -- A call that has a worker with a closed pipe finds the flag set.
  have hheld : ∀ i worker, job.phase.worker? = some i → w.workers[i]? = some worker →
      worker.requestsOpen = false → w.closed = true := by
    intro i worker hi hw hcut
    have hpos := owners_pos hk hi
    exact (h.pipes i worker hw hcut).resolve_right (by omega)
  refine ⟨fun i worker' hi hcut => ?_, fun other hmem i hp => ?_⟩
  · rcases hs.cuts hi hcut with ⟨worker, hw, hold⟩ | ⟨hown, hgave, hslots⟩
    · refine (h.pipes i worker hw hold).imp hflag.trans fun hzero => ?_
      have hmove := owners_job hk hs i
      have hold : w.spawned i = 1 := by
        unfold WorkerSet.spawned
        rw [if_pos (List.getElem?_eq_some_iff.mp hw).1]
      have hle := spawned_le u i
      omega
    · -- The call had the worker alone, and has given it up.
      refine .inr ?_
      have hone := (hleased.owned i).trans (spawned_le w i)
      have hpos : job.phase.owns i = 1 := by simp [Phase.owns, hown]
      have hnone : job'.phase.owns i = 0 := by simp [Phase.owns, hgave]
      have hsum := sum_map_set (fun job : Job F => job.phase.owns i) w.jobs k job' job hk
      simp only [WorkerSet.owners, hjobs, hs.others.2.1, hslots] at hone hsum ⊢
      omega
  · refine hflag.trans ?_
    dsimp only at hmem
    rw [hjobs] at hmem
    rcases List.mem_or_eq_of_mem_set hmem with hmem | rfl
    · exact h.calls other hmem i hp
    · obtain ⟨hown, worker, hw, hcut⟩ := hs.meetsClosed hp
      exact hheld i worker hown hw hcut

theorem Cut.stepCloser {j : ℕ} {closer closer' : Closer} (h : Cut w) (hcustody : Custody w)
    (hj : w.closers[j]? = some closer) (hs : CloserStep w closer u closer') :
    Cut { u with closers := u.closers.set j closer' } := by
  obtain ⟨hjobs, hclosers, -⟩ := hs.others
  have hflag := hs.flag.1
  refine ⟨fun i worker' hi hcut => ?_, fun job hmem i hp => hflag (h.calls job (hjobs ▸ hmem) i hp)⟩
  have hentered : closer.entered = true → u.closed = true := fun he =>
    hflag (hcustody.flagged closer (List.mem_of_getElem? hj) he)
  have hkept : ∀ worker, w.workers[i]? = some worker → worker.requestsOpen = false →
      u.closed = true ∨ WorkerSet.owners { u with closers := u.closers.set j closer' } i = 0 := by
    intro worker hw hold
    refine (h.pipes i worker hw hold).imp hflag fun hzero => ?_
    have hmove := (hs.owns i).1
    have hsum := sum_map_set (fun closer : Closer => closer.pending.count (some i)) w.closers j
      closer' closer hj
    simp only [WorkerSet.owners, hjobs, hclosers] at hzero hsum ⊢
    omega
  cases hs with
  | kills | killsIdle => exact .inl (hentered rfl)
  | _ => exact hkept worker' hi hcut

theorem cut_of_reach {width : ℕ} (h : Reachable WorkerSet.step (.init width) w) : Cut w := by
  refine h.invariant ⟨fun i worker hi => by simp [WorkerSet.init] at hi,
    fun job hmem => by simp [WorkerSet.init] at hmem⟩ fun w a u hr hw _ hs => ?_
  cases a with
  | runBlocking deadlineNs cancellable startedAt =>
    cases hs
    refine ⟨fun i worker hi hcut => (hw.pipes i worker hi hcut).imp_right fun hzero => ?_,
      fun job hmem i hp => ?_⟩
    · simpa [WorkerSet.owners, Phase.owns, Phase.worker?] using hzero
    · rcases List.mem_append.mp hmem with hmem | hmem
      · exact hw.calls job hmem i hp
      · rw [List.mem_singleton.mp hmem] at hp
        cases hp
  | close =>
    cases hs
    refine ⟨fun i worker hi hcut => (hw.pipes i worker hi hcut).imp_right fun hzero => ?_, hw.calls⟩
    simpa [WorkerSet.owners, Closer.pending] using hzero
  | job k choice =>
    obtain ⟨job, hk, hs⟩ := Option.bind_eq_some_iff.mp hs
    obtain ⟨⟨v, job'⟩, hstep, rfl⟩ := Option.map_eq_some_iff.mp hs
    exact hw.stepJob (leased_of_reach hr) hk (jobStep_of_stepJob hstep)
  | closer j =>
    obtain ⟨closer, hj, hs⟩ := Option.bind_eq_some_iff.mp hs
    obtain ⟨⟨v, closer'⟩, hstep, rfl⟩ := Option.map_eq_some_iff.mp hs
    exact hw.stepCloser (custody_of_reach hr) hj (closerStep_of_stepCloser hstep)
  | answer i frame =>
    obtain ⟨worker, hi, hs⟩ := Option.bind_eq_some_iff.mp hs
    split_ifs at hs
    cases hs
    exact hw.setWorker hi rfl
  | die i exitCode =>
    obtain ⟨worker, hi, hs⟩ := Option.bind_eq_some_iff.mp hs
    split_ifs at hs
    cases hs
    exact hw.setWorker hi rfl
  | share i shared =>
    obtain ⟨worker, hi, hs⟩ := Option.bind_eq_some_iff.mp hs
    split_ifs at hs
    cases hs
    exact hw.setWorker hi rfl
  | endOfFile i =>
    obtain ⟨worker, hi, hs⟩ := Option.bind_eq_some_iff.mp hs
    split_ifs at hs
    cases hs
    refine hw.setWorker hi ?_
    unfold Worker.endOfFile
    split_ifs <;> rfl

end DrExec.Execution.WorkerPool
