import DrExec.Execution.WorkerPool
import DrExec.Lib.Lists

/-! # The steps of a worker set

`JobStep` and `CloserStep` say once what a step of a call can do, and `effect_of_step` what a step
of the whole system can do. A call takes and puts back entries of the slot queue, starts, registers,
reads from, retires and terminates workers, and between these only changes its own place (`Local`).
-/

namespace DrExec.Execution.WorkerPool

open DrExec.Lib.Transition
open DrExec.Declarations.Models (floatOverflow)

variable {F : Type}

/-! ### The steps of a call -/

/-- The steps of a call that change nothing but its phase. -/
inductive Local (w : WorkerSet F) (job : Job F) (choice : Choice) : Phase F → Prop
  | begins : job.phase = .begun → Local w job choice .entering
  | declines : job.phase = .begun →
      Local w job choice (.completing none (.stopped .cancelled false))
  | refused : job.phase = .entering →
      Local w job choice (.completing none (.protocolFailed closedDetail))
  | enters : job.phase = .entering → w.closed = false → Local w job choice .waiting
  | overflows (deadlineNs elapsed : ℕ) : job.phase = .entering → job.deadlineNs = some deadlineNs →
      choice = .poll elapsed → floatOverflow ≤ (deadlineNs : ℤ) - elapsed →
      Local w job choice (.ended (.error .overflow))
  | stops (reason : StopReason) : job.phase = .waiting →
      Local w job choice (.completing none (.stopped reason false))
  | refuses (i : ℕ) : job.phase = .taken i → Local w job choice (.retiring i (.refused false))
  | reuses (i : ℕ) : job.phase = .taken i → w.closed = false → Local w job choice (.leased i)
  | failsSpawn (errno : ℤ) (message : String) : job.phase = .spawning →
      Local w job choice (.unspawned errno message)
  | isReady (i : ℕ) : job.phase = .leased i → Local w job choice (.sending i)
  | interrupted (i : ℕ) (reason : StopReason) : job.phase = .leased i ∨ job.phase = .receiving i →
      Local w job choice (.completing (some (i, true)) (.stopped reason true))
  | closedPipe (i : ℕ) (worker : Worker F) : job.phase = .sending i ∨ job.phase = .flushing i →
      w.workers[i]? = some worker → worker.requestsOpen = false →
      Local w job choice (.leaving i false (.error .closedPipe))
  | writes (i : ℕ) : job.phase = .sending i → Local w job choice (.flushing i)
  | breaks (i : ℕ) : job.phase = .sending i → Local w job choice (.dying i)
  | flushes (i : ℕ) : job.phase = .flushing i → Local w job choice (.receiving i)
  | died (i : ℕ) (exitCode : ℤ) : job.phase = .dying i →
      Local w job choice (.completing (some (i, true)) (.died exitCode))
  | completes (completion : Completion F) (now : ℤ) : job.phase = .completing none completion →
      choice = .clock now →
      Local w job choice (.ended (WorkerSet.complete job.startedAt now completion))
  | completesLeased (i : ℕ) (discarded : Bool) (completion : Completion F) (now : ℤ) :
      job.phase = .completing (some (i, discarded)) completion → choice = .clock now →
      Local w job choice (.leaving i discarded (WorkerSet.complete job.startedAt now completion))
  | exits (i : ℕ) (discarded : Bool) (result : Result F) :
      job.phase = .leaving i discarded result → Local w job choice (.retiring i (.exited result))
  | releases (i : ℕ) (result : Result F) : job.phase = .leaving i false result →
      w.closed = false → Local w job choice (.returning i result)

/-- The steps of a call that put an entry into the slot queue: its phase before, the entry, and its
phase after. -/
inductive Gives : Phase F → Option ℕ → Phase F → Prop
  | failed (errno : ℤ) (message : String) :
      Gives (.unspawned errno message) none (.completing none (.spawnFailed errno message))
  | worker (i : ℕ) (result : Result F) : Gives (.returning i result) (some i) (.ended result)
  | freed (after : After F) : Gives (.freeing after) none after.phase

/-- The steps of a call that read from worker `i`: its phase before, what it reads, and its phase
after. -/
inductive Reads (i : ℕ) : Phase F → Option (Frame F) → Phase F → Prop
  | ready : Reads i (.leased i) (some .ready) (.sending i)
  | unready (read : Option (Frame F)) :
      Reads i (.leased i) read (.completing (some (i, true)) (.protocolFailed startupDetail))
  | answer (frame : Frame F) :
      Reads i (.receiving i) (some frame) (.completing (some (i, false)) (.interpreted frame))
  | death : Reads i (.receiving i) none (.dying i)

/-- What a step of a call does. -/
inductive JobStep (w : WorkerSet F) (job : Job F) (choice : Choice) :
    WorkerSet F → Job F → Prop
  | goes (phase : Phase F) : Local w job choice phase →
      JobStep w job choice w { job with phase := phase }
  | takesSlot (rest : List (Option ℕ)) : job.phase = .waiting → w.slots = none :: rest →
      JobStep w job choice { w with slots := rest }
        { job with phase := .spawning, took := job.took + 1 }
  | takesWorker (i : ℕ) (rest : List (Option ℕ)) : job.phase = .waiting → w.slots = some i :: rest →
      JobStep w job choice { w with slots := rest }
        { job with phase := .taken i, took := job.took + 1 }
  | spawns : job.phase = .spawning → JobStep w job choice { w with workers := w.workers ++ [{}] }
      { job with phase := .spawned w.workers.length }
  | escapes (script : SpawnScript) (error : Raised) (started : Bool) : job.phase = .spawning →
      choice = .spawn script → spawnWorker script = .raised error started →
      JobStep w job choice { w with orphans := w.orphans + started.toNat }
        { job with phase := .ended (.error (.spawn error)) }
  | gives (entry : Option ℕ) (phase : Phase F) : Gives job.phase entry phase →
      JobStep w job choice (w.put entry) { job with phase := phase, gave := job.gave + 1 }
  | registers (i : ℕ) : job.phase = .spawned i → w.closed = false →
      JobStep w job choice { w with live := i :: w.live } { job with phase := .leased i }
  | refusesSpawned (i : ℕ) : job.phase = .spawned i → w.closed = true →
      JobStep w job choice (w.kill i) { job with phase := .terminating i (.refused true) }
  | reads (i : ℕ) (worker : Worker F) (read : Option (Frame F)) (rest : List (Option (Frame F)))
      (ready : Bool) (phase : Phase F) : w.workers[i]? = some worker → worker.frames = read :: rest →
      Reads i job.phase read phase →
      JobStep w job choice (w.setWorker i { worker with ready := ready, frames := rest })
        { job with phase := phase }
  | retires (i : ℕ) (after : After F) : job.phase = .retiring i after →
      JobStep w job choice { w with live := w.live.filter fun j => j ≠ i }
        { job with phase := if i ∈ w.live then .terminating i after else .freeing after }
  | terminates (i : ℕ) (after : After F) : job.phase = .terminating i after →
      JobStep w job choice (w.terminate i) { job with phase := .freeing after }

/-- **The steps of a call**, case by case. -/
theorem jobStep_of_stepJob {w w' : WorkerSet F} {job job' : Job F} {choice : Choice}
    (h : w.stepJob job choice = some (w', job')) : JobStep w job choice w' job' := by
  simp only [WorkerSet.stepJob] at h
  split at h
  · next hp => cases h; exact .goes _ (.begins hp)
  · next hp =>
    split_ifs at h
    cases h
    exact .goes _ (.declines hp)
  · next hp =>
    split_ifs at h with hc
    · cases h; exact .goes _ (.refused hp)
    · cases h; exact .goes _ (.enters hp (by simpa using hc))
  · next elapsed hp =>
    obtain ⟨deadlineNs, hd, h⟩ := Option.bind_eq_some_iff.mp h
    split_ifs at h with hc hover
    · cases h; exact .goes _ (.overflows deadlineNs elapsed hp hd rfl hover)
    · cases h; exact .goes _ (.enters hp (by simpa using hc))
  · next hp =>
    split at h
    · cases h
    · next rest hs => cases h; exact .takesSlot rest hp hs
    · next i rest hs => cases h; exact .takesWorker i rest hp hs
  · next reason hp =>
    split_ifs at h
    cases h
    exact .goes _ (.stops reason hp)
  · next i hp =>
    split_ifs at h with hc
    · cases h; exact .goes _ (.refuses i hp)
    · cases h; exact .goes _ (.reuses i hp (by simpa using hc))
  · next script hp =>
    split at h
    · cases h; exact .spawns hp
    · next errno message _ => cases h; exact .goes _ (.failsSpawn errno message hp)
    · next error started hs => cases h; exact .escapes script error started hp rfl hs
  · next errno message hp => cases h; exact .gives _ _ (hp ▸ .failed errno message)
  · next i hp =>
    split_ifs at h with hl hc
    · cases h; exact .refusesSpawned i hp hc
    · cases h; exact .registers i hp (by simpa using hc)
  · next i hp =>
    obtain ⟨worker, hw, h⟩ := Option.bind_eq_some_iff.mp h
    obtain ⟨⟨u, phase⟩, hr, h⟩ := Option.map_eq_some_iff.mp h
    cases h
    unfold WorkerSet.waitForReady at hr
    split_ifs at hr
    · cases hr; exact .goes _ (.isReady i hp)
    · split at hr
      · cases hr
      · next rest hf => cases hr; exact .reads i worker _ rest true _ hw hf (hp ▸ .ready)
      · next read rest _ hf =>
        cases hr
        exact .reads i worker read rest worker.ready _ hw hf (hp ▸ .unready read)
  · next i reason hp =>
    obtain ⟨worker, -, h⟩ := Option.bind_eq_some_iff.mp h
    split_ifs at h
    cases h
    exact .goes _ (.interrupted i reason (.inl hp))
  · next i broken hp =>
    obtain ⟨worker, hw, h⟩ := Option.bind_eq_some_iff.mp h
    split_ifs at h with hopen
    · cases h; exact .goes _ (.closedPipe i worker (.inl hp) hw (by simpa using hopen))
    · cases h; exact .goes _ (.breaks i hp)
    · cases h; exact .goes _ (.writes i hp)
  · next i hp =>
    obtain ⟨worker, hw, h⟩ := Option.bind_eq_some_iff.mp h
    split_ifs at h with hopen
    · cases h; exact .goes _ (.closedPipe i worker (.inr hp) hw (by simpa using hopen))
    · cases h; exact .goes _ (.flushes i hp)
  · next i hp =>
    obtain ⟨worker, hw, h⟩ := Option.bind_eq_some_iff.mp h
    obtain ⟨⟨u, phase⟩, hr, h⟩ := Option.map_eq_some_iff.mp h
    cases h
    unfold WorkerSet.receive at hr
    split at hr
    · cases hr
    · next frame rest hf =>
      cases hr
      exact .reads i worker _ rest worker.ready _ hw hf (hp ▸ .answer frame)
    · next rest hf => cases hr; exact .reads i worker _ rest worker.ready _ hw hf (hp ▸ .death)
  · next i reason hp =>
    split_ifs at h
    cases h
    exact .goes _ (.interrupted i reason (.inr hp))
  · next i hp =>
    obtain ⟨worker, -, h⟩ := Option.bind_eq_some_iff.mp h
    obtain ⟨exitCode, -, h⟩ := Option.bind_eq_some_iff.mp h
    cases h
    exact .goes _ (.died i exitCode hp)
  · next completion now hp => cases h; exact .goes _ (.completes completion now hp rfl)
  · next i discarded completion now hp =>
    cases h
    exact .goes _ (.completesLeased i discarded completion now hp rfl)
  · next i discarded result hp =>
    split_ifs at h with hd
    · cases h; exact .goes _ (.exits i discarded result hp)
    · cases h
      simp only [Bool.or_eq_true, not_or, Bool.not_eq_true] at hd
      obtain ⟨rfl, hc⟩ := hd
      exact .goes _ (.releases i result hp hc)
  · next i result hp => cases h; exact .gives _ _ (hp ▸ .worker i result)
  · next i after hp =>
    by_cases hl : w.locked = true
    · rw [if_pos hl] at h; cases h
    · rw [if_neg hl] at h; cases h; exact .retires i after hp
  · next i after hp =>
    split_ifs at h
    cases h
    exact .terminates i after hp
  · next after hp => cases h; exact .gives _ _ (hp ▸ .freed after)
  · cases h

/-! ### The steps of the system -/

/-- The end of the result pipe was published, and read. -/
def Worker.Spent (worker : Worker F) : Prop := worker.readerDone = true ∧ none ∉ worker.frames

theorem Worker.Spent.of_endOfFile {worker : Worker F} (h : worker.endOfFile.Spent) :
    worker.Spent := by
  obtain ⟨hdone, hmem⟩ := h
  unfold Worker.endOfFile at hdone hmem
  split_ifs at hdone hmem with hr
  · exact ⟨hdone, hmem⟩
  · simp at hmem

theorem Worker.Spent.of_terminate {worker : Worker F} (h : worker.terminate.Spent) :
    worker.Spent :=
  have hkill : worker.kill.Spent := .of_endOfFile h
  hkill

/-- What a step of a call of `close` does. -/
inductive CloserStep (w : WorkerSet F) : Closer → WorkerSet F → Closer → Prop
  | checks : CloserStep w .checking w (if w.closed then .returned else .setting)
  | sets : CloserStep w .setting { w with closed := true } .snapshotting
  | snapshots : CloserStep w .snapshotting { w with live := [] } (.killing w.live)
  | kills (i : ℕ) (rest : List ℕ) : CloserStep w (.killing (i :: rest)) (w.terminate i) (.killing rest)
  | drains : CloserStep w (.killing []) w (.draining [])
  | drainsEntry (pending : List (Option ℕ)) (entry : Option ℕ) (rest : List (Option ℕ)) :
      w.slots = entry :: rest →
      CloserStep w (.draining pending) { w with slots := rest } (.draining (pending ++ [entry]))
  | refills (pending : List (Option ℕ)) : CloserStep w (.draining pending) w (.refilling pending)
  | refillsEntry (rest : List (Option ℕ)) :
      CloserStep w (.refilling (none :: rest)) (w.put none) (.refilling rest)
  | killsIdle (i : ℕ) (rest : List (Option ℕ)) :
      CloserStep w (.refilling (some i :: rest)) (w.terminate i) (.refilling (none :: rest))
  | returns : CloserStep w (.refilling []) w .returned

theorem closerStep_of_stepCloser {w w' : WorkerSet F} {closer closer' : Closer}
    (h : w.stepCloser closer = some (w', closer')) : CloserStep w closer w' closer' := by
  cases closer with
  | checking => cases h; exact .checks
  | setting => cases h; exact .sets
  | snapshotting =>
    simp only [WorkerSet.stepCloser] at h
    split_ifs at h
    cases h
    exact .snapshots
  | killing live =>
    cases live with
    | nil => cases h; exact .drains
    | cons i rest =>
      simp only [WorkerSet.stepCloser] at h
      split_ifs at h
      cases h
      exact .kills i rest
  | draining pending =>
    simp only [WorkerSet.stepCloser] at h
    split at h
    · cases h; exact .refills pending
    · next entry rest hs => cases h; exact .drainsEntry pending entry rest hs
  | refilling pending =>
    rcases pending with _ | ⟨_ | i, rest⟩
    · cases h; exact .returns
    · cases h; exact .refillsEntry rest
    · simp only [WorkerSet.stepCloser] at h
      split_ifs at h
      cases h
      exact .killsIdle i rest
  | returned => cases h

/-- What a step of the system does. -/
inductive Effect (w : WorkerSet F) : Action F → WorkerSet F → Prop
  | runBlocking (deadlineNs : Option ℕ) (cancellable : Bool) (startedAt : ℤ) :
      Effect w (.runBlocking deadlineNs cancellable startedAt)
        { w with
          jobs := w.jobs ++
            [{ deadlineNs := deadlineNs, cancellable := cancellable, startedAt := startedAt }] }
  | job (i : ℕ) (choice : Choice) (job job' : Job F) (u : WorkerSet F) : w.jobs[i]? = some job →
      JobStep w job choice u job' → Effect w (.job i choice) { u with jobs := u.jobs.set i job' }
  | close : Effect w .close { w with closers := w.closers ++ [.checking] }
  | closer (j : ℕ) (closer closer' : Closer) (u : WorkerSet F) : w.closers[j]? = some closer →
      CloserStep w closer u closer' →
      Effect w (.closer j) { u with closers := u.closers.set j closer' }
  | worker (action : Action F) (i : ℕ) (worker worker' : Worker F) : w.workers[i]? = some worker →
      worker'.terminated = worker.terminated → (worker'.Spent → worker.Spent) →
      Effect w action (w.setWorker i worker')

theorem terminated_endOfFile (worker : Worker F) :
    worker.endOfFile.terminated = worker.terminated := by
  unfold Worker.endOfFile
  split_ifs <;> rfl

/-- **The steps of the system**, case by case. -/
theorem effect_of_step {w w' : WorkerSet F} {action : Action F}
    (h : WorkerSet.step action w = some w') : Effect w action w' := by
  cases action with
  | runBlocking deadlineNs cancellable startedAt =>
    cases h
    exact .runBlocking deadlineNs cancellable startedAt
  | close => cases h; exact .close
  | job i choice =>
    obtain ⟨job, hi, h⟩ := Option.bind_eq_some_iff.mp h
    obtain ⟨⟨u, job'⟩, hs, h⟩ := Option.map_eq_some_iff.mp h
    cases h
    exact .job i choice job job' u hi (jobStep_of_stepJob hs)
  | closer j =>
    obtain ⟨closer, hj, h⟩ := Option.bind_eq_some_iff.mp h
    obtain ⟨⟨u, closer'⟩, hs, h⟩ := Option.map_eq_some_iff.mp h
    cases h
    exact .closer j closer closer' u hj (closerStep_of_stepCloser hs)
  | answer i frame =>
    obtain ⟨worker, hi, h⟩ := Option.bind_eq_some_iff.mp h
    split_ifs at h
    cases h
    exact .worker _ i worker _ hi rfl fun hspent => ⟨hspent.1, by simpa using hspent.2⟩
  | die i exitCode =>
    obtain ⟨worker, hi, h⟩ := Option.bind_eq_some_iff.mp h
    split_ifs at h
    cases h
    exact .worker _ i worker _ hi rfl id
  | share i shared =>
    obtain ⟨worker, hi, h⟩ := Option.bind_eq_some_iff.mp h
    split_ifs at h
    cases h
    exact .worker _ i worker _ hi rfl id
  | endOfFile i =>
    obtain ⟨worker, hi, h⟩ := Option.bind_eq_some_iff.mp h
    split_ifs at h
    cases h
    exact .worker _ i worker _ hi (terminated_endOfFile worker) .of_endOfFile

end DrExec.Execution.WorkerPool
