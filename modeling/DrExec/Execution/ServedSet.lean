import DrExec.Execution.WorkerSlots
import Mathlib.Data.List.ReduceOption
import Mathlib.Logic.Function.Basic

/-! # Served worker sets

A worker writes one ready frame, and then one frame for each request, in the order in which it was
sent them. No frame names the call it answers, so a `ServedSet` says it in its place. `Serves` says
once what a step of a served set does to the frames that were published and not delivered; a call
hears its worker only where it waits for it (`hears_of_stepJob`), and finds it ready once
(`Greeted`). -/

namespace DrExec.Execution.WorkerPool

open DrExec.Lib.Transition

variable {R : Type}

/-! ### Served sets -/

/-- A worker set, whether each worker has written its ready frame, and the calls whose requests it
was sent and has not answered, oldest first. A result frame is the call it answers with the result.
-/
structure ServedSet (R : Type) where
  set : WorkerSet (ℕ × R)
  imported : ℕ → Bool := fun _ => false
  unanswered : ℕ → List ℕ := fun _ => []

namespace ServedSet

def init (width : ℕ) : ServedSet R := { set := .init width }

variable (v : ServedSet R)

/-- Worker `i` writes a frame: `main` its ready frame, `_serve` a result for the oldest request. -/
def write (i : ℕ) (frame : Frame (ℕ × R)) : Option (ServedSet R) :=
  match v.imported i, frame, v.unanswered i with
  | false, .ready, _ => some { v with imported := Function.update v.imported i true }
  | true, .other (k, _), call :: rest =>
    if k = call then some { v with unanswered := Function.update v.unanswered i rest } else none
  | _, _, _ => none

theorem write_cases {v v' : ServedSet R} {i : ℕ} {frame : Frame (ℕ × R)}
    (h : v.write i frame = some v') :
    (frame = .ready ∧ v.imported i = false ∧
      v' = { v with imported := Function.update v.imported i true }) ∨
    ∃ k result rest, frame = .other (k, result) ∧ v.imported i = true ∧
      v.unanswered i = k :: rest ∧
      v' = { v with unanswered := Function.update v.unanswered i rest } := by
  cases hi : v.imported i with
  | false =>
    cases frame with
    | ready =>
      simp only [write, hi, Option.some.injEq] at h
      exact .inl ⟨rfl, rfl, h.symm⟩
    | other frame => simp [write, hi] at h
  | true =>
    rcases frame with _ | ⟨k, result⟩ <;> rcases hc : v.unanswered i with _ | ⟨call, rest⟩
    case other.cons =>
      simp only [write, hi, hc] at h
      split_ifs at h with he
      cases h
      exact .inr ⟨k, result, rest, rfl, rfl, by rw [he], rfl⟩
    all_goals simp [write, hi, hc] at h

/-- The step of call `k`, by the phase it ends in: a call that flushes has written its request. -/
def sends (k : ℕ) : Phase (ℕ × R) → ServedSet R
  | .flushing i => { v with unanswered := Function.update v.unanswered i (v.unanswered i ++ [k]) }
  | _ => v

@[simp] theorem set_sends (k : ℕ) (phase : Phase (ℕ × R)) : (v.sends k phase).set = v.set := by
  cases phase <;> rfl

@[simp] theorem imported_sends (k : ℕ) (phase : Phase (ℕ × R)) :
    (v.sends k phase).imported = v.imported := by
  cases phase <;> rfl

/-- The set after a step. -/
def step : Action (ℕ × R) → ServedSet R → Option (ServedSet R)
  | .answer i frame, v =>
    (WorkerSet.step (.answer i frame) v.set).bind fun set => ({ v with set := set }).write i frame
  | .job k choice, v =>
    (WorkerSet.step (.job k choice) v.set).bind fun set =>
      (set.jobs[k]?).map fun job => ({ v with set := set }).sends k job.phase
  | action, v => (WorkerSet.step action v.set).map fun set => { v with set := set }

end ServedSet

/-! ### What a worker's reader has -/

variable {F : Type} {w w' u : WorkerSet F} {job job' : Job F} {choice : Choice}

namespace WorkerSet

/-- Worker `i` was found ready. -/
def ready (w : WorkerSet F) (i : ℕ) : Bool := (w.workers[i]?).elim false Worker.ready

/-- The frames of worker `i` that were published and not delivered. -/
def unread (w : WorkerSet F) (i : ℕ) : List (Frame F) :=
  (w.workers[i]?).elim [] fun worker => worker.frames.reduceOption

theorem ready_setWorker {i : ℕ} {old : Worker F} (hi : w.workers[i]? = some old) (new : Worker F)
    (j : ℕ) : (w.setWorker i new).ready j = if j = i then new.ready else w.ready j := by
  have hlt := (List.getElem?_eq_some_iff.mp hi).1
  unfold ready setWorker
  by_cases he : j = i
  · subst he
    simp [hlt]
  · rw [if_neg he, List.getElem?_set_ne (Ne.symm he)]

theorem unread_setWorker {i : ℕ} {old : Worker F} (hi : w.workers[i]? = some old) (new : Worker F)
    (j : ℕ) :
    (w.setWorker i new).unread j = if j = i then new.frames.reduceOption else w.unread j := by
  have hlt := (List.getElem?_eq_some_iff.mp hi).1
  unfold unread setWorker
  by_cases he : j = i
  · subst he
    simp [hlt]
  · rw [if_neg he, List.getElem?_set_ne (Ne.symm he)]

end WorkerSet

theorem WorkerSet.length_alter (w : WorkerSet F) (i : ℕ) (f : Worker F → Worker F) :
    (w.alter i f).workers.length = w.workers.length := by
  unfold alter
  split
  · exact List.length_set
  · rfl

theorem Worker.reduceOption_endOfFile (worker : Worker F) :
    worker.endOfFile.frames.reduceOption = worker.frames.reduceOption := by
  unfold Worker.endOfFile
  split_ifs
  · rfl
  · simp [List.reduceOption_append]

theorem Worker.ready_endOfFile (worker : Worker F) : worker.endOfFile.ready = worker.ready := by
  unfold Worker.endOfFile
  split_ifs <;> rfl

/-- A step that delivers no frame and publishes none. -/
structure Silent (w u : WorkerSet F) : Prop where
  ready : u.ready = w.ready
  unread : u.unread = w.unread

theorem Silent.setWorker {i : ℕ} {old new : Worker F} (hi : w.workers[i]? = some old)
    (hready : new.ready = old.ready) (hframes : new.frames.reduceOption = old.frames.reduceOption) :
    Silent w (w.setWorker i new) := by
  constructor <;> funext j
  · rw [WorkerSet.ready_setWorker hi]
    split_ifs with he
    · simp [WorkerSet.ready, he, hi, hready]
    · rfl
  · rw [WorkerSet.unread_setWorker hi]
    split_ifs with he
    · simp [WorkerSet.unread, he, hi, hframes]
    · rfl

theorem Silent.alter (w : WorkerSet F) (i : ℕ) {f : Worker F → Worker F}
    (hready : ∀ worker, (f worker).ready = worker.ready)
    (hframes : ∀ worker, (f worker).frames.reduceOption = worker.frames.reduceOption) :
    Silent w (w.alter i f) := by
  unfold WorkerSet.alter
  split
  · next worker hi => exact .setWorker hi (hready worker) (hframes worker)
  · exact ⟨rfl, rfl⟩

theorem Silent.terminate (w : WorkerSet F) (i : ℕ) : Silent w (w.terminate i) :=
  .alter w i (fun worker => worker.kill.ready_endOfFile)
    fun worker => worker.kill.reduceOption_endOfFile

/-- A new worker has published nothing. -/
theorem Silent.spawn (w : WorkerSet F) : Silent w { w with workers := w.workers ++ [{}] } := by
  constructor <;> funext i
  · unfold WorkerSet.ready
    rcases lt_trichotomy i w.workers.length with hlt | rfl | hlt
    · rw [List.getElem?_append_left hlt]
    · simp
    · rw [List.getElem?_eq_none (by simp; omega), List.getElem?_eq_none (by omega)]
  · unfold WorkerSet.unread
    rcases lt_trichotomy i w.workers.length with hlt | rfl | hlt
    · rw [List.getElem?_append_left hlt]
    · simp
    · rw [List.getElem?_eq_none (by simp; omega), List.getElem?_eq_none (by omega)]

theorem CloserStep.silent {closer closer' : Closer} (h : CloserStep w closer u closer') :
    Silent w u := by
  cases h with
  | kills i | killsIdle i => exact .terminate w i
  | _ => exact ⟨rfl, rfl⟩

/-- A call that waits for a frame of worker `i`. -/
def Phase.listens? : Phase F → Option ℕ
  | .leased i | .receiving i => some i
  | _ => none

/-- **A call hears a worker only where it waits for one.** -/
theorem JobStep.silent (h : JobStep w job choice u job') (hp : job.phase.listens? = none) :
    Silent w u := by
  cases h with
  | spawns => exact .spawn w
  | refusesSpawned i => exact .alter w i (fun _ => rfl) fun _ => rfl
  | terminates i => exact .terminate w i
  | reads i worker read rest ready phase hw hf hreads =>
    generalize job.phase = before at hreads hp
    cases hreads <;> simp [Phase.listens?] at hp
  | _ => exact ⟨rfl, rfl⟩

/-- A step that delivers one frame of worker `i`, and then may find it ready. -/
structure Delivers (w u : WorkerSet F) (i : ℕ) (frame : Frame F) (ready : Bool) : Prop where
  head : w.unread i = frame :: u.unread i
  unread : ∀ j, j ≠ i → u.unread j = w.unread j
  ready : ∀ j, u.ready j = if j = i then ready else w.ready j

theorem Delivers.setWorker {i : ℕ} {worker : Worker F} {frame : Frame F}
    {rest : List (Option (Frame F))} (hi : w.workers[i]? = some worker)
    (hf : worker.frames = some frame :: rest) (ready : Bool) :
    Delivers w (w.setWorker i { worker with ready := ready, frames := rest }) i frame ready where
  head := by
    rw [WorkerSet.unread_setWorker hi, if_pos rfl]
    simp [WorkerSet.unread, hi, hf]
  unread j hne := by rw [WorkerSet.unread_setWorker hi, if_neg hne]
  ready j := by rw [WorkerSet.ready_setWorker hi]

/-- The steps of a call that waits for a frame of worker `i`: its phases before and after. -/
inductive Hears (w u : WorkerSet F) (i : ℕ) : Phase F → Phase F → Prop
  | stops (before : Phase F) (reason : StopReason) : Silent w u →
      Hears w u i before (.completing (some (i, true)) (.stopped reason true))
  | wasReady : Silent w u → w.ready i = true → Hears w u i (.leased i) (.sending i)
  | ready : Delivers w u i .ready true → Hears w u i (.leased i) (.sending i)
  | unready (frame : Frame F) (ready : Bool) : w.ready i = ready → Delivers w u i frame ready →
      Hears w u i (.leased i) (.completing (some (i, true)) (.protocolFailed startupDetail))
  | failsStartup : Silent w u →
      Hears w u i (.leased i) (.completing (some (i, true)) (.protocolFailed startupDetail))
  | answer (frame : Frame F) (ready : Bool) : w.ready i = ready → Delivers w u i frame ready →
      Hears w u i (.receiving i) (.completing (some (i, false)) (.interpreted frame))
  | death : Silent w u → Hears w u i (.receiving i) (.dying i)

theorem hears_of_stepJob {i : ℕ} (h : w.stepJob job choice = some (u, job'))
    (hp : job.phase.listens? = some i) : Hears w u i job.phase job'.phase := by
  have hready : ∀ worker, w.workers[i]? = some worker → w.ready i = worker.ready := by
    intro worker hw
    simp [WorkerSet.ready, hw]
  cases hphase : job.phase with
  | leased j =>
    obtain rfl : j = i := by simpa [hphase, Phase.listens?] using hp
    cases choice with
    | go =>
      simp only [WorkerSet.stepJob, hphase] at h
      obtain ⟨worker, hw, h⟩ := Option.bind_eq_some_iff.mp h
      obtain ⟨⟨v, phase⟩, hr, h⟩ := Option.map_eq_some_iff.mp h
      cases h
      unfold WorkerSet.waitForReady at hr
      split_ifs at hr with hwas
      · cases hr
        exact .wasReady ⟨rfl, rfl⟩ ((hready worker hw).trans hwas)
      · split at hr
        · cases hr
        · next rest hf => cases hr; exact .ready (.setWorker hw hf true)
        · next read rest hne hf =>
          cases hr
          cases read with
          | none => exact .failsStartup (.setWorker hw rfl (by simp [hf]))
          | some frame => exact .unready frame _ (hready worker hw) (.setWorker hw hf worker.ready)
    | stop reason =>
      simp only [WorkerSet.stepJob, hphase] at h
      obtain ⟨worker, -, h⟩ := Option.bind_eq_some_iff.mp h
      split_ifs at h
      cases h
      exact .stops _ reason ⟨rfl, rfl⟩
    | _ => simp [WorkerSet.stepJob, hphase] at h
  | receiving j =>
    obtain rfl : j = i := by simpa [hphase, Phase.listens?] using hp
    cases choice with
    | go =>
      simp only [WorkerSet.stepJob, hphase] at h
      obtain ⟨worker, hw, h⟩ := Option.bind_eq_some_iff.mp h
      obtain ⟨⟨v, phase⟩, hr, h⟩ := Option.map_eq_some_iff.mp h
      cases h
      unfold WorkerSet.receive at hr
      split at hr
      · cases hr
      · next frame rest hf =>
        cases hr
        exact .answer frame _ (hready worker hw) (.setWorker hw hf worker.ready)
      · next rest hf => cases hr; exact .death (.setWorker hw rfl (by simp [hf]))
    | stop reason =>
      simp only [WorkerSet.stepJob, hphase] at h
      split_ifs at h
      cases h
      exact .stops _ reason ⟨rfl, rfl⟩
    | _ => simp [WorkerSet.stepJob, hphase] at h
  | _ => simp [hphase, Phase.listens?] at hp

/-! ### The steps of a served set -/

/-- The reader thread of worker `i` publishes a frame. -/
structure Publishes (w u : WorkerSet F) (i : ℕ) (frame : Frame F) : Prop where
  known : i < w.workers.length
  unread : ∀ j, u.unread j = if j = i then w.unread j ++ [frame] else w.unread j
  ready : u.ready = w.ready
  slots : u.slots = w.slots
  jobs : u.jobs = w.jobs
  workers : u.workers.length = w.workers.length

/-- A step that moves no frame, of no call: a slot it fills has no worker, and a call it adds has
just begun. -/
structure Passes (w u : WorkerSet F) : Prop where
  silent : Silent w u
  slots : ∀ i, some i ∈ u.slots → some i ∈ w.slots
  jobs : ∀ (k : ℕ) (job : Job F), u.jobs[k]? = some job →
    w.jobs[k]? = some job ∨ job.phase = .begun
  workers : u.workers.length = w.workers.length

/-- What a step of a served set does. -/
inductive Serves (v : ServedSet R) : ServedSet R → Prop
  | imports (i : ℕ) (set : WorkerSet (ℕ × R)) : Publishes v.set set i .ready →
      v.imported i = false →
      Serves v { v with set := set, imported := Function.update v.imported i true }
  | answers (i k : ℕ) (result : R) (rest : List ℕ) (set : WorkerSet (ℕ × R)) :
      Publishes v.set set i (.other (k, result)) → v.imported i = true →
      v.unanswered i = k :: rest →
      Serves v { v with set := set, unanswered := Function.update v.unanswered i rest }
  | job (k : ℕ) (choice : Choice) (job job' : Job (ℕ × R)) (u : WorkerSet (ℕ × R)) :
      v.set.jobs[k]? = some job → v.set.stepJob job choice = some (u, job') →
      Serves v (({ v with set := { u with jobs := u.jobs.set k job' } }).sends k job'.phase)
  | passes (set : WorkerSet (ℕ × R)) : Passes v.set set → Serves v { v with set := set }

theorem publishes_of_step {i : ℕ} {frame : Frame F}
    (h : WorkerSet.step (.answer i frame) w = some u) : Publishes w u i frame := by
  obtain ⟨worker, hi, h⟩ := Option.bind_eq_some_iff.mp h
  split_ifs at h
  cases h
  refine ⟨(List.getElem?_eq_some_iff.mp hi).1, fun j => ?_, ?_, rfl, rfl, by simp [WorkerSet.setWorker]⟩
  · rw [WorkerSet.unread_setWorker hi]
    by_cases he : j = i
    · subst he
      simp [WorkerSet.unread, hi, List.reduceOption_append]
    · rw [if_neg he, if_neg he]
  · funext j
    rw [WorkerSet.ready_setWorker hi]
    split_ifs with he
    · simp [WorkerSet.ready, he, hi]
    · rfl

theorem CloserStep.passes {closer closer' : Closer} (h : CloserStep w closer u closer') :
    Passes w u where
  silent := h.silent
  slots i hmem := by
    cases h with
    | drainsEntry pending entry rest hs => exact hs ▸ List.mem_cons_of_mem _ hmem
    | refillsEntry rest => simpa [WorkerSet.put] using hmem
    | kills | killsIdle => simpa using hmem
    | _ => exact hmem
  jobs k job hk := .inl (h.others.1 ▸ hk)
  workers := by
    cases h with
    | kills i | killsIdle i => exact w.length_alter i _
    | _ => rfl

/-- **The steps of a served set**, case by case. -/
theorem ServedSet.serves_of_step {v v' : ServedSet R} {action : Action (ℕ × R)}
    (h : step action v = some v') : Serves v v' := by
  cases action with
  | answer i frame =>
    obtain ⟨set, hs, h⟩ := Option.bind_eq_some_iff.mp h
    have hpub := publishes_of_step hs
    rcases write_cases h with ⟨rfl, hi, rfl⟩ | ⟨k, result, rest, rfl, hi, hcalls, rfl⟩
    · exact .imports i set hpub hi
    · exact .answers i k result rest set hpub hi hcalls
  | job k choice =>
    obtain ⟨set, hs, h⟩ := Option.bind_eq_some_iff.mp h
    obtain ⟨job, hk, hs⟩ := Option.bind_eq_some_iff.mp hs
    obtain ⟨⟨u, job'⟩, hstep, rfl⟩ := Option.map_eq_some_iff.mp hs
    have hlt : k < u.jobs.length := by
      rw [(jobStep_of_stepJob hstep).others.1]
      exact (List.getElem?_eq_some_iff.mp hk).1
    simp only [List.getElem?_set_self hlt, Option.map_some, Option.some.injEq] at h
    exact h ▸ .job k choice job job' u hk hstep
  | runBlocking deadlineNs cancellable startedAt =>
    cases h
    refine .passes _ ⟨⟨rfl, rfl⟩, fun i hi => hi, fun k job hk => ?_, rfl⟩
    rw [List.getElem?_append] at hk
    split_ifs at hk with hlt
    · exact .inl hk
    · exact .inr (by rw [List.mem_singleton.mp (List.mem_of_getElem? hk)])
  | close =>
    cases h
    exact .passes _ ⟨⟨rfl, rfl⟩, fun i hi => hi, fun k job hk => .inl hk, rfl⟩
  | closer j =>
    obtain ⟨set, hs, rfl⟩ := Option.map_eq_some_iff.mp h
    obtain ⟨closer, -, hs⟩ := Option.bind_eq_some_iff.mp hs
    obtain ⟨⟨u, closer'⟩, hstep, rfl⟩ := Option.map_eq_some_iff.mp hs
    have hpass := (closerStep_of_stepCloser hstep).passes
    exact .passes _ ⟨⟨hpass.silent.ready, hpass.silent.unread⟩, hpass.slots, hpass.jobs, hpass.workers⟩
  | die i exitCode =>
    obtain ⟨set, hs, rfl⟩ := Option.map_eq_some_iff.mp h
    obtain ⟨worker, hi, hs⟩ := Option.bind_eq_some_iff.mp hs
    split_ifs at hs
    cases hs
    exact .passes _ ⟨.setWorker hi rfl rfl, fun i hi => hi, fun k job hk => .inl hk,
      by simp [WorkerSet.setWorker]⟩
  | share i shared =>
    obtain ⟨set, hs, rfl⟩ := Option.map_eq_some_iff.mp h
    obtain ⟨worker, hi, hs⟩ := Option.bind_eq_some_iff.mp hs
    split_ifs at hs
    cases hs
    exact .passes _ ⟨.setWorker hi rfl rfl, fun i hi => hi, fun k job hk => .inl hk,
      by simp [WorkerSet.setWorker]⟩
  | endOfFile i =>
    obtain ⟨set, hs, rfl⟩ := Option.map_eq_some_iff.mp h
    obtain ⟨worker, hi, hs⟩ := Option.bind_eq_some_iff.mp hs
    split_ifs at hs
    cases hs
    refine .passes _ ⟨.setWorker hi ?_ worker.reduceOption_endOfFile, fun i hi => hi,
      fun k job hk => .inl hk, by simp [WorkerSet.setWorker]⟩
    exact worker.ready_endOfFile

/-- **A served set runs as a worker set.** -/
theorem ServedSet.set_of_step {v v' : ServedSet R} {action : Action (ℕ × R)}
    (h : step action v = some v') : WorkerSet.step action v.set = some v'.set := by
  unfold step at h
  split at h
  · obtain ⟨set, hs, h⟩ := Option.bind_eq_some_iff.mp h
    rcases write_cases h with ⟨-, -, rfl⟩ | ⟨k, result, rest, -, -, -, rfl⟩ <;> exact hs
  · obtain ⟨set, hs, h⟩ := Option.bind_eq_some_iff.mp h
    obtain ⟨job, -, rfl⟩ := Option.map_eq_some_iff.mp h
    rw [hs, ServedSet.set_sends]
  · obtain ⟨set, hs, rfl⟩ := Option.map_eq_some_iff.mp h
    exact hs

theorem ServedSet.set_of_reach {width : ℕ} {v : ServedSet R} (h : Reachable step (init width) v) :
    Reachable WorkerSet.step (.init width) v.set :=
  h.simulate set fun _ action _ _ _ hs => .inr ⟨action, trivial, set_of_step hs⟩

/-! ### One ready frame -/

def Frame.isReady : Frame F → Bool
  | .ready => true
  | .other _ => false

/-- The worker a call has found ready, until its result is read. -/
def Phase.exchanges? : Phase F → Option ℕ
  | .sending i | .flushing i | .receiving i => some i
  | _ => none

/-- A worker's one ready frame is still to be written, or published, or was read; and it was read
where a call exchanges frames with it. -/
structure Greeted (v : ServedSet R) : Prop where
  once : ∀ i, (v.set.unread i).countP Frame.isReady + (v.set.ready i).toNat ≤ (v.imported i).toNat
  exchanges : ∀ job ∈ v.set.jobs, ∀ i, job.phase.exchanges? = some i → v.set.ready i = true

theorem Greeted.read {v : ServedSet R} (h : Greeted v) {job : Job (ℕ × R)} (hmem : job ∈ v.set.jobs)
    {i : ℕ} (hi : job.phase.exchanges? = some i) : .ready ∉ v.set.unread i := by
  intro hread
  have hpos : 0 < (v.set.unread i).countP Frame.isReady := List.countP_pos_iff.mpr ⟨_, hread, rfl⟩
  have honce := h.once i
  rw [h.exchanges job hmem i hi] at honce
  have hle := Bool.toNat_le (v.imported i)
  simp only [Bool.toNat_true] at honce
  omega

theorem JobStep.exchanges (h : JobStep w job choice u job') (hp : job.phase.listens? = none) (i : ℕ)
    (hi : job'.phase.exchanges? = some i) : job.phase.exchanges? = some i := by
  cases h with
  | goes phase hlocal =>
    cases hlocal with
    | isReady j hp' => simp [hp', Phase.listens?] at hp
    | writes j hp' | flushes j hp' => rw [hp']; exact hi
    | _ => simp [Phase.exchanges?] at hi
  | gives entry phase hgives =>
    generalize job.phase = before at hgives
    cases hgives with
    | freed after => cases after <;> simp [Phase.exchanges?, After.phase] at hi
    | _ => simp [Phase.exchanges?] at hi
  | reads j worker read rest ready phase hw hf hreads =>
    generalize job.phase = before at hreads hp
    cases hreads <;> simp [Phase.listens?] at hp
  | retires j after hp' =>
    dsimp only at hi
    split_ifs at hi <;> simp [Phase.exchanges?] at hi
  | _ => simp [Phase.exchanges?] at hi

/-- **One step of a call** reads a ready frame once, and goes on only where it was read. -/
theorem greeted_of_stepJob (h : w.stepJob job choice = some (u, job')) :
    (∀ i, (u.unread i).countP Frame.isReady + (u.ready i).toNat ≤
      (w.unread i).countP Frame.isReady + (w.ready i).toNat ∧ (w.ready i = true → u.ready i = true)) ∧
    ∀ i, job'.phase.exchanges? = some i → job.phase.exchanges? = some i ∨ u.ready i = true := by
  have hsilent : Silent w u → ∀ i, (u.unread i).countP Frame.isReady + (u.ready i).toNat ≤
      (w.unread i).countP Frame.isReady + (w.ready i).toNat ∧
        (w.ready i = true → u.ready i = true) := by
    intro hs i
    rw [hs.unread, hs.ready]
    exact ⟨le_rfl, id⟩
  -- A frame that does not make the worker ready is one frame less.
  have hreads : ∀ i frame ready, w.ready i = ready → Delivers w u i frame ready → ∀ j,
      (u.unread j).countP Frame.isReady + (u.ready j).toNat ≤
        (w.unread j).countP Frame.isReady + (w.ready j).toNat ∧
          (w.ready j = true → u.ready j = true) := by
    intro i frame ready hready hd j
    rw [hd.ready j]
    by_cases he : j = i
    · subst he
      rw [if_pos rfl, hd.head, hready, List.countP_cons]
      exact ⟨by omega, id⟩
    · rw [if_neg he, hd.unread j he]
      exact ⟨le_rfl, id⟩
  cases hp : job.phase.listens? with
  | none =>
    have hstep := jobStep_of_stepJob h
    exact ⟨hsilent (hstep.silent hp), fun i hi => .inl (hstep.exchanges hp i hi)⟩
  | some i =>
    have hhears := hears_of_stepJob h hp
    generalize job.phase = before at hhears ⊢
    generalize job'.phase = phase at hhears ⊢
    cases hhears with
    | stops _ reason hs =>
      exact ⟨hsilent hs, fun j hj => by simp [Phase.exchanges?] at hj⟩
    | failsStartup hs | death hs =>
      exact ⟨hsilent hs, fun j hj => by simp [Phase.exchanges?] at hj⟩
    | wasReady hs hready =>
      refine ⟨hsilent hs, fun j hj => .inr ?_⟩
      obtain rfl : i = j := by simpa [Phase.exchanges?] using hj
      rw [hs.ready, hready]
    | ready hd =>
      refine ⟨fun j => ?_, fun j hj => .inr ?_⟩
      · rw [hd.ready j]
        by_cases he : j = i
        · subst he
          rw [if_pos rfl, hd.head, List.countP_cons]
          refine ⟨?_, fun _ => rfl⟩
          simp [Frame.isReady]
        · rw [if_neg he, hd.unread j he]
          exact ⟨le_rfl, id⟩
      · obtain rfl : i = j := by simpa [Phase.exchanges?] using hj
        rw [hd.ready, if_pos rfl]
    | unready frame ready hready hd | answer frame ready hready hd =>
      exact ⟨hreads i frame ready hready hd, fun j hj => by simp [Phase.exchanges?] at hj⟩

theorem Greeted.step {v v' : ServedSet R} (h : Greeted v) (hs : Serves v v') : Greeted v' := by
  cases hs with
  | imports i set hpub hi =>
    refine ⟨fun j => ?_, fun job hmem j hj => ?_⟩
    · have honce := h.once j
      dsimp only
      rw [hpub.unread j, hpub.ready]
      by_cases he : j = i
      · subst he
        rw [hi] at honce
        rw [if_pos rfl, Function.update_self, List.countP_append]
        simp only [Bool.toNat_false] at honce
        simp only [List.countP_singleton, Frame.isReady, Bool.toNat_true, if_true]
        omega
      · rw [if_neg he, Function.update_of_ne he]
        exact honce
    · dsimp only
      rw [hpub.ready]
      exact h.exchanges job (hpub.jobs ▸ hmem) j hj
  | answers i k result rest set hpub hi hcalls =>
    refine ⟨fun j => ?_, fun job hmem j hj => ?_⟩
    · have honce := h.once j
      dsimp only
      rw [hpub.unread j, hpub.ready]
      split_ifs
      · simpa [Frame.isReady] using honce
      · exact honce
    · dsimp only
      rw [hpub.ready]
      exact h.exchanges job (hpub.jobs ▸ hmem) j hj
  | job k choice job job' u hk hstep =>
    obtain ⟨honce, hexchanges⟩ := greeted_of_stepJob hstep
    have hjobs := (jobStep_of_stepJob hstep).others.1
    refine ⟨fun i => ?_, fun other hmem i hi => ?_⟩
    · rw [ServedSet.set_sends, ServedSet.imported_sends]
      exact (honce i).1.trans (h.once i)
    · rw [ServedSet.set_sends] at hmem ⊢
      dsimp only at hmem
      rw [hjobs] at hmem
      rcases List.mem_or_eq_of_mem_set hmem with hmem | rfl
      · exact (honce i).2 (h.exchanges other hmem i hi)
      · rcases hexchanges i hi with hi | hready
        · exact (honce i).2 (h.exchanges job (List.mem_of_getElem? hk) i hi)
        · exact hready
  | passes set hpass =>
    refine ⟨fun i => ?_, fun job hmem i hi => ?_⟩
    · dsimp only
      rw [hpass.silent.unread, hpass.silent.ready]
      exact h.once i
    · dsimp only
      rw [hpass.silent.ready]
      obtain ⟨k, hk⟩ := List.mem_iff_getElem?.mp hmem
      rcases hpass.jobs k job hk with hk | hbegun
      · exact h.exchanges job (List.mem_of_getElem? hk) i hi
      · simp [hbegun, Phase.exchanges?] at hi

end DrExec.Execution.WorkerPool
