import DrExec.Scheduling.Batch
import DrExec.Scheduling.Work

/-! # What a step of a batch does

`Effect` lists the steps of a batch, case by case; `scheduler_step` says that its scheduler only
takes sections of its own, so what holds of every scheduler holds of it. `remaining` bounds the
steps that a batch can still take: every step lowers it (`remaining_step`). -/

namespace DrExec.Scheduling.Scheduler

open DrExec.Lib.Lists

variable {Job Ctx Done Fault : Type}

/-! ### What a scheduler has left to do -/

/-- The sections a thread can still bring about before it returns. -/
def Worker.load : Worker Job Ctx → ℕ
  | waiting => 1
  | calling _ => 6
  | returned => 0

namespace ExecutionScheduler

variable {s s' : ExecutionScheduler Job Ctx Done Fault}

/-- A bound on what the scheduler's jobs still bring about: a call, its end, and a taking. -/
def load (s : ExecutionScheduler Job Ctx Done Fault) : ℕ :=
  6 * s.pending.length + 4 * s.ready.length + (s.threads.map Worker.load).sum

theorem load_breakWith_le (s : ExecutionScheduler Job Ctx Done Fault) (failure : Fault) :
    (s.breakWith failure).load ≤ s.load := by
  cases hb : s.broken with
  | some _ => rw [breakWith_of_broken s failure (by simp [hb])]
  | none =>
    rw [breakWith_of_unbroken s failure hb]
    simp only [load, List.length_nil]
    omega

theorem load_admitJob_le (s : ExecutionScheduler Job Ctx Done Fault) (job : Job) (context : Ctx)
    (start : Option Fault) : (s.admitJob job context start).2.load ≤ s.load + 7 := by
  rcases s.admit_cases job context start with ⟨he, -⟩ | ⟨-, -, he⟩
  · rw [he]
    omega
  · have hq : (s.enqueue job context).load = s.load + 6 := by
      obtain ⟨cancelled, hq⟩ := s.enqueue_eq job context
      rw [hq]
      simp only [load, List.length_append, List.length_singleton]
      omega
    rw [he]
    show ((s.enqueue job context).ensureWorker start).load ≤ s.load + 7
    rcases (s.enqueue job context).ensureWorker_cases start with
      ⟨-, he⟩ | ⟨failure, -, he⟩ | ⟨-, -, he⟩
    · rw [he]
      omega
    · rw [he]
      have := (s.enqueue job context).load_breakWith_le failure
      show ((s.enqueue job context).breakWith failure).load ≤ s.load + 7
      omega
    · rw [he]
      simp only [load, List.map_append, List.sum_append, List.map_cons, List.map_nil,
        List.sum_singleton, Worker.load] at hq ⊢
      omega

/-- A section of a worker thread lowers the load. -/
theorem load_worker_lt {action : Action Job Ctx Done Fault} (ha : IsWorker action)
    (h : step action s = some s') : s'.load < s.load := by
  rcases ha with ⟨worker, rfl⟩ | ⟨worker, result, rfl⟩
  · simp only [step] at h
    split at h
    · next hw =>
      split_ifs at h
      cases h
      rcases s.workerTakes_cases worker with ⟨admitted, rest, -, hp, he⟩ | ⟨-, he⟩
      · have hsum := sum_map_set Worker.load s.threads worker (.calling admitted) _ hw
        rw [he]
        simp only [load, hp, List.length_cons, Worker.load] at hsum ⊢
        omega
      · have hsum := sum_map_set Worker.load s.threads worker .returned _ hw
        rw [he]
        simp only [load, Worker.load] at hsum ⊢
        omega
    · cases h
  · simp only [step] at h
    split at h
    · next admitted hw =>
      cases h
      have hsum := sum_map_set Worker.load s.threads worker .waiting _ hw
      cases result with
      | ok completed =>
        rw [workerFinishes_ok]
        simp only [load, List.length_append, List.length_singleton, Worker.load] at hsum ⊢
        omega
      | error failure =>
        rcases s.workerFinishes_error_cases worker admitted failure with ⟨-, he⟩ | ⟨-, he⟩ <;>
        · rw [he]
          simp only [load, List.length_nil, Worker.load] at hsum ⊢
          omega
    · cases h

theorem load_shutdownEnd_le {index : ℕ} (h : step (.shutdownEnd index) s = some s') :
    s'.load ≤ s.load := by
  simp only [step] at h
  split at h
  · next call hcall =>
    split_ifs at h
    cases h
    unfold shutdownEnd dropCompletions announceChange
    split_ifs <;> simp only [load, List.length_nil] <;> omega
  · cases h

/-- A worker thread leaves the residents to the drivers. -/
theorem residents_worker {action : Action Job Ctx Done Fault} (ha : IsWorker action)
    (h : step action s = some s') : s'.residents = s.residents := by
  rcases ha with ⟨worker, rfl⟩ | ⟨worker, result, rfl⟩
  · simp only [step] at h
    split at h
    · split_ifs at h
      cases h
      rcases s.workerTakes_cases worker with ⟨admitted, rest, -, -, he⟩ | ⟨-, he⟩ <;> rw [he]
    · cases h
  · simp only [step] at h
    split at h
    · next admitted _ =>
      cases h
      cases result with
      | ok completed => rw [workerFinishes_ok]
      | error failure =>
        rcases s.workerFinishes_error_cases worker admitted failure with ⟨-, he⟩ | ⟨-, he⟩ <;>
          rw [he]
    · cases h

/-- `take_completion` hands over the oldest completion, or there is none. -/
theorem takeCompletion_cases (s : ExecutionScheduler Job Ctx Done Fault) :
    (∃ completion rest, s.ready = completion :: rest ∧
      s.takeCompletion = (.ok (some completion), s.handOver completion rest)) ∨
      (s.ready = [] ∧ s.takeCompletion = (s.noneUnlessBroken, s)) := by
  unfold takeCompletion takeCompletionNowait
  rcases hr : s.ready with _ | ⟨completion, rest⟩
  · exact .inr ⟨rfl, rfl⟩
  · exact .inl ⟨completion, rest, rfl, rfl⟩

theorem admit_ne_noRoom (s : ExecutionScheduler Job Ctx Done Fault) (job : Job) (context : Ctx)
    (start : Option Fault) (hroom : s.residents < s.capacity) :
    (s.admitJob job context start).1 ≠ .noRoom := by
  unfold admitJob
  split_ifs with hclosed hfull
  · simp
  · omega
  · dsimp only
    split_ifs <;> simp

theorem expire_eq (s : ExecutionScheduler Job Ctx Done Fault) : s.expire =
    { s with
      expired := true
      cancelled := (s.tokens.map Prod.snd).reverse ++ s.cancelled
      announced := s.announced + 1 } := by
  rw [expire, cancelTokens_eq]
  rfl

end ExecutionScheduler

end DrExec.Scheduling.Scheduler

namespace DrExec.Scheduling.Batch

open DrExec.Lib.Transition Scheduler ExecutionScheduler

variable {Job Done Fault : Type}

/-- The section of a worker thread that an action is. -/
def BatchAction.worker? : BatchAction Done Fault → Option (Action Job Unit Done Fault)
  | .takeAdmitted worker => some (.takeAdmitted worker)
  | .finish worker result => some (.finish worker result)
  | _ => none

theorem BatchAction.isWorker {batchAction : BatchAction Done Fault}
    {action : Action Job Unit Done Fault} (h : batchAction.worker? = some action) :
    IsWorker action := by
  cases batchAction <;> cases h
  · exact .inl ⟨_, rfl⟩
  · exact .inr ⟨_, _, rfl⟩

/-- How the generator ends, once its loop has been left. -/
def BatchPhase.ending? : BatchPhase Job Fault → Option (BatchEnding Fault)
  | .closing ending | .quiescing ending | .shutting ending | .joining ending | .ended ending =>
    some ending
  | _ => none

/-- How far a phase is from the end. -/
def BatchPhase.rank : BatchPhase Job Fault → ℕ
  | .admitting _ => 15
  | .yielded => 8
  | .intake => 7
  | .checkEnd => 6
  | .taking => 5
  | .closing _ => 4
  | .quiescing _ => 3
  | .shutting _ => 2
  | .joining _ => 1
  | .ended _ => 0

namespace RunBatch

/-! ### The steps -/

/-- What one step of a batch does, where it can happen. -/
inductive Effect (b : RunBatch Job Done Fault) :
    BatchAction Done Fault → RunBatch Job Done Fault → Prop
  | worker {batchAction : BatchAction Done Fault} {action : Action Job Unit Done Fault}
      {scheduler : ExecutionScheduler Job Unit Done Fault} :
      batchAction.worker? = some action →
      ExecutionScheduler.step action b.scheduler = some scheduler →
      Effect b batchAction { b with scheduler := scheduler }
  | pullsCarried (job : Job) (start : Option Fault) : b.phase = .intake →
      b.carried = some job → b.scheduler.canAdmit = true →
      Effect b (.advance start) { b with carried := none, phase := .admitting job }
  | pulls (job : Job) (rest : List Job) (start : Option Fault) : b.phase = .intake →
      b.carried = none → b.source = job :: rest → b.scheduler.canAdmit = true →
      Effect b (.advance start)
        { b with source := rest, pulled := b.pulled ++ [job], phase := .admitting job }
  | exhausts (start : Option Fault) : b.phase = .intake → b.carried = none → b.source = [] →
      Effect b (.advance start) { b with exhausted := true, phase := .checkEnd }
  | full (start : Option Fault) : b.phase = .intake →
      b.exhausted = true ∨ b.scheduler.canAdmit = false →
      Effect b (.advance start) { b with phase := .checkEnd }
  | admits (job : Job) (start : Option Fault) : b.phase = .admitting job →
      Effect b (.advance start) (b.admitPulled job start)
  | ends (start : Option Fault) : b.phase = .checkEnd → b.exhausted = true →
      b.scheduler.hasResidents = false →
      Effect b (.advance start) { b with phase := .closing .returned }
  | goesOn (start : Option Fault) : b.phase = .checkEnd →
      b.exhausted = false ∨ b.carried.isSome ∨ b.scheduler.hasResidents = true →
      Effect b (.advance start) { b with phase := .taking }
  | takes (start : Option Fault) : b.phase = .taking → b.scheduler.takeWait = true →
      Effect b (.advance start) b.take
  | resumes : b.phase = .yielded → Effect b .resume { b with phase := .intake }
  | closes : b.phase = .yielded → Effect b .close { b with phase := .closing .closed }
  | closesIntake (ending : BatchEnding Fault) (start : Option Fault) : b.phase = .closing ending →
      Effect b (.advance start)
        { b with scheduler := b.scheduler.closeIntake, phase := .quiescing ending }
  | quiesces (ending : BatchEnding Fault) (start : Option Fault) : b.phase = .quiescing ending →
      b.scheduler.quiescent = true →
      Effect b (.advance start) { b with disarmed := true, phase := .shutting ending }
  | shuts (ending : BatchEnding Fault) (start : Option Fault) : b.phase = .shutting ending →
      Effect b (.advance start)
        { b with scheduler := b.scheduler.shutdownBegin false, phase := .joining ending }
  | joins (ending : BatchEnding Fault) (start : Option Fault)
      (scheduler : ExecutionScheduler Job Unit Done Fault) : b.phase = .joining ending →
      ExecutionScheduler.step (.shutdownEnd 0) b.scheduler = some scheduler →
      Effect b (.advance start) { b with scheduler := scheduler, phase := .ended ending }
  | expires : b.watching = true →
      Effect b .expire { b with scheduler := b.scheduler.expire, watching := false }
  | watcherReturns : b.watching = true → Effect b .watcherReturns { b with watching := false }

variable {b b' : RunBatch Job Done Fault} {action : BatchAction Done Fault}

theorem effect_pull (start : Option Fault) (h : b.phase = .intake) :
    Effect b (.advance start) b.pull := by
  unfold pull
  split_ifs with hopen
  · simp only [Bool.and_eq_true, Bool.not_eq_true'] at hopen
    split
    · next job hc => exact .pullsCarried job start h hc hopen.2
    · next job rest hc hs => exact .pulls job rest start h hc hs hopen.2
    · next hc hs => exact .exhausts start h hc hs
  · refine .full start h ?_
    simp only [Bool.and_eq_true, Bool.not_eq_true', not_and, Bool.not_eq_true] at hopen
    by_cases he : b.exhausted = true
    · exact .inl he
    · exact .inr (hopen (by simpa using he))

theorem effect_checkEnd (start : Option Fault) (h : b.phase = .checkEnd) :
    Effect b (.advance start) b.checkEnd := by
  unfold checkEnd
  split_ifs with hend
  · simp only [Bool.and_eq_true, Bool.not_eq_true'] at hend
    exact .ends start h hend.1.1 hend.2
  · refine .goesOn start h ?_
    rcases he : b.exhausted with _ | _
    · exact .inl rfl
    · rcases hc : b.carried with _ | job
      · exact .inr (.inr (by simpa [he, hc] using hend))
      · exact .inr (.inl rfl)

theorem effect_advance {start : Option Fault} (h : b.advance start = some b') :
    Effect b (.advance start) b' := by
  unfold advance at h
  split at h
  · next hp => cases h; exact effect_pull start hp
  · next job hp => cases h; exact .admits job start hp
  · next hp => cases h; exact effect_checkEnd start hp
  · next hp =>
    split_ifs at h with hwait
    cases h
    exact .takes start hp hwait
  · cases h
  · next ending hp => cases h; exact .closesIntake ending start hp
  · next ending hp =>
    split_ifs at h with hq
    cases h
    exact .quiesces ending start hp hq
  · next ending hp => cases h; exact .shuts ending start hp
  · next ending hp =>
    obtain ⟨scheduler, hs, rfl⟩ := Option.map_eq_some_iff.mp h
    exact .joins ending start scheduler hp hs
  · cases h

/-- **The steps of a batch**, case by case. -/
theorem effect_of_step (h : step action b = some b') : Effect b action b' := by
  cases action with
  | takeAdmitted worker =>
    obtain ⟨scheduler, hs, rfl⟩ := Option.map_eq_some_iff.mp h
    exact .worker rfl hs
  | finish worker result =>
    obtain ⟨scheduler, hs, rfl⟩ := Option.map_eq_some_iff.mp h
    exact .worker rfl hs
  | advance start => exact effect_advance h
  | resume =>
    simp only [step] at h
    split at h
    · next hp => cases h; exact .resumes hp
    · cases h
  | close =>
    simp only [step] at h
    split at h
    · next hp => cases h; exact .closes hp
    · cases h
  | expire =>
    simp only [step] at h
    split_ifs at h with hw
    cases h
    exact .expires hw
  | watcherReturns =>
    simp only [step] at h
    split_ifs at h with hw
    cases h
    exact .watcherReturns (Bool.and_eq_true_iff.mp hw).1

theorem scheduler_admitPulled (b : RunBatch Job Done Fault) (job : Job) (start : Option Fault) :
    (b.admitPulled job start).scheduler = (b.scheduler.admitJob job () start).2 := by
  unfold admitPulled
  rcases b.scheduler.admitJob job () start with ⟨result, scheduler⟩
  cases result <;> rfl

theorem scheduler_take (b : RunBatch Job Done Fault) : b.take.scheduler =
    recordTaken 0 b.scheduler.takeCompletion.1 b.scheduler.takeCompletion.2 := by
  unfold take
  rcases b.scheduler.takeCompletion with ⟨failure | _ | completion, scheduler⟩ <;> rfl

/-- The scheduler of a batch takes a section of its own, or none. -/
theorem scheduler_step (h : Effect b action b') : b'.scheduler = b.scheduler ∨
      ∃ action, ExecutionScheduler.step action b.scheduler = some b'.scheduler := by
  cases h with
  | worker _ hs => exact .inr ⟨_, hs⟩
  | admits job start =>
    exact .inr ⟨.admitJob job () start, congrArg some (b.scheduler_admitPulled job start).symm⟩
  | takes _ _ hwait =>
    refine .inr ⟨.takeCompletion 0, ?_⟩
    rw [ExecutionScheduler.step, if_pos hwait, scheduler_take]
  | closesIntake => exact .inr ⟨.closeIntake, rfl⟩
  | shuts => exact .inr ⟨.shutdownBegin false, rfl⟩
  | joins _ _ _ _ hs => exact .inr ⟨_, hs⟩
  | expires => exact .inr ⟨.expire, rfl⟩
  | pullsCarried | pulls | exhausts | full | ends | goesOn | resumes | closes | quiesces
  | watcherReturns => exact .inl rfl

/-- A batch at its head: its scheduler is one at its head. -/
theorem open?_eq {capacity : ℤ} {jobs : List Job} {wallTime : Bool}
    {b₀ : RunBatch Job Done Fault} (h0 : open? capacity jobs wallTime = some b₀) :
    ExecutionScheduler.init capacity = some b₀.scheduler ∧
      b₀ = { scheduler := { capacity := capacity }, source := jobs, watching := wallTime } := by
  obtain ⟨scheduler, hs, rfl⟩ := Option.map_eq_some_iff.mp h0
  obtain ⟨-, rfl⟩ := init_eq hs
  exact ⟨hs, rfl⟩

/-- **The scheduler of a batch is a reachable one.** -/
theorem scheduler_reachable {ok : BatchAction Done Fault → RunBatch Job Done Fault → Prop}
    {b₀ b : RunBatch Job Done Fault} (h : Reach step ok b₀ b) :
    Reachable ExecutionScheduler.step b₀.scheduler b.scheduler := by
  refine h.simulate RunBatch.scheduler fun u a v _ _ hs => ?_
  rcases scheduler_step (effect_of_step hs) with he | ⟨action, hs⟩
  · exact .inl he
  · exact .inr ⟨action, trivial, hs⟩

/-! ### What taking and admitting lead to -/

/-- A completion is yielded, or the loop ends. -/
theorem take_cases (b : RunBatch Job Done Fault) :
    (∃ completion rest, b.scheduler.ready = completion :: rest ∧ b.take =
      { b with
        scheduler := (b.scheduler.handOver completion rest).record (.delivered 0 completion)
        yielded := b.yielded ++ [completion.completedExecution]
        phase := .yielded }) ∨
      (∃ failure, b.scheduler.ready = [] ∧ b.scheduler.broken = some failure ∧
        b.take = { b with phase := .closing (.broken failure) }) ∨
      (b.scheduler.ready = [] ∧ b.scheduler.broken = none ∧
        b.take = { b with phase := .closing .returned }) := by
  unfold take
  rcases b.scheduler.takeCompletion_cases with ⟨completion, rest, hr, he⟩ | ⟨hr, he⟩
  · rw [he]
    exact .inl ⟨completion, rest, hr, rfl⟩
  · rw [he]
    unfold noneUnlessBroken
    rcases hb : b.scheduler.broken with _ | failure
    · exact .inr (.inr ⟨hr, rfl, rfl⟩)
    · exact .inr (.inl ⟨failure, hr, rfl, rfl⟩)

/-- With room, the job is admitted or the batch ends its intake. -/
theorem admitPulled_cases (b : RunBatch Job Done Fault) (job : Job) (start : Option Fault)
    (hroom : b.scheduler.residents < b.scheduler.capacity) :
    ((b.scheduler.admitJob job () start).1 = .admitted ∧ b.admitPulled job start =
      { b with scheduler := (b.scheduler.admitJob job () start).2, phase := .intake }) ∨
      ((b.scheduler.admitJob job () start).1 = .intakeClosed ∧ b.admitPulled job start =
        { b with
          scheduler := (b.scheduler.admitJob job () start).2
          exhausted := true
          phase := .checkEnd }) := by
  have hne := b.scheduler.admit_ne_noRoom job () start hroom
  unfold admitPulled
  rcases hadmits : b.scheduler.admitJob job () start with ⟨result, scheduler⟩
  rw [hadmits] at hne
  cases result with
  | admitted => exact .inl ⟨rfl, rfl⟩
  | intakeClosed => exact .inr ⟨rfl, rfl⟩
  | noRoom => exact absurd rfl hne

/-! ### One driver -/

/-- **Room stays**: the batch is the one driver of its scheduler, so what it asks `can_admit` is
still so when it admits, and it never carries a job. -/
structure Single (b : RunBatch Job Done Fault) : Prop where
  carried : b.carried = none
  room : ∀ job, b.phase = .admitting job → b.scheduler.residents < b.scheduler.capacity

theorem room_of_canAdmit {s : ExecutionScheduler Job Unit Done Fault} (h : s.canAdmit = true) :
    s.residents < s.capacity ∧ s.intakeClosed = false := by
  simpa [canAdmit] using h

theorem Single.effect (h : Single b) (heff : Effect b action b') : Single b' := by
  cases heff with
  | worker ha hs =>
    refine ⟨h.carried, fun job hp => ?_⟩
    rw [residents_worker (BatchAction.isWorker ha) hs, capacity_step hs]
    exact h.room job hp
  | pullsCarried job _ _ _ hroom => exact ⟨rfl, fun _ _ => (room_of_canAdmit hroom).1⟩
  | pulls job rest _ _ _ _ hroom => exact ⟨h.carried, fun _ _ => (room_of_canAdmit hroom).1⟩
  | admits job start hp =>
    rcases b.admitPulled_cases job start (h.room job hp) with ⟨-, he⟩ | ⟨-, he⟩ <;> rw [he] <;>
      exact ⟨h.carried, by simp⟩
  | takes _ hp =>
    rcases b.take_cases with ⟨completion, rest, -, he⟩ | ⟨failure, -, -, he⟩ | ⟨-, -, he⟩ <;>
      rw [he] <;> exact ⟨h.carried, by simp⟩
  | expires =>
    refine ⟨h.carried, fun job hp => ?_⟩
    rw [expire_eq]
    exact h.room job hp
  | watcherReturns => exact ⟨h.carried, h.room⟩
  | exhausts | full | ends | goesOn | resumes | closes | closesIntake | quiesces | shuts | joins =>
    exact ⟨h.carried, by simp⟩

/-! ### Every step is one of finitely many -/

/-- A bound on the steps a batch can still take. -/
def remaining (b : RunBatch Job Done Fault) : ℕ :=
  9 * b.source.length + b.phase.rank + b.scheduler.load + if b.watching then 1 else 0

/-- **Every step lowers the bound.** -/
theorem remaining_effect (h : Single b) (heff : Effect b action b') :
    b'.remaining < b.remaining := by
  cases heff with
  | worker ha hs =>
    have := load_worker_lt (BatchAction.isWorker ha) hs
    simp only [remaining]
    omega
  | pullsCarried job _ _ hcarried => rw [h.carried] at hcarried; cases hcarried
  | pulls job rest _ hp _ hs =>
    simp only [remaining, hp, hs, List.length_cons, BatchPhase.rank]
    omega
  | admits job start hp =>
    have hload := b.scheduler.load_admitJob_le job () start
    rcases b.admitPulled_cases job start (h.room job hp) with ⟨-, he⟩ | ⟨-, he⟩ <;>
    · rw [he]
      simp only [remaining, hp, BatchPhase.rank]
      omega
  | takes _ hp =>
    rcases b.take_cases with ⟨completion, rest, hr, he⟩ | ⟨failure, -, -, he⟩ | ⟨-, -, he⟩
    · have hload : ((b.scheduler.handOver completion rest).record
          (.delivered 0 completion)).load + 4 = b.scheduler.load := by
        simp only [handOver, popToken, announceChange, record, load, hr, List.length_cons]
        omega
      rw [he]
      simp only [remaining, hp, BatchPhase.rank]
      omega
    · rw [he]
      simp only [remaining, hp, BatchPhase.rank]
      omega
    · rw [he]
      simp only [remaining, hp, BatchPhase.rank]
      omega
  | joins ending _ scheduler hp hs =>
    have := load_shutdownEnd_le hs
    simp only [remaining, hp, BatchPhase.rank]
    omega
  | expires hw =>
    rw [expire_eq]
    simp only [remaining, hw, load, if_true, Bool.false_eq_true, if_false]
    omega
  | watcherReturns hw =>
    simp only [remaining, hw, if_true, Bool.false_eq_true, if_false]
    omega
  | exhausts _ hp | full _ hp | ends _ hp | goesOn _ hp | resumes hp | closes hp
  | closesIntake _ _ hp | quiesces _ _ hp | shuts _ _ hp =>
    simp only [remaining, hp, BatchPhase.rank, closeIntake, shutdownBegin, announceChange, load]
    omega

theorem single_of_reach {ok : BatchAction Done Fault → RunBatch Job Done Fault → Prop}
    {capacity : ℤ} {jobs : List Job} {wallTime : Bool} {b₀ b : RunBatch Job Done Fault}
    (h0 : open? capacity jobs wallTime = some b₀) (h : Reach step ok b₀ b) : Single b := by
  refine h.invariant ?_ fun u a v _ hu _ hs => hu.effect (effect_of_step hs)
  obtain ⟨-, rfl⟩ := open?_eq h0
  exact ⟨rfl, by simp⟩

/-- **A run of a batch has finitely many steps**, whatever its threads do. -/
theorem length_le_remaining (actions : List (BatchAction Done Fault)) :
    ∀ {b b' : RunBatch Job Done Fault}, Single b → exec step actions b = some b' →
      actions.length + b'.remaining ≤ b.remaining := by
  induction actions with
  | nil =>
    intro b b' _ h
    cases h
    simp
  | cons action actions ih =>
    intro b b' hsingle h
    obtain ⟨c, hc, hrest⟩ := Option.bind_eq_some_iff.mp h
    have heff := effect_of_step hc
    have hlt := remaining_effect hsingle heff
    have := ih (hsingle.effect heff) hrest
    rw [List.length_cons]
    omega

end RunBatch

end DrExec.Scheduling.Batch
