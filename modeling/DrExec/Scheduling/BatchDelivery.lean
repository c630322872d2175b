import DrExec.Scheduling.BatchSteps

/-! # A batch is delivered whole

In a calm run every thread starts, every call of the executor returns and the consumer takes all
that is yielded; the deadline may expire at any moment. `Flow` is what then holds between any two
steps: jobs go from the source through the scheduler to the consumer, and none is lost, repeated or
overtaken. A batch that has not ended can go on (`can_proceed`). -/

namespace DrExec.Scheduling.Scheduler.ExecutionScheduler

variable {Job Ctx Done Fault : Type}

/-- `admit` with room and an open intake, of a scheduler whose threads start. -/
theorem admitJob_starting (s : ExecutionScheduler Job Ctx Done Fault) (job : Job) (context : Ctx)
    (hopen : s.intakeClosed = false) (hroom : s.residents < s.capacity) (hb : s.broken = none) :
    ∃ tokens pending cancelled threads workers announced, s.admitJob job context none =
      (.admitted, { s with
        tokens := tokens
        pending := pending
        cancelled := cancelled
        threads := threads
        workers := workers
        announced := announced
        nextTicket := s.nextTicket + 1
        residents := s.residents + 1
        history := s.history ++ [.admitted s.nextTicket job context] }) := by
  obtain ⟨cancelled, hq⟩ := s.enqueue_eq job context
  have hunbroken : ((s.enqueue job context).ensureWorker none).announceChange.broken = none := by
    rcases (s.enqueue job context).ensureWorker_cases none with
      ⟨-, he⟩ | ⟨failure, hfailure, -⟩ | ⟨-, -, he⟩
    · rw [he, hq]
      exact hb
    · cases hfailure
    · rw [he, hq]
      exact hb
  have hadmits : s.admitJob job context none =
      (.admitted, ((s.enqueue job context).ensureWorker none).announceChange) := by
    unfold admitJob
    rw [if_neg (by simp [hopen]), if_neg (by omega)]
    simp [hunbroken]
  rw [hadmits]
  rcases (s.enqueue job context).ensureWorker_cases none with
    ⟨-, he⟩ | ⟨failure, hfailure, -⟩ | ⟨-, -, he⟩
  · rw [he, hq]
    exact ⟨_, _, _, _, _, _, rfl⟩
  · cases hfailure
  · rw [he, hq]
    exact ⟨_, _, _, _, _, _, rfl⟩

/-- What a section of a worker thread does in a calm run: it moves a job on, or buffers a result. -/
inductive Moves (s : ExecutionScheduler Job Ctx Done Fault) :
    ExecutionScheduler Job Ctx Done Fault → Prop
  | on (running : ℤ) (pending : List (Admitted Job Ctx)) (threads : List (Worker Job Ctx))
      (events : List (Event Job Ctx Done)) : (∀ event ∈ events, ∃ t job, event = .called t job) →
      Moves s { s with
        running := running, pending := pending, threads := threads, history := s.history ++ events }
  | buffers (running : ℤ) (threads : List (Worker Job Ctx)) (announced : ℕ)
      (completion : Completion Ctx Done) :
      Moves s { s with
        running := running
        threads := threads
        announced := announced
        ready := s.ready ++ [completion]
        history := s.history ++ [.returned completion.ticket completion.completedExecution] }

theorem moves_workerTakes (s : ExecutionScheduler Job Ctx Done Fault) (worker : ℕ) :
    s.Moves (s.workerTakes worker) := by
  rcases s.workerTakes_cases worker with ⟨admitted, rest, -, -, he⟩ | ⟨-, he⟩
  · rw [he]
    exact .on _ _ _ _ (by simp)
  · have hsame := Moves.on s.running s.pending (s.threads.set worker .returned)
      ([] : List (Event Job Ctx Done)) (s := s) (by simp)
    rw [List.append_nil] at hsame
    rw [he]
    exact hsame

end DrExec.Scheduling.Scheduler.ExecutionScheduler

namespace DrExec.Scheduling.Batch

open DrExec.Lib.Transition DrExec.Lib.Lists Scheduler ExecutionScheduler

variable {Job Done Fault : Type}

/-- Every thread starts, every call of the executor returns, and the consumer goes on. -/
def BatchAction.calm : BatchAction Done Fault → Bool
  | .advance start => start.isNone
  | .finish _ (.error _) => false
  | .close => false
  | _ => true

/-- The job that has been pulled and not admitted. -/
def BatchPhase.inHand : BatchPhase Job Fault → List Job
  | .admitting job => [job]
  | _ => []

namespace RunBatch

/-- **The flow of a batch** in a calm run. -/
structure Flow (jobs : List Job) (b : RunBatch Job Done Fault) : Prop where
  unbroken : b.scheduler.broken = none
  pulled : b.pulled ++ b.source = jobs
  admitted : ∃ jobs', b.pulled = jobs' ++ b.phase.inHand ∧
    jobs'.length = b.scheduler.nextTicket ∧
    ∀ ticket job context, .admitted ticket job context ∈ b.scheduler.history →
      jobs'[ticket]? = some job
  exhausted : b.exhausted = true → b.source = []
  intake : b.phase.ending? = none → b.scheduler.intakeClosed = false
  demand : b.phase = .checkEnd → b.exhausted = true ∨ b.scheduler.capacity ≤ b.scheduler.residents
  awaited : b.phase = .taking → 0 < b.scheduler.residents
  residents : b.scheduler.residents + b.yielded.length = b.scheduler.nextTicket
  yielded : b.yielded = (deliveries 0 b.scheduler.history).map Completion.completedExecution
  order : returns b.scheduler.history =
    (deliveries 0 b.scheduler.history ++ b.scheduler.ready).map fun completion =>
      (completion.ticket, completion.completedExecution)
  finished : ∀ ending, b.phase.ending? = some ending →
    ending = .returned ∧ b.exhausted = true ∧ b.scheduler.residents = 0
  joining : ∀ ending, b.phase = .joining ending → ∃ call, b.scheduler.joining = [call]
  unjoined : (∀ ending, b.phase ≠ .joining ending) → b.scheduler.joining = []

variable {jobs : List Job} {b b' : RunBatch Job Done Fault} {action : BatchAction Done Fault}

/-- A worker thread moves jobs on. -/
theorem moves_of_calm {scheduler : ExecutionScheduler Job Unit Done Fault}
    {section' : Action Job Unit Done Fault} (ha : action.worker? = some section')
    (hcalm : action.calm = true) (h : ExecutionScheduler.step section' b.scheduler = some scheduler) :
    b.scheduler.Moves scheduler := by
  cases action with
  | takeAdmitted worker =>
    cases ha
    simp only [ExecutionScheduler.step] at h
    split at h
    · split_ifs at h
      cases h
      exact moves_workerTakes _ worker
    · cases h
  | finish worker result =>
    cases ha
    simp only [ExecutionScheduler.step] at h
    split at h
    · next admitted _ =>
      cases h
      cases result with
      | ok completed =>
        rw [workerFinishes_ok]
        exact .buffers _ _ _ _
      | error failure => cases hcalm
    · cases h
  | _ => cases ha

theorem Flow.moves {scheduler : ExecutionScheduler Job Unit Done Fault} (h : Flow jobs b)
    (hm : b.scheduler.Moves scheduler) : Flow jobs { b with scheduler := scheduler } := by
  cases hm with
  | on running pending threads events hevents =>
    have hreturns : returns events = [] := List.filterMap_eq_nil_iff.mpr fun event he => by
      obtain ⟨t, job, rfl⟩ := hevents event he
      rfl
    have hdeliveries : deliveries 0 events = [] := List.filterMap_eq_nil_iff.mpr fun event he => by
      obtain ⟨t, job, rfl⟩ := hevents event he
      rfl
    refine { h with admitted := ?_, yielded := ?_, order := ?_ }
    · obtain ⟨jobs', hjobs, hlen, hadmitted⟩ := h.admitted
      refine ⟨jobs', hjobs, hlen, fun ticket job context hmem => ?_⟩
      rcases List.mem_append.mp hmem with hmem | hmem
      · exact hadmitted ticket job context hmem
      · obtain ⟨t, job, he⟩ := hevents _ hmem
        cases he
    · rw [deliveries_append, hdeliveries, List.append_nil]
      exact h.yielded
    · rw [returns_append, deliveries_append, hreturns, hdeliveries, List.append_nil,
        List.append_nil]
      exact h.order
  | buffers running threads announced completion =>
    refine { h with admitted := ?_, yielded := ?_, order := ?_ }
    · obtain ⟨jobs', hjobs, hlen, hadmitted⟩ := h.admitted
      refine ⟨jobs', hjobs, hlen, fun ticket job context hmem => ?_⟩
      exact hadmitted ticket job context (by simpa using hmem)
    · rw [deliveries_append]
      simpa [deliveries] using h.yielded
    · rw [returns_append, deliveries_append, h.order]
      simp [returns, deliveries]

/-- The pulled job is admitted. -/
theorem Flow.admits (h : Flow jobs b) (hsingle : Single b) {job : Job}
    (hp : b.phase = .admitting job) : Flow jobs (b.admitPulled job none) := by
  have hopen := h.intake (by rw [hp]; rfl)
  obtain ⟨tokens, pending, cancelled, threads, workers, announced, he⟩ :=
    b.scheduler.admitJob_starting job () hopen (hsingle.room job hp) h.unbroken
  have hb : b.admitPulled job none = { b with
      scheduler := (b.scheduler.admitJob job () none).2, phase := .intake } := by
    unfold admitPulled
    rw [he]
  rw [hb, he]
  obtain ⟨jobs', hjobs, hlen, hadmitted⟩ := h.admitted
  rw [hp] at hjobs
  constructor
  · exact h.unbroken
  · exact h.pulled
  · refine ⟨jobs' ++ [job], by simpa [BatchPhase.inHand] using hjobs, by simp [hlen], fun ticket job' context hmem => ?_⟩
    rcases List.mem_append.mp hmem with hmem | hmem
    · have hold := hadmitted ticket job' context hmem
      have hlt := (List.getElem?_eq_some_iff.mp hold).1
      rwa [List.getElem?_append_left hlt]
    · cases List.mem_singleton.mp hmem
      simp [← hlen]
  · exact h.exhausted
  · exact fun _ => hopen
  · exact fun hphase => by cases hphase
  · exact fun hphase => by cases hphase
  · have := h.residents
    dsimp only
    omega
  · dsimp only
    rw [deliveries_append]
    simpa [deliveries] using h.yielded
  · dsimp only
    rw [returns_append, deliveries_append, h.order]
    simp [returns, deliveries]
  · exact fun ending hending => by cases hending
  · exact fun ending hphase => by cases hphase
  · exact fun _ => h.unjoined (by simp [hp])

/-- A completion is yielded. -/
theorem Flow.takes (h : Flow jobs b) (hacc : b.scheduler.Accounted) (hp : b.phase = .taking)
    (hwait : b.scheduler.takeWait = true) : Flow jobs b.take := by
  rcases b.take_cases with ⟨completion, rest, hr, he⟩ | ⟨failure, -, hb, -⟩ | ⟨hr, hb, -⟩
  · rw [he]
    simp only [handOver, popToken, announceChange, record]
    constructor
    · exact h.unbroken
    · exact h.pulled
    · obtain ⟨jobs', hjobs, hlen, hadmitted⟩ := h.admitted
      rw [hp] at hjobs
      exact ⟨jobs', hjobs, hlen, fun t job context hmem => hadmitted t job context (by simpa using hmem)⟩
    · exact h.exhausted
    · exact fun _ => h.intake (by rw [hp]; rfl)
    · exact fun hphase => by cases hphase
    · exact fun hphase => by cases hphase
    · have := h.residents
      simp only [List.length_append, List.length_singleton]
      omega
    · dsimp only
      rw [deliveries_append, h.yielded]
      simp [deliveries]
    · dsimp only
      rw [returns_append, deliveries_append, h.order, hr]
      simp [returns, deliveries]
    · exact fun ending hending => by cases hending
    · exact fun ending hphase => by cases hphase
    · exact fun _ => h.unjoined (by simp [hp])
  · rw [h.unbroken] at hb
    cases hb
  · -- the wait ends without a completion only if no job is resident
    have hquiet : b.scheduler.running = 0 ∧ b.scheduler.pending = [] := by
      simpa [takeWait, hr, hb] using hwait
    have hres := hacc.residents_eq hb
    have hawaited := h.awaited hp
    simp only [hr, hquiet.1, hquiet.2, List.length_nil] at hres
    omega

/-- A step that changes only the phase, within the loop. -/
theorem Flow.phase (h : Flow jobs b) {phase : BatchPhase Job Fault}
    (hhand : phase.inHand = b.phase.inHand) (hloop : b.phase.ending? = none)
    (hloop' : phase.ending? = none)
    (hdemand : phase = .checkEnd →
      b.exhausted = true ∨ b.scheduler.capacity ≤ b.scheduler.residents)
    (hawaited : phase = .taking → 0 < b.scheduler.residents) :
    Flow jobs { b with phase := phase } := by
  refine { h with
    admitted := ?_, intake := fun _ => h.intake hloop, demand := hdemand, awaited := hawaited
    finished := ?_, joining := ?_, unjoined := fun _ => h.unjoined ?_ }
  · rw [hhand]
    exact h.admitted
  · intro ending hending
    rw [hloop'] at hending
    cases hending
  · rintro ending rfl
    cases hloop'
  · intro ending hphase
    rw [hphase] at hloop
    cases hloop

/-- A step of the `finally` block that moves no job. -/
theorem Flow.leave (h : Flow jobs b) {scheduler : ExecutionScheduler Job Unit Done Fault}
    {phase : BatchPhase Job Fault} {ending : BatchEnding Fault}
    (hhand : b.phase.inHand = []) (hending : phase.ending? = some ending)
    (hfinished : ending = .returned ∧ b.exhausted = true ∧ b.scheduler.residents = 0)
    (hbroken : scheduler.broken = b.scheduler.broken)
    (hticket : scheduler.nextTicket = b.scheduler.nextTicket)
    (hresidents : scheduler.residents = b.scheduler.residents)
    (hready : scheduler.ready = b.scheduler.ready)
    (hhistory : scheduler.history = b.scheduler.history)
    (hjoining : ∀ ending, phase = .joining ending → ∃ call, scheduler.joining = [call])
    (hunjoined : (∀ ending, phase ≠ .joining ending) → scheduler.joining = []) :
    Flow jobs { b with scheduler := scheduler, phase := phase } := by
  have hhand' : phase.inHand = [] := by
    cases phase with
    | admitting => cases hending
    | _ => rfl
  constructor
  · exact hbroken.trans h.unbroken
  · exact h.pulled
  · obtain ⟨jobs', hjobs, hlen, hadmitted⟩ := h.admitted
    refine ⟨jobs', ?_, hlen.trans hticket.symm, ?_⟩
    · rw [hjobs, hhand, hhand']
    · rw [hhistory]
      exact hadmitted
  · exact h.exhausted
  · intro hloop
    rw [hending] at hloop
    cases hloop
  · rintro rfl
    cases hending
  · rintro rfl
    cases hending
  · rw [hresidents, hticket]
    exact h.residents
  · rw [hhistory]
    exact h.yielded
  · rw [hhistory, hready]
    exact h.order
  · intro ending' hending'
    cases hending.symm.trans hending'
    rw [hresidents]
    exact hfinished
  · exact hjoining
  · exact hunjoined

/-- **Every calm step keeps the flow.** -/
theorem Flow.effect (h : Flow jobs b) (hsingle : Single b) (hok : b.scheduler.WorkersOk)
    (hacc : b.scheduler.Accounted) (hcalm : action.calm = true) (heff : Effect b action b') :
    Flow jobs b' := by
  have hge := hacc.residents_ge
  have hcap := hok.capacity_pos
  cases heff with
  | worker ha hs => exact h.moves (moves_of_calm ha hcalm hs)
  | pullsCarried job _ _ hcarried => rw [hsingle.carried] at hcarried; cases hcarried
  | pulls job rest _ hp _ hs hroom =>
    obtain ⟨jobs', hjobs, hlen, hadmitted⟩ := h.admitted
    rw [hp] at hjobs
    refine { h with
      pulled := ?_
      admitted := ⟨jobs', ?_, hlen, hadmitted⟩
      exhausted := ?_
      intake := fun _ => h.intake (by rw [hp]; rfl)
      demand := by simp
      awaited := by simp
      finished := by simp [BatchPhase.ending?]
      joining := by simp
      unjoined := fun _ => h.unjoined (by simp [hp]) }
    · rw [← h.pulled, hs, List.append_assoc]
      rfl
    · simpa [BatchPhase.inHand] using hjobs
    · intro he
      rw [h.exhausted he] at hs
      cases hs
  | exhausts _ hp _ hs =>
    have hexhausted : Flow jobs { b with exhausted := true } :=
      { h with
        exhausted := fun _ => hs
        demand := fun _ => .inl rfl
        finished := fun ending hending =>
          ⟨(h.finished ending hending).1, rfl, (h.finished ending hending).2.2⟩ }
    exact hexhausted.phase (by simp [hp, BatchPhase.inHand]) (by simp [hp, BatchPhase.ending?]) rfl
      (fun _ => .inl rfl) (by simp)
  | full _ hp hfull =>
    refine h.phase (by rw [hp]; rfl) (by rw [hp]; rfl) rfl (fun _ => ?_) (by simp)
    have hopen := h.intake (by rw [hp]; rfl)
    refine hfull.imp id fun hclosed => ?_
    simpa [canAdmit, hopen] using hclosed
  | admits job start hp =>
    obtain rfl := Option.isNone_iff_eq_none.mp hcalm
    exact h.admits hsingle hp
  | ends _ hp he hres =>
    have hzero : b.scheduler.residents = 0 := by
      have hnone : b.scheduler.residents ≤ 0 := by simpa [hasResidents] using hres
      have hrun := hok.running_eq
      omega
    exact h.leave (by rw [hp]; rfl) rfl ⟨rfl, he, hzero⟩ rfl rfl rfl rfl rfl
      (by simp) fun _ => h.unjoined (by simp [hp])
  | goesOn _ hp hmore =>
    refine h.phase (by rw [hp]; rfl) (by rw [hp]; rfl) rfl (by simp) (fun _ => ?_)
    rcases hmore with he | hc | hres
    · rcases h.demand hp with he' | hfull
      · rw [he] at he'
        cases he'
      · omega
    · rw [hsingle.carried] at hc
      cases hc
    · simpa [hasResidents] using hres
  | takes _ hp hwait => exact h.takes hacc hp hwait
  | resumes hp =>
    exact h.phase (by rw [hp]; rfl) (by rw [hp]; rfl) rfl (by simp)
      (by simp)
  | closes => cases hcalm
  | closesIntake ending _ hp =>
    exact h.leave (by rw [hp]; rfl) rfl (h.finished ending (by rw [hp]; rfl)) rfl rfl rfl rfl rfl
      (by simp) fun _ => h.unjoined (by simp [hp])
  | quiesces ending _ hp =>
    have hleave : Flow jobs { b with scheduler := b.scheduler, phase := .shutting ending } :=
      h.leave (by rw [hp]; rfl) rfl (h.finished ending (by rw [hp]; rfl)) rfl rfl rfl rfl rfl
      (by simp) fun _ => h.unjoined (by simp [hp])
    exact { hleave with }
  | shuts ending _ hp =>
    refine h.leave (by rw [hp]; rfl) rfl (h.finished ending (by rw [hp]; rfl)) rfl rfl rfl rfl rfl
      (fun _ _ => ?_) fun hne => absurd rfl (hne ending)
    refine ⟨⟨b.scheduler.workers, false⟩, ?_⟩
    simp [shutdownBegin, announceChange, h.unjoined (by simp [hp])]
  | joins ending _ scheduler hp hs =>
    obtain ⟨hreturned, he, hzero⟩ := h.finished ending (by rw [hp]; rfl)
    obtain ⟨call, hcall⟩ := h.joining ending hp
    have hready : b.scheduler.ready = [] := by
      have hrun := hok.running_eq
      rw [← List.length_eq_zero_iff]
      omega
    rw [ExecutionScheduler.step, hcall] at hs
    simp only [List.getElem?_cons_zero] at hs
    split_ifs at hs
    cases hs
    refine h.leave (by rw [hp]; rfl) rfl ⟨hreturned, he, hzero⟩ ?_ ?_ ?_ ?_ ?_ (by simp)
      (fun _ => by simp)
    all_goals
      unfold shutdownEnd dropCompletions announceChange
      dsimp only
      split_ifs <;> simp [hready, hzero]
  | expires =>
    rw [expire_eq]
    exact { h with }
  | watcherReturns => exact { h with }

/-- The runs in which every thread starts, every call returns and the consumer goes on. -/
abbrev Calm (action : BatchAction Done Fault) (_ : RunBatch Job Done Fault) : Prop :=
  action.calm = true

/-- **The flow holds in every state of a calm run.** -/
theorem flow_of_reach {capacity : ℤ} {wallTime : Bool} {b₀ : RunBatch Job Done Fault}
    (h0 : open? capacity jobs wallTime = some b₀) (h : Reach step Calm b₀ b) : Flow jobs b := by
  obtain ⟨hinit, hb₀⟩ := open?_eq h0
  refine h.invariant ?_ fun u a v hr hu ha hs => ?_
  · subst hb₀
    constructor <;> simp [BatchPhase.inHand, BatchPhase.ending?, deliveries, returns]
  · have hreach := scheduler_reachable hr
    exact hu.effect (single_of_reach h0 hr) (workersOk_of_reachable hinit hreach)
      (accounted_of_reachable hinit hreach) ha (effect_of_step hs)

/-! ### A batch that has not ended can go on -/

/-- A calm step of a worker thread goes on with the batch. -/
theorem proceeds_of_worker {section' : Action Job Unit Done Fault}
    {scheduler : ExecutionScheduler Job Unit Done Fault} (action : BatchAction Done Fault)
    (hworker : action.worker? = some section') (hcalm : action.calm = true)
    (hs : ExecutionScheduler.step section' b.scheduler = some scheduler) :
    ∃ action b', action.calm = true ∧ action ≠ .expire ∧ action ≠ .watcherReturns ∧
      step action b = some b' := by
  refine ⟨action, { b with scheduler }, hcalm, ?_, ?_, ?_⟩
  · rintro rfl
    cases hworker
  · rintro rfl
    cases hworker
  · cases action <;> cases hworker <;> exact Option.map_eq_some_iff.mpr ⟨_, hs, rfl⟩

/-- A scheduler that is not quiescent has a worker thread that can go on. -/
theorem worker_proceeds (hok : b.scheduler.WorkersOk) (hbusy : b.scheduler.quiescent = false)
    (completed : Done) : ∃ action b', action.calm = true ∧ action ≠ .expire ∧
      action ≠ .watcherReturns ∧ step action b = some b' := by
  by_cases hcalls : b.scheduler.calls = []
  · have hpending : b.scheduler.pending ≠ [] := by
      have hrun := hok.running_eq
      rw [hcalls, List.length_nil, Nat.cast_zero] at hrun
      simpa [quiescent, hrun] using hbusy
    obtain ⟨worker, scheduler, hs, -⟩ := takes_one hok hpending hcalls
    exact proceeds_of_worker (.takeAdmitted worker) rfl rfl hs
  · obtain ⟨worker, scheduler, hs, -⟩ := finishes_one hcalls completed
    exact proceeds_of_worker (.finish worker (.ok completed)) rfl rfl hs

/-- A thread that a join still waits for can go on, since the intake is closed. -/
theorem thread_proceeds {call : Shutdown} (hclosed : b.scheduler.intakeClosed = true)
    (hwaits : b.scheduler.joined call = false) (completed : Done) :
    ∃ action b', action.calm = true ∧ action ≠ .expire ∧ action ≠ .watcherReturns ∧
      step action b = some b' := by
  obtain ⟨worker, -, hworker⟩ := List.all_eq_false.mp hwaits
  rcases hthread : b.scheduler.threads[worker]? with _ | thread
  · simp [hthread] at hworker
  · cases thread with
    | waiting =>
      have hwait : b.scheduler.takeAdmittedWait = true := by simp [takeAdmittedWait, hclosed]
      have hs : ExecutionScheduler.step (.takeAdmitted worker) b.scheduler =
          some (b.scheduler.workerTakes worker) := by
        simp [ExecutionScheduler.step, hthread, hwait]
      exact proceeds_of_worker (.takeAdmitted worker) rfl rfl hs
    | calling admitted =>
      have hs : ExecutionScheduler.step (.finish worker (.ok completed)) b.scheduler =
          some (b.scheduler.workerFinishes worker admitted (.ok completed)) := by
        simp [ExecutionScheduler.step, hthread]
      exact proceeds_of_worker (.finish worker (.ok completed)) rfl rfl hs
    | returned => simp [hthread] at hworker

/-- **No batch is stuck** before its end. -/
theorem can_proceed (h : Flow jobs b) (hok : b.scheduler.WorkersOk)
    (hne : ∀ ending, b.phase ≠ .ended ending) (completed : Done) :
    ∃ action b', action.calm = true ∧ action ≠ .expire ∧ action ≠ .watcherReturns ∧
      step action b = some b' := by
  have hadvance : ∀ b', b.advance none = some b' → ∃ action b', action.calm = true ∧
      action ≠ .expire ∧ action ≠ .watcherReturns ∧ step action b = some b' :=
    fun b' hb' => ⟨.advance none, b', rfl, (fun h => by cases h), (fun h => by cases h), hb'⟩
  rcases hphase : b.phase with _ | job | _ | _ | _ | ending | ending | ending | ending | ending
  · exact hadvance _ (by rw [advance, hphase])
  · exact hadvance _ (by rw [advance, hphase])
  · exact hadvance _ (by rw [advance, hphase])
  · by_cases hwait : b.scheduler.takeWait = true
    · exact hadvance b.take (by rw [advance, hphase]; exact if_pos hwait)
    · refine worker_proceeds hok ?_ completed
      simp only [takeWait, Bool.or_eq_true, not_or, Bool.not_eq_true] at hwait
      exact hwait.2
  · refine ⟨.resume, { b with phase := .intake }, rfl, (fun h => by cases h),
      (fun h => by cases h), ?_⟩
    rw [step, hphase]
  · exact hadvance _ (by rw [advance, hphase])
  · by_cases hquiet : b.scheduler.quiescent = true
    · exact hadvance { b with disarmed := true, phase := .shutting ending }
        (by rw [advance, hphase]; exact if_pos hquiet)
    · exact worker_proceeds hok (by simpa using hquiet) completed
  · exact hadvance _ (by rw [advance, hphase])
  · obtain ⟨call, hcall⟩ := h.joining ending hphase
    have hclosed := (hok.joining_all call (by simp [hcall])).1
    by_cases hjoined : b.scheduler.joined call = true
    · have hend : ExecutionScheduler.step (.shutdownEnd 0) b.scheduler =
          some { b.scheduler.shutdownEnd call with joining := [] } := by
        simp [ExecutionScheduler.step, hcall, hjoined]
      exact hadvance _ (by rw [advance, hphase]; exact Option.map_eq_some_iff.mpr ⟨_, hend, rfl⟩)
    · exact thread_proceeds hclosed (by simpa using hjoined) completed
  · exact absurd hphase (hne ending)

/-! ### The whole batch -/

/-- What is promised of a batch of `jobs` in every state of a calm run: it has pulled at most
`capacity` jobs beyond the completions taken; it yields results in the order in which the calls
returned, each of the call of one of its jobs; no further run is longer than nine steps for each job
and eight; while it has not ended some step other than the watcher's is possible; and when it has
ended it returned, every job was pulled, and what it yielded are the results of one call for each
job. -/
structure Delivers (jobs : List Job) (capacity : ℤ) (b : RunBatch Job Done Fault) : Prop where
  bounded : (b.pulled.length : ℤ) - b.yielded.length ≤ capacity
  ordered : b.yielded <+: (returns b.scheduler.history).map Prod.snd
  own : ∀ ticket job, .called ticket job ∈ b.scheduler.history → jobs[ticket]? = some job
  terminates : ∀ (actions : List (BatchAction Done Fault)) (b' : RunBatch Job Done Fault),
    exec step actions b = some b' → actions.length ≤ 9 * jobs.length + 8
  progress : (∀ ending, b.phase ≠ .ended ending) → ∀ _ : Done,
    ∃ action b', action.calm = true ∧ action ≠ .expire ∧ action ≠ .watcherReturns ∧
      step action b = some b'
  ended : ∀ ending, b.phase = .ended ending → ending = .returned ∧ b.pulled = jobs ∧
    b.yielded = (returns b.scheduler.history).map Prod.snd ∧
    ((returns b.scheduler.history).map Prod.fst).Perm (List.range jobs.length)

/-- **A batch is delivered whole**, in every run in which its threads start, its executor returns
and its consumer goes on, and whenever its deadline expires. -/
theorem run_batch_delivers {capacity : ℤ} {jobs : List Job} {wallTime : Bool}
    {b₀ b : RunBatch Job Done Fault} (h0 : open? capacity jobs wallTime = some b₀)
    (h : Reach step Calm b₀ b) : Delivers jobs capacity b := by
  have hflow := flow_of_reach h0 h
  have hsingle := single_of_reach h0 h
  obtain ⟨hinit, hb₀⟩ := open?_eq h0
  have hreach := scheduler_reachable h
  have hok := workersOk_of_reachable hinit hreach
  have hacc := accounted_of_reachable hinit hreach
  have hl := ledger_ok_of_reachable hinit hreach
  have hcapacity : b.scheduler.capacity = capacity := capacity_of_reachable hinit hreach
  obtain ⟨jobs', hjobs', hlen, hadmitted⟩ := hflow.admitted
  constructor
  · have := hflow.residents
    have hle := hacc.residents_le
    have hlength := congrArg List.length hjobs'
    rw [List.length_append] at hlength
    rcases hphase : b.phase with _ | job | _ | _ | _ | _ | _ | _ | _ | _
    case admitting =>
      have hroom := hsingle.room job hphase
      simp only [hphase, BatchPhase.inHand, List.length_singleton] at hlength
      omega
    all_goals
      simp only [hphase, BatchPhase.inHand, List.length_nil] at hlength
      omega
  · rw [hflow.yielded, hflow.order, List.map_map, List.map_append]
    exact List.prefix_append _ _
  · intro ticket job hcalled
    obtain ⟨context, hmem⟩ := hl.called_origin ticket job hcalled
    have hget := hadmitted ticket job context hmem
    have hlt := (List.getElem?_eq_some_iff.mp hget).1
    rw [← hflow.pulled, hjobs', List.append_assoc, List.getElem?_append_left hlt]
    exact hget
  · intro actions b' hrun
    have hremaining : b.remaining ≤ b₀.remaining :=
      h.invariant (I := fun u => u.remaining ≤ b₀.remaining) le_rfl fun u a v hr hu _ hs =>
        (remaining_effect (single_of_reach h0 hr) (effect_of_step hs)).le.trans hu
    have hhead : b₀.remaining ≤ 9 * jobs.length + 8 := by
      subst hb₀
      simp only [remaining, BatchPhase.rank, load, List.length_nil, List.map_nil, List.sum_nil]
      split_ifs <;> omega
    have := length_le_remaining actions hsingle hrun
    omega
  · exact fun hne completed => can_proceed hflow hok hne completed
  · intro ending hphase
    obtain ⟨hreturned, hexhausted, hzero⟩ := hflow.finished ending (by rw [hphase]; rfl)
    have hready : b.scheduler.ready = [] := by
      have hge := hacc.residents_ge
      have hrun := hok.running_eq
      rw [← List.length_eq_zero_iff]
      omega
    have hpulled : b.pulled = jobs := by
      rw [← hflow.pulled, hflow.exhausted hexhausted, List.append_nil]
    have horder := hflow.order
    rw [hready, List.append_nil] at horder
    refine ⟨hreturned, hpulled, ?_, ?_⟩
    · rw [hflow.yielded, horder, List.map_map]
      rfl
    · -- distinct tickets of admitted jobs, as many as there are jobs
      have htickets : (returns b.scheduler.history).map Prod.fst =
          (deliveries 0 b.scheduler.history).map Completion.ticket := by
        rw [horder, List.map_map]
        rfl
      have hjobs : jobs = jobs' := by
        rw [← hpulled, hjobs', hphase]
        exact List.append_nil _
      have hcount : ((deliveries 0 b.scheduler.history).map Completion.ticket).length =
          jobs.length := by
        have hresidents := hflow.residents
        rw [hflow.yielded, hzero, List.length_map] at hresidents
        rw [List.length_map, hjobs]
        omega
      have hnodup := (delivers_nodup hl).sublist (deliveries_sublist 0 _)
      rw [htickets]
      refine (List.subperm_of_subset hnodup fun ticket hticket => ?_).perm_of_length_le
        (by rw [hcount, List.length_range])
      obtain ⟨completion, hmem, rfl⟩ := List.mem_map.mp hticket
      obtain ⟨⟨job, hadm⟩, -⟩ := hl.delivered_origin 0 completion (mem_deliveries.mp hmem)
      rw [List.mem_range, hjobs]
      exact (List.getElem?_eq_some_iff.mp (hadmitted _ _ _ hadm)).1

/-- Two jobs whose second call returns first, with the deadline expiring between. -/
theorem twoJobs_delivered : ∃ b : RunBatch ℕ ℕ ℕ,
    Delivers [10, 20] 2 b ∧ b.phase = .ended .returned ∧ b.yielded = [21, 11] := by
  have h0 : open? 2 [10, 20] true =
      some ({ scheduler := { capacity := 2 }, source := [10, 20], watching := true } :
        RunBatch ℕ ℕ ℕ) := rfl
  refine ⟨_, run_batch_delivers h0 (.of_exec_checked
    [[.advance none, .advance none, .takeAdmitted 0, .advance none, .advance none,
      .takeAdmitted 1, .expire, .finish 1 (.ok 21)], List.replicate 3 (.advance none),
      [.resume, .advance none, .advance none, .finish 0 (.ok 11), .advance none, .resume],
      List.replicate 5 (.advance none), [.takeAdmitted 0, .takeAdmitted 1, .advance none]].flatten
    rfl), rfl, rfl⟩

end RunBatch

end DrExec.Scheduling.Batch
