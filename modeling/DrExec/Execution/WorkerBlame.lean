import DrExec.Execution.WorkerPairing

/-! # Whom a worker's death is blamed on

A call learns of its worker's death from a write that fails or from the end of the worker's frames,
and reports the exit of the worker as what became of its payload. That a worker died before it was
sent the request looks the same. A `TracedSet` is a served set with the calls whose request went to
a worker that was alive; they are all the calls that report a death while no worker dies idle
(`blame_sound`). -/

namespace DrExec.Execution.WorkerPool

open DrExec.Lib.Transition

variable {R F : Type}

/-! ### Requests that reach a worker -/

/-- The call writes its request to a worker that is alive. -/
def WorkerSet.reaches (w : WorkerSet F) (job : Job F) : Bool :=
  match job.phase with
  | .sending i => (w.workers[i]?).any fun worker => worker.requestsOpen && worker.exitCode.isNone
  | _ => false

/-- The completion reports the exit of the worker. -/
def Completion.reportsDeath : Completion F → Bool
  | .died _ => true
  | _ => false

def resultReportsDeath : Result F → Bool
  | .ok completion => completion.reportsDeath
  | .error _ => false

/-- The call blames its payload for the death of its worker. -/
def Phase.blames : Phase F → Bool
  | .completing _ completion => completion.reportsDeath
  | phase => phase.outcome?.any resultReportsDeath

/-- The request of the call was written, or its write failed, and the call may come to report a
death. -/
def Phase.asked : Phase F → Bool
  | .flushing _ | .receiving _ | .dying _ => true
  | phase => phase.blames

/-- A served set, and the calls whose request was delivered to a worker that was alive. -/
structure TracedSet (R : Type) where
  served : ServedSet R
  reached : List ℕ := []

namespace TracedSet

def init (width : ℕ) : TracedSet R := { served := .init width }

/-- The calls reached so far, after a step. -/
def note (t : TracedSet R) : Action (ℕ × R) → List ℕ
  | .job k (.write false) =>
    if (t.served.set.jobs[k]?).any t.served.set.reaches then t.reached ++ [k] else t.reached
  | _ => t.reached

def step (action : Action (ℕ × R)) (t : TracedSet R) : Option (TracedSet R) :=
  (ServedSet.step action t.served).map fun served => { served := served, reached := t.note action }

/-- No worker dies idle: its process ends before it has written its ready frame, or with a request
that it has not answered; and no call finds a request pipe broken. The set is not closed. -/
def busyDeaths : Action (ℕ × R) → TracedSet R → Bool
  | .close, _ => false
  | .die i _, t => !t.served.imported i || !(t.served.unanswered i).isEmpty
  | .job _ (.write true), _ => false
  | _, _ => true

/-- Every call that blames its payload for a death had its request delivered to a worker that was
alive. -/
def BlamesRightly (t : TracedSet R) : Prop :=
  ∀ k (job : Job (ℕ × R)), t.served.set.jobs[k]? = some job → job.phase.blames = true → k ∈ t.reached

end TracedSet

/-! ### A call that comes to report a death -/

variable {w w' u : WorkerSet F} {job job' : Job F} {choice : Choice}

theorem resultReportsDeath_complete (startedAt now : ℤ) (completion : Completion F)
    (h : resultReportsDeath (WorkerSet.complete startedAt now completion) = true) :
    completion.reportsDeath = true := by
  unfold WorkerSet.complete at h
  split_ifs at h
  · cases h
  · exact h

/-- A call has its request delivered, or its write fails, or it has come past that. -/
theorem asked_of_stepJob (h : w.stepJob job choice = some (u, job')) (ha : job'.phase.asked = true) :
    job.phase.asked = true ∨ ∃ i worker broken, job.phase = .sending i ∧
      w.workers[i]? = some worker ∧ worker.requestsOpen = true ∧ choice = .write broken := by
  by_cases hsending : ∃ i, job.phase = .sending i
  · obtain ⟨i, hp⟩ := hsending
    unfold WorkerSet.stepJob at h
    rw [hp] at h
    cases choice with
    | write broken =>
      obtain ⟨worker, hw, h⟩ := Option.bind_eq_some_iff.mp h
      refine .inr ⟨i, worker, broken, hp, hw, ?_, rfl⟩
      by_contra hopen
      rw [Bool.not_eq_true] at hopen
      simp only [hopen, Bool.not_false, if_true, Option.some.injEq, Prod.mk.injEq] at h
      rw [← h.2] at ha
      simp [Phase.asked, Phase.blames, Phase.outcome?, Phase.result?, resultReportsDeath] at ha
    | _ => cases h
  · refine .inl ?_
    have hnot : ∀ i, job.phase ≠ .sending i := fun i hi => hsending ⟨i, hi⟩
    cases jobStep_of_stepJob h with
    | goes phase hlocal =>
      dsimp only at ha
      cases hlocal with
      | writes i hp | breaks i hp => exact absurd hp (hnot i)
      | flushes i hp | died i exitCode hp => rw [hp]; rfl
      | completes completion now hp =>
        rw [hp]
        exact resultReportsDeath_complete _ _ _ ha
      | completesLeased i discarded completion now hp =>
        rw [hp]
        exact resultReportsDeath_complete _ _ _ ha
      | exits i discarded result hp | releases i result hp => rw [hp]; exact ha
      | _ =>
        simp [Phase.asked, Phase.blames, Phase.outcome?, Phase.result?, After.result?,
          resultReportsDeath, Completion.reportsDeath] at ha
    | gives entry phase hgives =>
      dsimp only at ha
      generalize job.phase = before at hgives
      cases hgives with
      | failed => simp [Phase.asked, Phase.blames, Completion.reportsDeath] at ha
      | worker i result => exact ha
      | freed after =>
        cases after with
        | refused => simp [Phase.asked, Phase.blames, After.phase, Completion.reportsDeath] at ha
        | exited result => exact ha
    | reads i worker read rest ready phase hw hf hreads =>
      dsimp only at ha
      generalize job.phase = before at hreads
      cases hreads with
      | answer frame | death => rfl
      | _ => simp [Phase.asked, Phase.blames, Phase.outcome?, Phase.result?, Completion.reportsDeath] at ha
    | retires i after hp =>
      rw [hp]
      dsimp only at ha
      split_ifs at ha <;> exact ha
    | terminates i after hp => rw [hp]; exact ha
    | _ =>
      simp [Phase.asked, Phase.blames, Phase.outcome?, Phase.result?, After.result?,
        resultReportsDeath] at ha

/-- A step of a call ends no worker's process, except that of a worker it terminates, while the set
is not closed. -/
theorem JobStep.exits (h : JobStep w job choice u job') (hopen : w.closed = false) {i : ℕ}
    {worker' : Worker F} (hi : u.workers[i]? = some worker') (hexit : worker'.exitCode.isSome = true) :
    worker'.requestsOpen = false ∨ ∃ worker, w.workers[i]? = some worker ∧
      worker.exitCode.isSome = true ∧ worker.requestsOpen = worker'.requestsOpen := by
  cases h with
  | spawns hp =>
    rw [List.getElem?_append] at hi
    split_ifs at hi
    · exact .inr ⟨worker', hi, hexit, rfl⟩
    · obtain ⟨hlt, rfl⟩ := List.getElem?_eq_some_iff.mp hi
      simp at hexit
  | refusesSpawned j hp hc => simp [hopen] at hc
  | terminates j after hp =>
    obtain ⟨worker, hw, rfl | ⟨-, rfl⟩⟩ := getElem?_alter hi
    · exact .inr ⟨_, hw, hexit, rfl⟩
    · exact .inl rfl
  | reads j worker read rest ready phase hw hf hreads =>
    simp only [WorkerSet.setWorker, List.getElem?_set] at hi
    split_ifs at hi with he hlt
    · subst he
      cases hi
      exact .inr ⟨worker, hw, hexit, rfl⟩
    · exact .inr ⟨worker', hi, hexit, rfl⟩
  | _ => exact .inr ⟨worker', hi, hexit, rfl⟩

/-- A worker that is sent a request owes what it owed. -/
theorem ServedSet.unanswered_sends (v : ServedSet R) (k : ℕ) (phase : Phase (ℕ × R)) {i : ℕ}
    (h : v.unanswered i ≠ []) : (v.sends k phase).unanswered i ≠ [] := by
  unfold sends
  split
  · next j =>
    by_cases he : i = j
    · subst he
      simp
    · dsimp only
      rw [Function.update_of_ne he]
      exact h
  · exact h

/-! ### Every run without idle deaths -/

namespace TracedSet

variable {t t' : TracedSet R} {action : Action (ℕ × R)}

theorem served_of_reach {ok : Action (ℕ × R) → TracedSet R → Prop} {width : ℕ}
    (h : Reach step ok (init width) t) : Reachable ServedSet.step (.init width) t.served := by
  refine h.simulate served fun u action v _ _ hs =>
    .inr ⟨action, trivial, ?_⟩
  obtain ⟨set, hset, rfl⟩ := Option.map_eq_some_iff.mp hs
  exact hset

/-- What every state of a run without idle deaths has: the set is not closed, a worker whose process
ended was terminated, or ended before its ready frame, or with a request; and the calls that asked a
worker reached it. -/
structure Kept (t : TracedSet R) : Prop where
  unclosed : t.served.set.closed = false ∧ t.served.set.closers = []
  exits : ∀ i worker, t.served.set.workers[i]? = some worker → worker.exitCode.isSome = true →
    worker.requestsOpen = false ∨ t.served.imported i = false ∨ t.served.unanswered i ≠ []
  reached : ∀ k (job : Job (ℕ × R)), t.served.set.jobs[k]? = some job → job.phase.asked = true →
    k ∈ t.reached

/-- A worker that a call is about to ask, and that was not terminated, is alive. -/
theorem Kept.alive (h : Kept t) (hpaired : Paired t.served) (hgreeted : Greeted t.served) {k i : ℕ}
    {job : Job (ℕ × R)} (hk : t.served.set.jobs[k]? = some job) (hp : job.phase = .sending i)
    {worker : Worker (ℕ × R)} (hw : t.served.set.workers[i]? = some worker)
    (hopen : worker.requestsOpen = true) : worker.exitCode = none := by
  by_contra hdead
  have hexit : worker.exitCode.isSome = true := Option.isSome_iff_ne_none.mpr hdead
  rcases h.exits i worker hw hexit with hclosed | himported | hunanswered
  · rw [hopen] at hclosed
    cases hclosed
  · have hready := hgreeted.exchanges job (List.mem_of_getElem? hk) i (by rw [hp]; rfl)
    have honce := hgreeted.once i
    rw [hready, himported] at honce
    simp at honce
  · have howed := hpaired.due k job hk i [] (by rw [hp]; rfl)
    exact hunanswered (List.append_eq_nil_iff.mp howed).2

theorem reached_note {k : ℕ} (hk : k ∈ t.reached) : k ∈ t.note action := by
  unfold note
  split
  · split_ifs
    · exact List.mem_append_left _ hk
    · exact hk
  · exact hk

/-- A step of the workers and their surroundings, which is seen by no call. -/
theorem Kept.of_jobs (h : Kept t) {served : ServedSet R}
    (hclosed : served.set.closed = t.served.set.closed) (hclosers : served.set.closers = t.served.set.closers)
    (hexits : ∀ i worker, served.set.workers[i]? = some worker → worker.exitCode.isSome = true →
      worker.requestsOpen = false ∨ served.imported i = false ∨ served.unanswered i ≠ [])
    (hjobs : ∀ (k : ℕ) (job : Job (ℕ × R)), served.set.jobs[k]? = some job →
      t.served.set.jobs[k]? = some job ∨ job.phase = .begun) :
    Kept { served := served, reached := t.note action } := by
  refine ⟨by rw [hclosed, hclosers]; exact h.unclosed, hexits, fun k job hk ha => ?_⟩
  rcases hjobs k job hk with hk | hbegun
  · exact reached_note (h.reached k job hk ha)
  · simp [hbegun, Phase.asked, Phase.blames, Phase.outcome?, Phase.result?] at ha

/-- A step of a worker or its reader. -/
theorem Kept.of_worker (h : Kept t) {i : ℕ} {new : Worker (ℕ × R)} {imported : ℕ → Bool}
    {unanswered : ℕ → List ℕ}
    (hothers : ∀ j, j ≠ i → imported j = t.served.imported j ∧ unanswered j = t.served.unanswered j)
    (hnew : new.exitCode.isSome = true →
      new.requestsOpen = false ∨ imported i = false ∨ unanswered i ≠ []) :
    Kept { served := ⟨t.served.set.setWorker i new, imported, unanswered⟩, reached := t.note action } := by
  refine h.of_jobs rfl rfl (fun j worker hj hexit => ?_) fun k job hk => .inl hk
  simp only [WorkerSet.setWorker, List.getElem?_set] at hj
  split_ifs at hj with he hlt
  · cases hj
    subst he
    exact hnew hexit
  · obtain ⟨himported, hunanswered⟩ := hothers j (Ne.symm he)
    dsimp only
    rw [himported, hunanswered]
    exact h.exits j worker hj hexit

/-- A step of a call: it asks only a worker that is alive. -/
theorem Kept.of_call (h : Kept t) (hpaired : Paired t.served) (hgreeted : Greeted t.served) {k : ℕ}
    {choice : Choice} (hbusy : busyDeaths (.job k choice) t = true) {job job' : Job (ℕ × R)}
    {u : WorkerSet (ℕ × R)} (hk : t.served.set.jobs[k]? = some job)
    (hs : t.served.set.stepJob job choice = some (u, job')) :
    Kept { served := ({ t.served with set := { u with jobs := u.jobs.set k job' } }).sends k job'.phase
           reached := t.note (.job k choice) } := by
  have hstep := jobStep_of_stepJob hs
  obtain ⟨hjobs, hclosers, -⟩ := hstep.others
  refine ⟨?_, fun i worker' hi hexit => ?_, fun j other hj ha => ?_⟩
  · rw [ServedSet.set_sends]
    exact ⟨hstep.flag.1.trans h.unclosed.1, hclosers.trans h.unclosed.2⟩
  · rw [ServedSet.set_sends] at hi
    rw [ServedSet.imported_sends]
    rcases hstep.exits h.unclosed.1 hi hexit with hclosed | ⟨worker, hw, hold, hopen⟩
    · exact .inl hclosed
    · rw [← hopen]
      exact (h.exits i worker hw hold).imp_right (.imp_right (ServedSet.unanswered_sends _ k _))
  · rw [ServedSet.set_sends] at hj
    dsimp only at hj
    rw [hjobs, List.getElem?_set] at hj
    split_ifs at hj with he hlt
    · cases hj
      subst he
      rcases asked_of_stepJob hs ha with hold | ⟨i, worker, broken, hp, hw, hopen, rfl⟩
      · exact reached_note (h.reached k job hk hold)
      · have halive := h.alive hpaired hgreeted hk hp hw hopen
        cases broken with
        | true => cases hbusy
        | false => simp [note, WorkerSet.reaches, hk, hp, hw, hopen, halive]
    · exact reached_note (h.reached j other hj ha)

/-- **A step without an idle death.** -/
theorem Kept.step (h : Kept t) (hpaired : Paired t.served) (hgreeted : Greeted t.served)
    (hbusy : busyDeaths action t = true) (hs : TracedSet.step action t = some t') : Kept t' := by
  obtain ⟨served, hserved, rfl⟩ := Option.map_eq_some_iff.mp hs
  cases action with
  | close => cases hbusy
  | runBlocking deadlineNs cancellable startedAt =>
    cases hserved
    refine h.of_jobs rfl rfl h.exits fun k job hk => ?_
    rw [List.getElem?_append] at hk
    split_ifs at hk
    · exact .inl hk
    · exact .inr (by rw [List.mem_singleton.mp (List.mem_of_getElem? hk)])
  | closer j =>
    obtain ⟨set, hset, rfl⟩ := Option.map_eq_some_iff.mp hserved
    obtain ⟨closer, hj, -⟩ := Option.bind_eq_some_iff.mp hset
    simp [h.unclosed.2] at hj
  | job k choice =>
    obtain ⟨set, hset, hsends⟩ := Option.bind_eq_some_iff.mp hserved
    obtain ⟨job, hk, hset⟩ := Option.bind_eq_some_iff.mp hset
    obtain ⟨⟨u, job'⟩, hstep, rfl⟩ := Option.map_eq_some_iff.mp hset
    have hlt : k < u.jobs.length := by
      rw [(jobStep_of_stepJob hstep).others.1]
      exact (List.getElem?_eq_some_iff.mp hk).1
    simp only [List.getElem?_set_self hlt, Option.map_some, Option.some.injEq] at hsends
    rw [← hsends]
    exact h.of_call hpaired hgreeted hbusy hk hstep
  | answer i frame =>
    obtain ⟨set, hset, hwrite⟩ := Option.bind_eq_some_iff.mp hserved
    obtain ⟨worker, hi, hset⟩ := Option.bind_eq_some_iff.mp hset
    split_ifs at hset with halive
    cases hset
    simp only [Bool.and_eq_true, Option.isNone_iff_eq_none] at halive
    have hnew : ∀ (frames : List (Option (Frame (ℕ × R)))) (P : Prop),
        ({ worker with frames := frames } : Worker (ℕ × R)).exitCode.isSome = true → P := by
      intro frames P hexit
      simp [halive.1] at hexit
    rcases ServedSet.write_cases hwrite with ⟨-, -, rfl⟩ | ⟨k, result, rest, -, -, -, rfl⟩
    · exact h.of_worker (fun j hj => ⟨Function.update_of_ne hj _ _, rfl⟩) (hnew _ _)
    · exact h.of_worker (fun j hj => ⟨rfl, Function.update_of_ne hj _ _⟩) (hnew _ _)
  | die i exitCode =>
    obtain ⟨set, hset, rfl⟩ := Option.map_eq_some_iff.mp hserved
    obtain ⟨worker, hi, hset⟩ := Option.bind_eq_some_iff.mp hset
    split_ifs at hset
    cases hset
    refine h.of_worker (fun j _ => ⟨rfl, rfl⟩) fun _ => .inr ?_
    simpa [busyDeaths] using hbusy
  | share i shared =>
    obtain ⟨set, hset, rfl⟩ := Option.map_eq_some_iff.mp hserved
    obtain ⟨worker, hi, hset⟩ := Option.bind_eq_some_iff.mp hset
    split_ifs at hset
    cases hset
    exact h.of_worker (fun j _ => ⟨rfl, rfl⟩) fun hexit => h.exits i worker hi hexit
  | endOfFile i =>
    obtain ⟨set, hset, rfl⟩ := Option.map_eq_some_iff.mp hserved
    obtain ⟨worker, hi, hset⟩ := Option.bind_eq_some_iff.mp hset
    split_ifs at hset
    cases hset
    have hsame : worker.endOfFile.exitCode = worker.exitCode ∧
        worker.endOfFile.requestsOpen = worker.requestsOpen := by
      unfold Worker.endOfFile
      split_ifs <;> exact ⟨rfl, rfl⟩
    refine h.of_worker (fun j _ => ⟨rfl, rfl⟩) fun hexit => ?_
    rw [hsame.1] at hexit
    rw [hsame.2]
    exact h.exits i worker hi hexit

end TracedSet

/-- **Whom a worker's death is blamed on**: in every state of a run without idle deaths and without
`close`, a call whose completion reports the exit of its worker had its request delivered to that
worker alive. -/
theorem blame_sound (width : ℕ) (t : TracedSet R)
    (h : Reach TracedSet.step (fun action u => TracedSet.busyDeaths action u = true)
      (.init width) t) : t.BlamesRightly := by
  have hkept : TracedSet.Kept t := by
    refine h.invariant ⟨⟨rfl, rfl⟩, ?_, ?_⟩ fun u action v hr hu hbusy hs => ?_
    · intro i worker hi
      simp [TracedSet.init, ServedSet.init, WorkerSet.init] at hi
    · intro k job hk
      simp [TracedSet.init, ServedSet.init, WorkerSet.init] at hk
    · obtain ⟨hpaired, hgreeted, -⟩ := paired_of_reach (TracedSet.served_of_reach hr)
      exact hu.step hpaired hgreeted hbusy hs
  intro k job hk hblames
  refine hkept.reached k job hk ?_
  unfold Phase.asked
  split
  · rfl
  · rfl
  · rfl
  · exact hblames

/-- A worker that is killed while it runs the request of a call. -/
def diedRunning : List (Action (ℕ × ℕ)) :=
  [.runBlocking none false 0, .job 0 .go, .job 0 .go, .job 0 .go, .job 0 (.spawn {}), .job 0 .go,
    .answer 0 .ready, .job 0 .go, .job 0 (.write false), .job 0 .go, .die 0 (-9), .endOfFile 0,
    .job 0 .go, .job 0 .go, .job 0 (.clock 1)]

theorem diedRunning_reached : ∃ t : TracedSet ℕ,
    (∃ job, t.served.set.jobs[0]? = some job ∧ job.phase = .leaving 0 true (.ok (.died (-9)))) ∧
      t.reached = [0] ∧ t.BlamesRightly :=
  ⟨_, ⟨_, rfl, rfl⟩, rfl, blame_sound 1 _ (.of_exec_checked diedRunning rfl)⟩

def Action.closes : Action F → Bool
  | .close => true
  | _ => false

/-- A worker that is killed in its slot, after it has answered a call, and the call after it. -/
def diedIdle : List (Action (ℕ × ℕ)) :=
  [.runBlocking none false 0, .job 0 .go, .job 0 .go, .job 0 .go, .job 0 (.spawn {}), .job 0 .go,
    .answer 0 .ready, .job 0 .go, .job 0 (.write false), .job 0 .go, .answer 0 (.other (0, 7)),
    .job 0 .go, .job 0 (.clock 1), .job 0 .go, .job 0 .go, .die 0 (-9),
    .runBlocking none false 2, .job 1 .go, .job 1 .go, .job 1 .go, .job 1 .go, .job 1 .go,
    .job 1 (.write true), .job 1 .go, .job 1 (.clock 3), .job 1 .go, .job 1 .go, .job 1 .go,
    .job 1 .go]

/-- **A worker that died in its slot is blamed on the next payload.** -/
theorem idle_death_blamed :
    ¬ ∀ (width : ℕ) (t : TracedSet ℕ),
      Reach TracedSet.step (fun action _ => action.closes = false) (.init width) t →
      t.BlamesRightly := by
  intro hall
  obtain ⟨t, hreach, job, hjob, hended, hreached⟩ : ∃ t : TracedSet ℕ,
      Reach TracedSet.step (fun action _ => action.closes = false) (.init 1) t ∧
        ∃ job, t.served.set.jobs[1]? = some job ∧ job.phase = .ended (.ok (.died (-9))) ∧
          t.reached = [0] :=
    ⟨_, .of_exec_checked diedIdle rfl, _, rfl, rfl, rfl⟩
  have hmem := hall 1 t hreach 1 job hjob (by rw [hended]; rfl)
  rw [hreached] at hmem
  simp at hmem

end DrExec.Execution.WorkerPool
