import DrExec.Scheduling.Breaking
import DrExec.Scheduling.Books

/-! # What a cancellation reaches

`expire`, and `close_intake` with `cancel_all`, cancel what is in `_tokens`: the token of every
queued and every running job is there (`Serial` and the accounting), and no later section takes a
token out of what is cancelled or queues a job outside it. `Onwards` says once what a section does
to tokens and tickets; it composes, so it holds from any state to every later one. -/

namespace DrExec.Scheduling.Scheduler

open DrExec.Lib.Transition DrExec.Lib.Lists

variable {Job Ctx Done Fault : Type} {capacity : ℤ}

namespace ExecutionScheduler

variable {s s' s'' u : ExecutionScheduler Job Ctx Done Fault}

/-- The jobs that are pending or running. -/
def unended (s : ExecutionScheduler Job Ctx Done Fault) : List (Admitted Job Ctx) :=
  s.pending ++ s.calls

/-- Every pending and every running job has a token that is set. -/
def Covered (s : ExecutionScheduler Job Ctx Done Fault) : Prop :=
  ∀ admitted ∈ s.unended, admitted.cancellation ∈ s.cancelled

/-! ### What a section does to tokens -/

/-- What has happened to tokens and tickets between two states of a run. -/
structure Onwards (s s' : ExecutionScheduler Job Ctx Done Fault) : Prop where
  cancelled : s.cancelled ⊆ s'.cancelled
  expired : s.expired = true → s'.expired = true
  closed : s.intakeClosed = true → s'.intakeClosed = true
  tokens : ∀ entry ∈ s'.tokens, entry ∈ s.tokens ∨ entry.2 = ⟨entry.1⟩
  tickets : s.nextTicket ≤ s'.nextTicket
  issued : ∀ ticket, s.nextTicket ≤ ticket → ticket < s'.nextTicket →
    s.intakeClosed = false ∧ (s.expired = true → ⟨ticket⟩ ∈ s'.cancelled)
  unended : ∀ admitted ∈ s'.unended, admitted ∈ s.unended ∨
    admitted.cancellation = ⟨admitted.ticket⟩ ∧ s.nextTicket ≤ admitted.ticket ∧
      admitted.ticket < s'.nextTicket

namespace Onwards

theorem refl (s : ExecutionScheduler Job Ctx Done Fault) : Onwards s s :=
  ⟨List.Subset.refl _, id, id, fun _ h => .inl h, le_rfl, fun _ h h' => absurd h' (by omega),
    fun _ h => .inl h⟩

theorem trans (h : Onwards s s') (h' : Onwards s' s'') : Onwards s s'' := by
  refine ⟨List.Subset.trans h.cancelled h'.cancelled, fun he => h'.expired (h.expired he),
    fun hc => h'.closed (h.closed hc), fun entry hentry => ?_, h.tickets.trans h'.tickets,
    fun ticket hge hlt => ?_, fun admitted hadmitted => ?_⟩
  · rcases h'.tokens entry hentry with hbefore | hnew
    · exact h.tokens entry hbefore
    · exact .inr hnew
  · rcases Nat.lt_or_ge ticket s'.nextTicket with hbefore | hafter
    · obtain ⟨hopen, hcancelled⟩ := h.issued ticket hge hbefore
      exact ⟨hopen, fun he => h'.cancelled (hcancelled he)⟩
    · obtain ⟨hopen, hcancelled⟩ := h'.issued ticket hafter hlt
      refine ⟨?_, fun he => hcancelled (h.expired he)⟩
      cases hintake : s.intakeClosed with
      | false => rfl
      | true => cases hopen.symm.trans (h.closed hintake)
  · have htickets := h.tickets
    have htickets' := h'.tickets
    rcases h'.unended admitted hadmitted with hbefore | ⟨hserial, hge, hlt⟩
    · rcases h.unended admitted hbefore with hfirst | ⟨hserial, hge, hlt⟩
      · exact .inl hfirst
      · exact .inr ⟨hserial, hge, by omega⟩
    · exact .inr ⟨hserial, by omega, hlt⟩

/-- A section that neither issues a ticket nor queues a job. -/
theorem of_subset (hcancelled : s.cancelled ⊆ s'.cancelled)
    (hexpired : s.expired = true → s'.expired = true)
    (hclosed : s.intakeClosed = true → s'.intakeClosed = true) (htokens : s'.tokens ⊆ s.tokens)
    (hticket : s'.nextTicket = s.nextTicket) (hpending : s'.pending ⊆ s.unended)
    (hcalls : s'.calls ⊆ s.unended) : Onwards s s' := by
  refine ⟨hcancelled, hexpired, hclosed, fun _ h => .inl (htokens h), hticket.ge, fun _ h h' => ?_,
    fun admitted hadmitted => .inl ?_⟩
  · omega
  · rcases List.mem_append.mp hadmitted with hqueued | hrunning
    · exact hpending hqueued
    · exact hcalls hrunning

/-- A section that only announces or records something. -/
theorem of_eq (hcancelled : s'.cancelled = s.cancelled) (hexpired : s'.expired = s.expired)
    (hclosed : s.intakeClosed = true → s'.intakeClosed = true) (htokens : s'.tokens ⊆ s.tokens)
    (hticket : s'.nextTicket = s.nextTicket) (hpending : s'.pending = s.pending)
    (hthreads : s'.threads = s.threads) : Onwards s s' := by
  refine of_subset (hcancelled ▸ List.Subset.refl _) (fun h => hexpired ▸ h) hclosed htokens hticket
    ?_ ?_
  · rw [hpending]
    exact List.subset_append_left _ _
  · rw [calls, hthreads]
    exact List.subset_append_right _ _

end Onwards

theorem pending_subset (s : ExecutionScheduler Job Ctx Done Fault) : s.pending ⊆ s.unended :=
  List.subset_append_left _ _

theorem calls_subset (s : ExecutionScheduler Job Ctx Done Fault) : s.calls ⊆ s.unended :=
  List.subset_append_right _ _

/-- The calls after a thread moved: its new one, if it makes one, and old ones. -/
theorem mem_calls_set {threads : List (Worker Job Ctx)} {worker : ℕ} {new : Worker Job Ctx}
    {admitted : Admitted Job Ctx}
    (h : admitted ∈ (threads.set worker new).filterMap Worker.call?) :
    admitted ∈ threads.filterMap Worker.call? ∨ new.call? = some admitted := by
  obtain ⟨thread, hthread, hcall⟩ := List.mem_filterMap.mp h
  rcases List.mem_or_eq_of_mem_set hthread with hold | rfl
  · exact .inl (List.mem_filterMap.mpr ⟨thread, hold, hcall⟩)
  · exact .inr hcall

theorem onwards_breakWith (failure : Fault) : Onwards s (s.breakWith failure) := by
  cases hb : s.broken with
  | some _ =>
    rw [breakWith_of_broken s failure (by simp [hb])]
    exact .refl s
  | none =>
    rw [breakWith_of_unbroken s failure hb]
    exact .of_subset (List.subset_append_right _ _) id (fun _ => rfl) (List.filter_subset_self _) rfl
      (List.nil_subset _) s.calls_subset

theorem onwards_announceChange : Onwards s s.announceChange :=
  .of_eq rfl rfl id (List.Subset.refl _) rfl rfl rfl

theorem onwards_ensureWorker (start : Option Fault) : Onwards s (s.ensureWorker start) := by
  rcases s.ensureWorker_cases start with ⟨-, he⟩ | ⟨failure, -, he⟩ | ⟨-, -, he⟩
  · rw [he]
    exact .refl s
  · rw [he]
    exact (onwards_breakWith failure).trans onwards_announceChange
  · rw [he]
    refine .of_subset (List.Subset.refl _) id id (List.Subset.refl _) rfl s.pending_subset ?_
    simp only [calls, List.filterMap_append, List.filterMap_cons, Worker.call?, List.filterMap_nil,
      List.append_nil]
    exact s.calls_subset

/-- A job is queued under a new ticket, with its token cancelled once the scheduler has expired. -/
theorem onwards_enqueue (hopen : s.intakeClosed = false) (job : Job) (context : Ctx) :
    Onwards s (s.enqueue job context) := by
  have hcancelled : (s.enqueue job context).cancelled =
      if s.expired then ⟨s.nextTicket⟩ :: s.cancelled else s.cancelled := by
    unfold enqueue cancelToken record
    dsimp only
    split_ifs <;> rfl
  obtain ⟨cancelled, he⟩ := s.enqueue_eq job context
  rw [he] at hcancelled ⊢
  obtain rfl : cancelled = _ := hcancelled
  refine ⟨?_, id, id, fun entry hentry => ?_, Nat.le_succ _, fun ticket hge hlt => ⟨hopen, fun hx => ?_⟩,
    fun admitted hadmitted => ?_⟩
  · dsimp only
    split_ifs
    · exact List.subset_cons_self _ _
    · exact List.Subset.refl _
  · rcases List.mem_append.mp hentry with hbefore | hnew
    · exact .inl hbefore
    · rw [List.mem_singleton.mp hnew]
      exact .inr rfl
  · obtain rfl : ticket = s.nextTicket := by
      dsimp only at hlt
      omega
    simp [hx]
  · simp only [ExecutionScheduler.unended, calls, List.mem_append, List.mem_singleton] at hadmitted ⊢
    rcases hadmitted with (hqueued | rfl) | hrunning
    · exact .inl (.inl hqueued)
    · exact .inr ⟨rfl, le_rfl, Nat.lt_succ_self _⟩
    · exact .inl (.inr hrunning)

theorem onwards_admitJob (job : Job) (context : Ctx) (start : Option Fault) :
    Onwards s (s.admitJob job context start).2 := by
  rcases s.admit_cases job context start with ⟨he, -⟩ | ⟨hopen, -, he⟩
  · rw [he]
    exact .refl s
  · rw [he]
    exact ((onwards_enqueue hopen job context).trans (onwards_ensureWorker start)).trans
      onwards_announceChange

theorem onwards_workerTakes {worker : ℕ} : Onwards s (s.workerTakes worker) := by
  have hcalls : ∀ {new : Worker Job Ctx}, (∀ admitted, new.call? = some admitted →
      admitted ∈ s.pending) →
      (s.threads.set worker new).filterMap Worker.call? ⊆ s.unended := fun hnew admitted h => by
    rcases mem_calls_set h with hold | hcall
    · exact s.calls_subset hold
    · exact s.pending_subset (hnew admitted hcall)
  rcases s.workerTakes_cases worker with ⟨admitted, rest, -, hpending, he⟩ | ⟨-, he⟩
  · rw [he]
    refine .of_subset (List.Subset.refl _) id id (List.Subset.refl _) rfl ?_ (hcalls ?_)
    · exact List.Subset.trans (hpending ▸ List.subset_cons_self _ _) s.pending_subset
    · rintro _ ⟨⟩
      exact hpending ▸ List.mem_cons_self
  · rw [he]
    exact .of_subset (List.Subset.refl _) id id (List.Subset.refl _) rfl s.pending_subset
      (hcalls nofun)

theorem onwards_workerFinishes {worker : ℕ} (admitted : Admitted Job Ctx)
    (result : Except Fault Done) : Onwards s (s.workerFinishes worker admitted result) := by
  have hcalls : (s.threads.set worker .waiting).filterMap Worker.call? ⊆ s.unended := fun _ h =>
    (mem_calls_set h).elim (fun hold => s.calls_subset hold) nofun
  cases result with
  | ok completed =>
    rw [workerFinishes_ok]
    exact .of_subset (List.Subset.refl _) id id (List.Subset.refl _) rfl s.pending_subset hcalls
  | error failure =>
    rcases s.workerFinishes_error_cases worker admitted failure with ⟨-, he⟩ | ⟨-, he⟩
    · rw [he]
      exact .of_subset (List.Subset.refl _) id id (List.filter_subset_self _) rfl s.pending_subset hcalls
    · rw [he]
      exact .of_subset (List.subset_append_right _ _) id (fun _ => rfl)
        (List.Subset.trans (List.filter_subset_self _) (List.filter_subset_self _)) rfl
        (List.nil_subset _) hcalls

theorem onwards_taken (driver : ℕ) (ownedBy : Option (Ctx → Bool)) :
    Onwards s (recordTaken driver (s.takeCompletionNowait ownedBy).1
      (s.takeCompletionNowait ownedBy).2) := by
  rcases s.takeCompletionNowait_cases ownedBy with ⟨completion, l₁, l₂, -, -, -, he⟩ | ⟨-, he⟩
  · rw [he]
    exact .of_eq rfl rfl id (List.filter_subset_self _) rfl rfl rfl
  · rw [he]
    unfold noneUnlessBroken
    cases s.broken <;> exact .refl s

theorem onwards_cancelTokens : Onwards s s.cancelTokens := by
  rw [cancelTokens_eq]
  exact .of_subset (List.subset_append_right _ _) id id (List.Subset.refl _) rfl s.pending_subset
    s.calls_subset

theorem onwards_shutdownEnd (call : Shutdown) (joining : List Shutdown) :
    Onwards s { s.shutdownEnd call with joining := joining } := by
  unfold shutdownEnd
  dsimp only
  split_ifs
  · exact .of_subset (List.Subset.refl _) id id (List.Subset.refl _) rfl (List.nil_subset _)
      s.calls_subset
  · exact .of_subset (List.Subset.refl _) id id (List.nil_subset _) rfl (List.nil_subset _)
      s.calls_subset

/-- **The step.** -/
theorem onwards_of_step {action : Action Job Ctx Done Fault} (h : step action s = some s') :
    Onwards s s' := by
  cases action with
  | expire =>
    cases h
    rw [expire_eq]
    exact .of_subset (List.subset_append_right _ _) (fun _ => rfl) id (List.Subset.refl _) rfl
      s.pending_subset s.calls_subset
  | cancelAll =>
    cases h
    exact onwards_cancelTokens.trans onwards_announceChange
  | admitJob job context start => cases h; exact onwards_admitJob job context start
  | takeAdmitted worker =>
    simp only [step] at h
    split at h
    · split_ifs at h
      cases h
      exact onwards_workerTakes
    · cases h
  | finish worker result =>
    simp only [step] at h
    split at h
    · next admitted _ =>
      cases h
      exact onwards_workerFinishes admitted result
    · cases h
  | takeCompletionNowait driver ownedBy => cases h; exact onwards_taken driver ownedBy
  | takeCompletion driver =>
    simp only [step] at h
    split_ifs at h
    cases h
    exact onwards_taken driver none
  | releaseOwned ownedBy =>
    cases h
    rw [releaseOwned_eq]
    exact .of_eq rfl rfl id (List.filter_subset_self _) rfl rfl rfl
  | closeIntake => cases h; exact .of_eq rfl rfl (fun _ => rfl) (List.Subset.refl _) rfl rfl rfl
  | shutdownBegin preserveCompletions =>
    cases h
    exact .of_eq rfl rfl (fun _ => rfl) (List.Subset.refl _) rfl rfl rfl
  | shutdownEnd index =>
    simp only [step] at h
    split at h
    · split_ifs at h
      cases h
      exact onwards_shutdownEnd _ _
    · cases h
  | discardCompletions =>
    simp only [step] at h
    split_ifs at h
    cases h
    exact .of_eq rfl rfl id (List.nil_subset _) rfl rfl rfl

/-- **The run.** -/
theorem onwards_of_reach (h : Reachable step s u) : Onwards s u :=
  h.invariant (.refl s) fun _ _ _ _ hu _ hs => hu.trans (onwards_of_step hs)

/-! ### Coverage -/

/-- Coverage stays, once later tokens are born cancelled or no job is admitted any more. -/
theorem Covered.onwards (hcovered : s.Covered) (h : Onwards s u)
    (hguard : s.expired = true ∨ s.intakeClosed = true) : u.Covered := by
  intro admitted hadmitted
  rcases h.unended admitted hadmitted with hbefore | ⟨hserial, hge, hlt⟩
  · exact h.cancelled (hcovered admitted hbefore)
  · obtain ⟨hopen, hcancelled⟩ := h.issued admitted.ticket hge hlt
    rw [hserial]
    rcases hguard with hexpired | hclosed
    · exact hcancelled hexpired
    · cases hopen.symm.trans hclosed

/-- The token of every pending and every running job is in `_tokens`. -/
theorem token_of_unended {s₀ : ExecutionScheduler Job Ctx Done Fault}
    (h0 : init capacity = some s₀) (h : Reachable step s₀ s) {admitted : Admitted Job Ctx}
    (hadmitted : admitted ∈ s.unended) : admitted.cancellation ∈ s.tokens.map Prod.snd := by
  have honwards := onwards_of_reach h
  have hserial : admitted.cancellation = ⟨admitted.ticket⟩ := by
    rcases honwards.unended admitted hadmitted with hbefore | ⟨hserial, -⟩
    · rw [(init_eq h0).2] at hbefore
      simp [unended, calls] at hbefore
    · exact hserial
  have hkey : admitted.ticket ∈ s.tokens.map Prod.fst := by
    refine ((accounted_of_reachable h0 h).mem_tokens_iff _).mpr (List.mem_append_left _ ?_)
    rw [← List.map_append]
    exact List.mem_map_of_mem hadmitted
  obtain ⟨entry, hentry, hticket⟩ := List.mem_map.mp hkey
  rcases honwards.tokens entry hentry with hbefore | htoken
  · rw [(init_eq h0).2] at hbefore
    cases hbefore
  · rw [hserial, ← hticket, ← htoken]
    exact List.mem_map_of_mem hentry

/-- **Cancelling every live token covers what is pending and running.** -/
theorem covered_cancelTokens {s₀ : ExecutionScheduler Job Ctx Done Fault}
    (h0 : init capacity = some s₀) (h : Reachable step s₀ s) {t : ExecutionScheduler Job Ctx Done Fault}
    (hunended : t.unended = s.unended)
    (hcancelled : t.cancelled = (s.tokens.map Prod.snd).reverse ++ s.cancelled) : t.Covered := by
  intro admitted hadmitted
  rw [hcancelled]
  rw [hunended] at hadmitted
  exact List.mem_append_left _ (List.mem_reverse.mpr (token_of_unended h0 h hadmitted))

/-- After `expire`: what was pending or running is cancelled, and so is all that is admitted later.
-/
structure Expired (s u : ExecutionScheduler Job Ctx Done Fault) : Prop where
  reached : ∀ admitted ∈ s.unended, admitted.cancellation ∈ u.cancelled
  covered : u.Covered
  later : ∀ ticket, s.nextTicket ≤ ticket → ticket < u.nextTicket → ⟨ticket⟩ ∈ u.cancelled

/-- After `close_intake` and then `cancel_all` in state `s`: what was pending or running is
cancelled, and nothing is admitted any more. -/
structure Aborted (s u : ExecutionScheduler Job Ctx Done Fault) : Prop where
  reached : ∀ admitted ∈ s.unended, admitted.cancellation ∈ u.cancelled
  covered : u.Covered
  refuses : ∀ job context start, u.admitJob job context start = (.intakeClosed, u)
  noneAdmitted : u.nextTicket = s.nextTicket

theorem expired_of_reach {s₀ : ExecutionScheduler Job Ctx Done Fault}
    (h0 : init capacity = some s₀) (h : Reachable step s₀ s) (h' : Reachable step s.expire u) :
    Expired s u := by
  have hunended : s.expire.unended = s.unended := by
    rw [expire_eq]
    rfl
  have hcovered : s.expire.Covered :=
    covered_cancelTokens h0 h hunended (by rw [expire_eq])
  have hexpired : s.expire.expired = true := by rw [expire_eq]
  have hticket : s.expire.nextTicket = s.nextTicket := by rw [expire_eq]
  have honwards := onwards_of_reach h'
  refine ⟨fun admitted hadmitted => ?_, hcovered.onwards honwards (.inl hexpired),
    fun ticket hge hlt => ?_⟩
  · exact honwards.cancelled (hcovered admitted (hunended ▸ hadmitted))
  · exact (honwards.issued ticket (hticket ▸ hge) hlt).2 hexpired

/-- A closed intake admits nothing in any later state. -/
theorem refuses_of_onwards (h : Onwards s u) (hclosed : s.intakeClosed = true) :
    (∀ job context start, u.admitJob job context start = (.intakeClosed, u)) ∧
      u.nextTicket = s.nextTicket := by
  refine ⟨fun job context start => ?_, ?_⟩
  · rw [admitJob, if_pos (h.closed hclosed)]
  · rcases Nat.lt_or_ge s.nextTicket u.nextTicket with hlt | hge
    · cases (h.issued s.nextTicket le_rfl hlt).1.symm.trans hclosed
    · exact le_antisymm hge h.tickets

theorem aborted_of_reach {s₀ : ExecutionScheduler Job Ctx Done Fault}
    (h0 : init capacity = some s₀) (h : Reachable step s₀ s) (hclosed : s.intakeClosed = true)
    (h' : Reachable step s.cancelAll u) : Aborted s u := by
  have heq : s.cancelAll = { s with
      cancelled := (s.tokens.map Prod.snd).reverse ++ s.cancelled
      announced := s.announced + 1 } := by
    rw [cancelAll, cancelTokens_eq]
    rfl
  have hcovered : s.cancelAll.Covered := covered_cancelTokens h0 h (heq ▸ rfl) (heq ▸ rfl)
  have hintake : s.cancelAll.intakeClosed = true := heq ▸ hclosed
  have honwards := onwards_of_reach h'
  obtain ⟨hrefuses, htickets⟩ := refuses_of_onwards honwards hintake
  refine ⟨fun admitted hadmitted => ?_, hcovered.onwards honwards (.inr hintake), hrefuses, ?_⟩
  · exact honwards.cancelled (hcovered admitted (heq ▸ hadmitted))
  · exact htickets.trans (heq ▸ rfl)

end ExecutionScheduler

end DrExec.Scheduling.Scheduler

namespace DrExec.Scheduling.Pool

open DrExec.Lib.Transition Scheduler ExecutionScheduler

variable {Job C Done Fault : Type} {capacity : ℤ} {w₀ w w' u : ExecutionPool Job C Done Fault}

/-! ### Closing a pool -/

/-- A pool that is closing has closed the intake. -/
theorem intake_step (h : w.closing ≠ .open → w.scheduler.intakeClosed = true) (hok : ClosingOk w)
    (heff : Effect w w') : w'.closing ≠ .open → w'.scheduler.intakeClosed = true := by
  intro hclosing
  by_cases hopen : w.closing = .open
  · have hsame : w'.closing ≠ w.closing := fun he => hclosing (he.trans hopen)
    cases heff with
    | closes => rfl
    | takes i stream =>
      refine absurd ?_ hsame
      unfold ExecutionPool.driveTake
      dsimp only
      split <;> rfl
    | admits i stream submission start _ _ hc =>
      obtain ⟨stream', he, -⟩ := driveAdmit_cases w i hc start
      exact absurd (by rw [he]; rfl) hsame
    | keepsBooks i stream ending =>
      refine absurd ?_ hsame
      unfold ExecutionPool.driveBookkeeping
      dsimp only
      split_ifs <;> rfl
    | departs i stream phase =>
      refine absurd ?_ hsame
      simp only [ExecutionPool.releaseOwned]
      split_ifs <;> rfl
    | shutsDown hq => cases hopen.symm.trans hq
    | joins scheduler hj => cases hopen.symm.trans hj
    | finishes hj => cases hopen.symm.trans hj
    | unchanged | worker | opened | moves | breaks | wakes | cancels => exact absurd rfl hsame
  · rcases scheduler_step hok heff with he | ⟨action, hs⟩
    · rw [he]
      exact h hopen
    · exact (onwards_of_step hs).closed (h hopen)

theorem intake_of_reach (h0 : ExecutionPool.open? capacity = some w₀)
    (h : Reachable ExecutionPool.step w₀ w) :
    w.closing ≠ .open → w.scheduler.intakeClosed = true := by
  refine h.invariant (I := fun v => v.closing ≠ .open → v.scheduler.intakeClosed = true) ?_
    fun v a v' hr hv _ hs => intake_step hv (closingOk_of_reach h0 hr) (effect_of_step hs)
  obtain ⟨scheduler, -, rfl⟩ := open?_eq h0
  exact fun hne => absurd rfl hne

/-- A run of a pool from any state it reaches is one of its scheduler. -/
theorem scheduler_reachable_from (h0 : ExecutionPool.open? capacity = some w₀)
    (h : Reachable ExecutionPool.step w₀ w) (h' : Reachable ExecutionPool.step w u) :
    Reachable ExecutionScheduler.step w.scheduler u.scheduler :=
  h'.simulate ExecutionPool.scheduler fun _ _ _ hr _ hs =>
    (scheduler_step (closingOk_of_reach h0 (h.trans hr)) (effect_of_step hs)).imp_right
      fun ⟨action, hstep⟩ => ⟨action, trivial, hstep⟩

/-- `abort` of a pool, from its `cancel_all` on. -/
theorem aborted_of_cancelAll (h0 : ExecutionPool.open? capacity = some w₀)
    (h : Reachable ExecutionPool.step w₀ w) (hs : ExecutionPool.step .cancelAll w = some w')
    (h' : Reachable ExecutionPool.step w' u) : Aborted w.scheduler u.scheduler := by
  have hscheduler := scheduler_reachable_from h0 (h.tail trivial hs) h'
  simp only [ExecutionPool.step, ExecutionPool.loopStep] at hs
  split_ifs at hs with hfree hclosing
  cases hs
  exact aborted_of_reach (init_of_open? h0) (scheduler_reachable h0 h)
    (intake_of_reach h0 h hclosing.1) hscheduler

/-- A closed pool, on which `abort` does nothing, has nothing pending and nothing running. -/
theorem unended_of_closed (h0 : ExecutionPool.open? capacity = some w₀)
    (h : Reachable ExecutionPool.step w₀ w) (hclosed : w.closed = true) :
    w.scheduler.unended = [] := by
  have hok := workersOk_of_reachable (init_of_open? h0) (scheduler_reachable h0 h)
  have hfinished := (flagged_of_reach h0 h).closed.mp hclosed
  have hdead := (hok.shut ((closingOk_of_reach h0 h).shut (.inr hfinished))).2
  rw [ExecutionScheduler.unended, hok.pending_eq_nil hdead, WorkersOk.calls_eq_nil hdead]
  rfl

/-- **Cancellation coverage.** From every state a scheduler reaches: after `expire`, and after
`close_intake` with a later `cancel_all`, which is what `abort` of a pool comes to, also when a
drain is in progress. -/
theorem cancellation_covers (capacity : ℤ) :
    (∀ s₀ s u : ExecutionScheduler Job C Done Fault, init capacity = some s₀ →
      Reachable ExecutionScheduler.step s₀ s → Reachable ExecutionScheduler.step s.expire u →
      Expired s u) ∧
    (∀ s₀ s t u : ExecutionScheduler Job C Done Fault, init capacity = some s₀ →
      Reachable ExecutionScheduler.step s₀ s → Reachable ExecutionScheduler.step s.closeIntake t →
      Reachable ExecutionScheduler.step t.cancelAll u → Aborted t u ∧ u.nextTicket = s.nextTicket) ∧
    ∀ w₀ w : ExecutionPool Job C Done Fault, ExecutionPool.open? capacity = some w₀ →
      Reachable ExecutionPool.step w₀ w →
      (w.closed = true → w.scheduler.unended = []) ∧
      ∀ w' u, ExecutionPool.step .cancelAll w = some w' → Reachable ExecutionPool.step w' u →
        Aborted w.scheduler u.scheduler := by
  refine ⟨fun s₀ s u h0 h h' => expired_of_reach h0 h h', fun s₀ s t u h0 h ht hu => ?_,
    fun w₀ w h0 h => ⟨unended_of_closed h0 h, fun w' u hs h' => aborted_of_cancelAll h0 h hs h'⟩⟩
  have hclose : Reachable ExecutionScheduler.step s₀ s.closeIntake :=
    h.tail (a := .closeIntake) trivial rfl
  have honwards := onwards_of_reach ht
  have haborted := aborted_of_reach h0 (hclose.trans ht) (honwards.closed rfl) hu
  refine ⟨haborted, haborted.noneAdmitted.trans ?_⟩
  exact (refuses_of_onwards honwards rfl).2

/-- A job that runs while its scheduler expires and one that is admitted after that; a job that is
queued while an intake closes and runs when everything is cancelled; and a pool that is drained and
then aborted with a job that runs. -/
theorem expiredAndAborted_covered :
    (∃ u : ExecutionScheduler ℕ ℕ ℕ ℕ, u.unended.map Admitted.ticket = [1, 0] ∧ u.Covered) ∧
      (∃ u : ExecutionScheduler ℕ ℕ ℕ ℕ, u.unended.map Admitted.ticket = [0] ∧ u.Covered) ∧
      ∃ u : ExecutionPool ℕ ℕ ℕ ℕ, u.scheduler.unended.map Admitted.ticket = [0] ∧
        u.scheduler.Covered := by
  obtain ⟨hexpire, habort, hpool⟩ := @cancellation_covers ℕ ℕ ℕ ℕ 2
  have hdrained : Reachable ExecutionPool.step ({ scheduler := { capacity := 2 } } :
      ExecutionPool ℕ ℕ ℕ ℕ) _ :=
    .of_exec [[.runStream], List.replicate 6 (.drive 0 none),
      [.answer 0 (.submission ⟨7, 9⟩), .anext 0, .anext 0], List.replicate 15 (.drive 0 none),
      [.takeAdmitted 0, .drain]].flatten (fun _ _ => trivial) rfl
  refine ⟨⟨_, ?_, (hexpire _ _ _ rfl (.of_exec [.admitJob 10 0 none, .takeAdmitted 0]
      (fun _ _ => trivial) rfl) (.of_exec [.admitJob 20 1 none] (fun _ _ => trivial) rfl)).covered⟩,
    ⟨_, ?_, (habort _ _ _ _ rfl (.of_exec [.admitJob 10 0 none] (fun _ _ => trivial) rfl)
      (.of_exec [.takeAdmitted 0] (fun _ _ => trivial) rfl) .refl).1.covered⟩,
    ⟨_, ?_, ((hpool _ _ rfl hdrained).2 _ _ rfl .refl).covered⟩⟩
  · rfl
  · rfl
  · rfl

end DrExec.Scheduling.Pool
