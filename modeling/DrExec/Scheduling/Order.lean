import DrExec.Scheduling.Work

/-! # The order of completions

Drivers that share a scheduler take by predicates of which no two hold of one context, or a single
driver takes without one. A call finishes in its `_finish`. Beside the scheduler stand the
completions in the order in which their calls finished, and those that a release or a discard
dropped. What a driver was handed and what is buffered for it is then always a part of what finished
for it, in that order, and all of it unless something of its own was dropped (`completion_order`).
-/

namespace DrExec.Scheduling.Scheduler.ExecutionScheduler

open DrExec.Lib.Transition DrExec.Lib.Lists

variable {Job Ctx Done Fault : Type}

/-! ### Drivers and what they do -/

/-- The `owned_by` predicates of the drivers, pairwise disjoint. A single driver that takes without
a predicate owns every context. -/
structure Drivers (Ctx : Type) where
  ownedBy : ℕ → Ctx → Bool
  disjoint : ∀ d d' context, ownedBy d context = true → ownedBy d' context = true → d = d'

/-- The action is driver `d` taking, or a release of what it owns. -/
def Drivers.Acts (D : Drivers Ctx) (d : ℕ) : Action Job Ctx Done Fault → Prop
  | .takeCompletionNowait driver ownedBy =>
    driver = d ∧ ∀ context, (ownedBy.getD fun _ => true) context = D.ownedBy d context
  | .takeCompletion driver => driver = d ∧ ∀ context, D.ownedBy d context = true
  | .releaseOwned ownedBy => ∀ context, ownedBy context = true → D.ownedBy d context = true
  | _ => False

/-- Completions are taken and released by the drivers only; all else is free. -/
def Drivers.Allows (D : Drivers Ctx) (action : Action Job Ctx Done Fault) : Prop :=
  match action with
  | .takeCompletionNowait _ _ | .takeCompletion _ | .releaseOwned _ => ∃ d, D.Acts d action
  | _ => True

/-- The completion that an action finishes. -/
def finishedBy (action : Action Job Ctx Done Fault) (s : ExecutionScheduler Job Ctx Done Fault) :
    List (Completion Ctx Done) :=
  match action with
  | .finish worker (.ok completed) =>
    ((s.threads[worker]?).bind Worker.call?).toList.map fun admitted =>
      ⟨admitted.ticket, completed, admitted.context⟩
  | _ => []

/-- The completions that an action drops. -/
def removedBy (action : Action Job Ctx Done Fault) (s : ExecutionScheduler Job Ctx Done Fault) :
    List (Completion Ctx Done) :=
  match action with
  | .releaseOwned ownedBy => s.ready.filter fun completion => ownedBy completion.context
  | .shutdownEnd call =>
    if (s.joining[call]?).any fun shutdown => !shutdown.preserveCompletions then s.ready else []
  | .discardCompletions => s.ready
  | _ => []

/-- A scheduler with what finished and what was dropped so far. -/
structure Observed (Job Ctx Done Fault : Type) where
  scheduler : ExecutionScheduler Job Ctx Done Fault
  finished : List (Completion Ctx Done) := []
  removed : List (Completion Ctx Done) := []

def Observed.step (action : Action Job Ctx Done Fault) (o : Observed Job Ctx Done Fault) :
    Option (Observed Job Ctx Done Fault) :=
  (ExecutionScheduler.step action o.scheduler).map fun s =>
    ⟨s, o.finished ++ finishedBy action o.scheduler, o.removed ++ removedBy action o.scheduler⟩

/-! ### The line of one driver -/

variable (D : Drivers Ctx) (d : ℕ)

/-- Those of driver `d`. -/
def Drivers.own (completions : List (Completion Ctx Done)) : List (Completion Ctx Done) :=
  completions.filter fun completion => D.ownedBy d completion.context

/-- What driver `d` was handed, and then what is buffered for it. -/
def Drivers.line (s : ExecutionScheduler Job Ctx Done Fault) : List (Completion Ctx Done) :=
  deliveries d s.history ++ D.own d s.ready

variable {D d} {s s' : ExecutionScheduler Job Ctx Done Fault}

theorem Drivers.own_append (completions more : List (Completion Ctx Done)) :
    D.own d (completions ++ more) = D.own d completions ++ D.own d more := List.filter_append ..

theorem Drivers.own_cons (completion : Completion Ctx Done) (rest : List (Completion Ctx Done)) :
    D.own d (completion :: rest) =
      if D.ownedBy d completion.context then completion :: D.own d rest else D.own d rest :=
  List.filter_cons

theorem Drivers.own_eq_nil {completions : List (Completion Ctx Done)}
    (h : ∀ completion ∈ completions, D.ownedBy d completion.context = false) :
    D.own d completions = [] := by
  refine List.filter_eq_nil_iff.mpr fun completion hmem => ?_
  rw [h completion hmem]
  exact Bool.false_ne_true

/-- A section that hands nothing over and leaves the buffer alone. -/
theorem Drivers.line_silent (hready : s'.ready = s.ready)
    (hdeliveries : deliveries d s'.history = deliveries d s.history) : D.line d s' = D.line d s := by
  rw [Drivers.line, hready, hdeliveries, Drivers.line]

/-- **A taking driver** moves the oldest of its completions from the buffer to its own; the line of
every driver stays as it is, and the buffer of every other one. -/
theorem Drivers.line_taken {driver : ℕ} {ownedBy : Option (Ctx → Bool)}
    (hown : ∀ context, (ownedBy.getD fun _ => true) context = D.ownedBy driver context)
    (d : ℕ) :
    D.line d (recordTaken driver (s.takeCompletionNowait ownedBy).1
      (s.takeCompletionNowait ownedBy).2) = D.line d s ∧
      (d ≠ driver → D.own d (recordTaken driver (s.takeCompletionNowait ownedBy).1
        (s.takeCompletionNowait ownedBy).2).ready = D.own d s.ready) := by
  rcases s.takeCompletionNowait_cases ownedBy with
    ⟨completion, l₁, l₂, hready, howned, hearlier, he⟩ | ⟨-, he⟩
  · rw [he]
    have hdriver : D.ownedBy driver completion.context = true := by
      rw [← hown]
      rcases ownedBy with _ | owned
      · rfl
      · exact howned owned rfl
    have hskipped : ∀ earlier ∈ l₁, D.ownedBy driver earlier.context = false := by
      intro earlier hmem
      obtain ⟨owned, rfl, hnot⟩ := hearlier earlier hmem
      rw [← hown]
      exact hnot
    have hhanded := s.deliveries_delivered d driver completion
    change deliveries d (s.record (.delivered driver completion)).history ++ D.own d (l₁ ++ l₂) = _ ∧
      (_ → D.own d (l₁ ++ l₂) = _)
    rw [hhanded, Drivers.line, hready, own_append, own_append, own_cons]
    rcases eq_or_ne driver d with rfl | hne
    · rw [if_pos rfl, if_pos hdriver, own_eq_nil hskipped]
      exact ⟨by simp, fun hne => absurd rfl hne⟩
    · have hother : ¬ D.ownedBy d completion.context = true := fun hd =>
        hne (D.disjoint _ _ _ hdriver hd)
      rw [if_neg hne, if_neg hother, List.append_nil]
      exact ⟨rfl, fun _ => rfl⟩
  · have hsame : recordTaken driver (s.takeCompletionNowait ownedBy).1
        (s.takeCompletionNowait ownedBy).2 = s := by
      rw [he]
      unfold noneUnlessBroken
      cases s.broken <;> rfl
    rw [hsame]
    exact ⟨rfl, fun _ => rfl⟩

/-- What a release or a discard leaves in the buffer. -/
theorem Drivers.line_removed {removed : Completion Ctx Done → Bool}
    (hready : s'.ready = s.ready.filter fun completion => !removed completion)
    (hdeliveries : deliveries d s'.history = deliveries d s.history) :
    (D.line d s').Sublist (D.line d s) ∧
      (D.own d (s.ready.filter removed) = [] → D.line d s' = D.line d s) := by
  rw [Drivers.line, Drivers.line, hready, hdeliveries]
  refine ⟨(List.Sublist.filter _ List.filter_sublist).append_left _, fun hnone => ?_⟩
  congr 1
  rw [Drivers.own, List.filter_filter]
  refine List.filter_congr fun completion hmem => ?_
  rcases hremoved : removed completion with _ | _
  · simp
  · have hkept : completion ∈ s.ready.filter removed := List.mem_filter.mpr ⟨hmem, hremoved⟩
    have hother := List.filter_eq_nil_iff.mp hnone completion hkept
    simpa using hother

/-- **One section and the line of a driver**: what finishes for the driver is put at the end, and
nothing else comes or moves; what goes is what the section drops. -/
theorem Drivers.line_step {action : Action Job Ctx Done Fault} (hallows : D.Allows action)
    (hstep : ExecutionScheduler.step action s = some s') :
    (D.line d s').Sublist (D.line d s ++ D.own d (finishedBy action s)) ∧
      (D.own d (removedBy action s) = [] →
        D.line d s' = D.line d s ++ D.own d (finishedBy action s)) := by
  have hkept : ∀ {u : ExecutionScheduler Job Ctx Done Fault}, D.line d u = D.line d s →
      (D.line d u).Sublist (D.line d s ++ D.own d []) ∧
        (D.own d (removedBy action s) = [] → D.line d u = D.line d s ++ D.own d []) := by
    intro u hu
    rw [hu, Drivers.own, List.filter_nil, List.append_nil]
    exact ⟨List.Sublist.refl _, fun _ => rfl⟩
  have hdropped : ∀ (removed : Completion Ctx Done → Bool)
      {u : ExecutionScheduler Job Ctx Done Fault},
      u.ready = (s.ready.filter fun completion => !removed completion) →
      deliveries d u.history = deliveries d s.history →
      removedBy action s = s.ready.filter removed →
      (D.line d u).Sublist (D.line d s ++ D.own d []) ∧
        (D.own d (removedBy action s) = [] → D.line d u = D.line d s ++ D.own d []) := by
    intro removed u hready hdeliveries hremoved
    rw [hremoved, Drivers.own, List.filter_nil, List.append_nil]
    exact D.line_removed hready hdeliveries
  cases action with
  | admitJob job context start =>
    obtain rfl := Option.some.inj hstep
    refine hkept (D.line_silent (ready_admitJob job context start) ?_)
    rcases history_admitJob (s := s) job context start with hsilent | hsilent
    · exact hsilent.deliveries_eq d
    · rw [hsilent.deliveries_eq d, deliveries_admitted]
  | takeAdmitted worker =>
    have hsilent := Silent.worker (.inl ⟨worker, rfl⟩) hstep
    refine hkept (D.line_silent ?_ (hsilent.deliveries_eq d))
    simp only [ExecutionScheduler.step] at hstep
    split at hstep
    · split_ifs at hstep
      obtain rfl := Option.some.inj hstep
      rcases s.workerTakes_cases worker with ⟨admitted, rest, -, -, he⟩ | ⟨-, he⟩ <;> rw [he]
    · cases hstep
  | finish worker result =>
    have hdeliveries := (Silent.worker (.inr ⟨worker, result, rfl⟩) hstep).deliveries_eq d
    simp only [ExecutionScheduler.step] at hstep
    split at hstep
    · next admitted hthread =>
      obtain rfl := Option.some.inj hstep
      rcases result with failure | completed
      · refine hkept (D.line_silent ?_ hdeliveries)
        rcases s.workerFinishes_error_cases worker admitted failure with ⟨-, he⟩ | ⟨-, he⟩ <;> rw [he]
      · -- the completion goes to the end of the buffer
        have hfinished : finishedBy (.finish worker (.ok completed) : Action Job Ctx Done Fault) s =
            [⟨admitted.ticket, completed, admitted.context⟩] := by
          simp [finishedBy, hthread, Worker.call?]
        have hline : D.line d (s.workerFinishes worker admitted (.ok completed)) =
            D.line d s ++ D.own d [⟨admitted.ticket, completed, admitted.context⟩] := by
          rw [Drivers.line, hdeliveries, workerFinishes_ok]
          exact (congrArg _ (D.own_append _ _)).trans (List.append_assoc ..).symm
        rw [hfinished, hline]
        exact ⟨List.Sublist.refl _, fun _ => rfl⟩
    · cases hstep
  | takeCompletionNowait driver ownedBy =>
    obtain ⟨e, rfl, hown⟩ := hallows
    obtain rfl := Option.some.inj hstep
    exact hkept (D.line_taken hown d).1
  | takeCompletion driver =>
    obtain ⟨e, rfl, hown⟩ := hallows
    simp only [ExecutionScheduler.step] at hstep
    split_ifs at hstep
    obtain rfl := Option.some.inj hstep
    have hall : ∀ context, ((none : Option (Ctx → Bool)).getD fun _ => true) context =
        D.ownedBy driver context := fun context => (hown context).symm
    exact hkept (D.line_taken hall d).1
  | releaseOwned ownedBy =>
    obtain rfl := Option.some.inj hstep
    have hsilent := Silent.releaseOwned s ownedBy
    rw [releaseOwned_eq] at hsilent ⊢
    exact hdropped (fun completion => ownedBy completion.context) rfl (hsilent.deliveries_eq d) rfl
  | cancelAll =>
    obtain rfl := Option.some.inj hstep
    exact hkept (by rw [cancelAll, cancelTokens_eq]; rfl)
  | expire =>
    obtain rfl := Option.some.inj hstep
    exact hkept (by rw [expire, cancelTokens_eq]; rfl)
  | closeIntake =>
    obtain rfl := Option.some.inj hstep
    exact hkept rfl
  | shutdownBegin preserveCompletions =>
    obtain rfl := Option.some.inj hstep
    exact hkept rfl
  | shutdownEnd call =>
    simp only [ExecutionScheduler.step] at hstep
    split at hstep
    · next shutdown hcall =>
      split_ifs at hstep
      obtain rfl := Option.some.inj hstep
      have hdeliveries := (Silent.shutdownEnd s shutdown).deliveries_eq d
      rcases hpreserve : shutdown.preserveCompletions with _ | _
      · refine hdropped (fun _ => true) ?_ hdeliveries (by simp [removedBy, hcall, hpreserve])
        simp [shutdownEnd, hpreserve, dropCompletions, announceChange]
      · refine hkept (D.line_silent ?_ hdeliveries)
        simp [shutdownEnd, hpreserve, announceChange]
    · cases hstep
  | discardCompletions =>
    simp only [ExecutionScheduler.step] at hstep
    split_ifs at hstep
    obtain rfl := Option.some.inj hstep
    have hsilent := Silent.dropCompletions s
    exact hdropped (fun _ => true) (by simp [discardCompletions, dropCompletions, announceChange])
      (hsilent.deliveries_eq d) (by simp [removedBy])

/-! ### Every run -/

theorem returns_map {α : Type} (event : α → Event Job Ctx Done) (h : ∀ a, returns [event a] = [])
    (l : List α) : returns (l.map event) = [] := by
  induction l with
  | nil => rfl
  | cons a l ih => exact (returns_append [event a] _).trans (by rw [h, ih, List.append_nil])

theorem returns_breakWith (s : ExecutionScheduler Job Ctx Done Fault) (failure : Fault) :
    returns (s.breakWith failure).history = returns s.history := by
  cases hb : s.broken with
  | some _ => rw [breakWith_of_broken s failure (by simp [hb])]
  | none =>
    rw [breakWith_of_unbroken s failure hb]
    refine (returns_append _ _).trans ?_
    rw [returns_map _ (fun _ => by rfl) _, List.append_nil]

theorem returns_taken (driver : ℕ) (ownedBy : Option (Ctx → Bool)) :
    returns (recordTaken driver (s.takeCompletionNowait ownedBy).1
      (s.takeCompletionNowait ownedBy).2).history = returns s.history := by
  rcases s.takeCompletionNowait_cases ownedBy with ⟨completion, l₁, l₂, -, -, -, he⟩ | ⟨-, he⟩
  · rw [he]
    exact (returns_append _ _).trans (List.append_nil _)
  · rw [he]
    unfold noneUnlessBroken
    cases s.broken <;> rfl

/-- What finishes is what returns. -/
theorem returns_step {action : Action Job Ctx Done Fault}
    (hstep : ExecutionScheduler.step action s = some s') :
    returns s'.history = returns s.history ++
      (finishedBy action s).map fun completion => (completion.ticket, completion.completedExecution) := by
  have hadd : ∀ {u : ExecutionScheduler Job Ctx Done Fault} (events : List (Event Job Ctx Done)),
      u.history = s.history ++ events → returns events = [] →
      returns u.history = returns s.history ++ [] := by
    intro u events hu hevents
    rw [hu, returns_append, hevents]
  cases action with
  | admitJob job context start =>
    obtain rfl := Option.some.inj hstep
    rcases s.admit_cases job context start with ⟨he, -⟩ | ⟨-, -, he⟩
    · rw [he]
      exact (List.append_nil _).symm
    · obtain ⟨cancelled, hq⟩ := s.enqueue_eq job context
      have hqueued : returns (s.enqueue job context).history = returns s.history ++ [] := by
        rw [hq]
        exact hadd [.admitted s.nextTicket job context] rfl rfl
      rw [he]
      rcases (s.enqueue job context).ensureWorker_cases start with
        ⟨-, he⟩ | ⟨failure, -, he⟩ | ⟨-, -, he⟩
      · rw [he]
        exact hqueued
      · rw [he]
        exact (returns_breakWith _ failure).trans hqueued
      · rw [he]
        exact hqueued
  | takeAdmitted worker =>
    simp only [ExecutionScheduler.step] at hstep
    split at hstep
    · split_ifs at hstep
      obtain rfl := Option.some.inj hstep
      rcases s.workerTakes_cases worker with ⟨admitted, rest, -, -, he⟩ | ⟨-, he⟩
      · rw [he]
        exact hadd [.called admitted.ticket admitted.job] rfl rfl
      · rw [he]
        exact hadd [] (List.append_nil _).symm rfl
    · cases hstep
  | finish worker result =>
    simp only [ExecutionScheduler.step] at hstep
    split at hstep
    · next admitted hthread =>
      obtain rfl := Option.some.inj hstep
      rcases result with failure | completed
      · rcases s.workerFinishes_error_cases worker admitted failure with ⟨-, he⟩ | ⟨-, he⟩
        · rw [he]
          exact hadd [.raised admitted.ticket] rfl rfl
        · rw [he]
          exact hadd _ (List.append_assoc ..)
            ((returns_append _ _).trans (returns_map _ (fun _ => by rfl) _))
      · rw [workerFinishes_ok, finishedBy, hthread]
        exact returns_append _ _
    · cases hstep
  | takeCompletionNowait driver ownedBy =>
    obtain rfl := Option.some.inj hstep
    exact (returns_taken driver ownedBy).trans (List.append_nil _).symm
  | takeCompletion driver =>
    simp only [ExecutionScheduler.step] at hstep
    split_ifs at hstep
    obtain rfl := Option.some.inj hstep
    exact (returns_taken driver none).trans (List.append_nil _).symm
  | releaseOwned ownedBy =>
    obtain rfl := Option.some.inj hstep
    rw [releaseOwned_eq]
    exact hadd _ rfl (returns_map _ (fun _ => by rfl) _)
  | cancelAll =>
    obtain rfl := Option.some.inj hstep
    rw [cancelAll, cancelTokens_eq]
    exact (List.append_nil _).symm
  | expire =>
    obtain rfl := Option.some.inj hstep
    rw [expire, cancelTokens_eq]
    exact (List.append_nil _).symm
  | closeIntake | shutdownBegin =>
    obtain rfl := Option.some.inj hstep
    exact (List.append_nil _).symm
  | shutdownEnd call =>
    simp only [ExecutionScheduler.step] at hstep
    split at hstep
    · next shutdown hcall =>
      split_ifs at hstep
      obtain rfl := Option.some.inj hstep
      unfold ExecutionScheduler.shutdownEnd
      dsimp only
      split_ifs
      · exact (List.append_nil _).symm
      · exact hadd _ rfl (returns_map _ (fun _ => by rfl) _)
    · cases hstep
  | discardCompletions =>
    simp only [ExecutionScheduler.step] at hstep
    split_ifs at hstep
    obtain rfl := Option.some.inj hstep
    exact hadd _ rfl (returns_map _ (fun _ => by rfl) _)

/-- A driver that takes or releases leaves the line of every other driver as it is, and the order of
what is buffered for it. -/
theorem Drivers.undisturbed {d' : ℕ} {action : Action Job Ctx Done Fault} (hne : d ≠ d')
    (hacts : D.Acts d' action) (hstep : ExecutionScheduler.step action s = some s') :
    D.line d s' = D.line d s ∧ D.own d s'.ready = D.own d s.ready := by
  cases action with
  | takeCompletionNowait driver ownedBy =>
    obtain ⟨rfl, hown⟩ := hacts
    obtain rfl := Option.some.inj hstep
    exact ⟨(D.line_taken hown d).1, (D.line_taken hown d).2 hne⟩
  | takeCompletion driver =>
    obtain ⟨rfl, hown⟩ := hacts
    simp only [ExecutionScheduler.step] at hstep
    split_ifs at hstep
    obtain rfl := Option.some.inj hstep
    have hall : ∀ context, ((none : Option (Ctx → Bool)).getD fun _ => true) context =
        D.ownedBy driver context := fun context => (hown context).symm
    exact ⟨(D.line_taken hall d).1, (D.line_taken hall d).2 hne⟩
  | releaseOwned ownedBy =>
    have hnone : D.own d (s.ready.filter fun completion => ownedBy completion.context) = [] := by
      refine Drivers.own_eq_nil fun completion hmem => ?_
      have hreleased := (List.mem_filter.mp hmem).2
      by_contra hmine
      exact hne (D.disjoint _ _ _ (by simpa using hmine) (hacts _ hreleased))
    obtain rfl := Option.some.inj hstep
    have hsilent := Silent.releaseOwned s ownedBy
    rw [releaseOwned_eq] at hsilent ⊢
    have hline := (D.line_removed (d := d) rfl (hsilent.deliveries_eq d)).2 hnone
    refine ⟨hline, ?_⟩
    have hhanded := hsilent.deliveries_eq d
    rw [Drivers.line, Drivers.line, hhanded] at hline
    exact List.append_cancel_left hline
  | _ => exact hacts.elim

/-- **The order of completions**: what each driver was handed, and then what is buffered for it,
stands in the order in which the calls of its jobs finished. -/
structure InOrder (D : Drivers Ctx) (o : Observed Job Ctx Done Fault) : Prop where
  returned : returns o.scheduler.history =
    o.finished.map fun completion => (completion.ticket, completion.completedExecution)
  order : ∀ d, (D.line d o.scheduler).Sublist (D.own d o.finished)
  complete : ∀ d, D.own d o.removed = [] → D.line d o.scheduler = D.own d o.finished

theorem InOrder.step {o o' : Observed Job Ctx Done Fault} {action : Action Job Ctx Done Fault}
    (h : InOrder D o) (hallows : D.Allows action) (hstep : Observed.step action o = some o') :
    InOrder D o' := by
  obtain ⟨s', hs, rfl⟩ := Option.map_eq_some_iff.mp hstep
  refine ⟨?_, fun d => ?_, fun d hnone => ?_⟩
  · rw [returns_step hs, h.returned, List.map_append]
  · rw [Drivers.own_append]
    exact (D.line_step hallows hs).1.trans ((h.order d).append_right _)
  · rw [Drivers.own_append] at hnone
    obtain ⟨hbefore, hnow⟩ := List.append_eq_nil_iff.mp hnone
    rw [Drivers.own_append, (D.line_step hallows hs).2 hnow, h.complete d hbefore]

/-- **Each driver receives the completions it owns in the order in which their calls finished**,
whatever the drivers and the worker threads do and in whatever order: it is handed only its own,
what it was handed and is buffered for it is in that order, and all that finished for it is among
these unless something of its own was dropped. No take and no release of another driver changes any
of this. -/
theorem completion_order {capacity : ℤ} {s₀ : ExecutionScheduler Job Ctx Done Fault}
    (h0 : init capacity = some s₀) {o : Observed Job Ctx Done Fault}
    (h : Reach Observed.step (fun action _ => D.Allows action) ⟨s₀, [], []⟩ o) :
    InOrder D o ∧
      (∀ d, ∀ completion ∈ deliveries d o.scheduler.history,
        D.ownedBy d completion.context = true) ∧
      ∀ d d' action s', d ≠ d' → D.Acts d' action →
        ExecutionScheduler.step action o.scheduler = some s' →
        D.line d s' = D.line d o.scheduler ∧ D.own d s'.ready = D.own d o.scheduler.ready := by
  have hstart : InOrder D (⟨s₀, [], []⟩ : Observed Job Ctx Done Fault) := by
    unfold init at h0
    split_ifs at h0
    obtain rfl := Option.some.inj h0
    exact ⟨rfl, fun _ => List.Sublist.refl _, fun _ _ => rfl⟩
  have hin : InOrder D o := h.invariant hstart fun _ _ _ _ hI hallows hstep => hI.step hallows hstep
  refine ⟨hin, fun d completion hmem => ?_, fun d d' action s' hne hacts hstep =>
    D.undisturbed hne hacts hstep⟩
  have hfinished := (hin.order d).subset (List.mem_append_left _ hmem)
  exact (List.mem_filter.mp hfinished).2

/-- Drivers that own the contexts with their number. -/
def byNumber : Drivers ℕ where
  ownedBy d context := context == d
  disjoint d d' context h h' := by
    rw [← eq_of_beq h, ← eq_of_beq h']

/-- The second call finishes first; each driver still takes its own. -/
theorem completion_order_twoDrivers :
    let D := byNumber
    ∃ o : Observed Unit ℕ ℕ Unit, o.finished.map Completion.ticket = [1, 0] ∧
      deliveries 0 o.scheduler.history = [⟨0, 10, 0⟩] ∧ InOrder D o := by
  have h := @completion_order Unit ℕ ℕ Unit byNumber 2 _ rfl _
    (Reach.refl
      |>.tail (a := .admitJob () 0 none) trivial rfl
      |>.tail (a := .admitJob () 1 none) trivial rfl
      |>.tail (a := .takeAdmitted 0) trivial rfl
      |>.tail (a := .takeAdmitted 1) trivial rfl
      |>.tail (a := .finish 1 (.ok 11)) trivial rfl
      |>.tail (a := .finish 0 (.ok 10)) trivial rfl
      |>.tail (a := .takeCompletionNowait 0 (some (byNumber.ownedBy 0))) ⟨0, rfl, fun _ => rfl⟩ rfl)
  exact ⟨_, rfl, rfl, h.1⟩

end DrExec.Scheduling.Scheduler.ExecutionScheduler
