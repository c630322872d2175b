import DrExec.Scheduling.Workers

/-! # The ledger of tickets

What the scheduler is for, without capacity, tokens or threads: a ticket is issued and queued, its
job is called once, its completion is buffered and handed to one driver. A `Ledger` holds the queue,
the calls in progress, the buffer and the history; a `Move` takes one job from one place to the
next. `Ledger.Ok` is what holds after any moves: every ticket issued is in one place, and what a
driver receives is what was admitted and what its call returned. Every section of the scheduler is a
sequence of moves of its ledger (`ledger_step`). -/

namespace DrExec.Scheduling.Scheduler

variable {Job Ctx Done Fault : Type}

/-- The place an event takes a ticket to when it leaves the scheduler. -/
inductive Exit
  | delivered
  | released
  | discarded
  | dropped
  deriving DecidableEq, Repr

/-- How ticket `t` leaves by an event. A call that raised leaves as dropped: it is the break's own.
-/
def Event.leaves (t : ℕ) : Event Job Ctx Done → Option Exit
  | .delivered _ completion => if completion.ticket = t then some .delivered else none
  | .released ticket => if ticket = t then some .released else none
  | .discarded ticket => if ticket = t then some .discarded else none
  | .dropped ticket => if ticket = t then some .dropped else none
  | .raised ticket => if ticket = t then some .dropped else none
  | _ => none

/-- The ticket an event admits. -/
def Event.admits : Event Job Ctx Done → Option ℕ
  | .admitted ticket _ _ => some ticket
  | _ => none

/-- The event is the call of ticket `t`. -/
def Event.calls (t : ℕ) : Event Job Ctx Done → Bool
  | .called ticket _ => ticket = t
  | _ => false

/-- The event drops ticket `t` from the queue. -/
def Event.drops (t : ℕ) : Event Job Ctx Done → Bool
  | .dropped ticket => ticket = t
  | _ => false

/-- How often ticket `t` has left, by any exit. -/
def leftCount (history : List (Event Job Ctx Done)) (t : ℕ) : ℕ :=
  history.countP fun event => (event.leaves t).isSome

/-- How often ticket `t` was passed to the executor. -/
def calledCount (history : List (Event Job Ctx Done)) (t : ℕ) : ℕ :=
  history.countP (Event.calls t)

/-- How often ticket `t` was dropped from the queue. -/
def droppedCount (history : List (Event Job Ctx Done)) (t : ℕ) : ℕ :=
  history.countP (Event.drops t)

theorem leftCount_append (history events : List (Event Job Ctx Done)) (t : ℕ) :
    leftCount (history ++ events) t = leftCount history t + leftCount events t :=
  List.countP_append

theorem calledCount_append (history events : List (Event Job Ctx Done)) (t : ℕ) :
    calledCount (history ++ events) t = calledCount history t + calledCount events t :=
  List.countP_append

theorem droppedCount_append (history events : List (Event Job Ctx Done)) (t : ℕ) :
    droppedCount (history ++ events) t = droppedCount history t + droppedCount events t :=
  List.countP_append

/-- A batch of events that each take one ticket out. -/
theorem leftCount_map {α : Type} (event : α → Event Job Ctx Done) (ticket : α → ℕ)
    (h : ∀ a t, ((event a).leaves t).isSome = decide (ticket a = t)) (l : List α) (t : ℕ) :
    leftCount (l.map event) t = (l.map ticket).count t := by
  induction l with
  | nil => rfl
  | cons a l ih =>
    simp only [leftCount, List.map_cons, List.countP_cons, List.count_cons] at ih ⊢
    rw [ih, h]
    by_cases ht : ticket a = t <;> simp [ht]

theorem isSome_leaves_dropped (ticket t : ℕ) :
    ((Event.dropped ticket : Event Job Ctx Done).leaves t).isSome = decide (ticket = t) := by
  by_cases h : ticket = t <;> simp [Event.leaves, h]

theorem isSome_leaves_released (ticket t : ℕ) :
    ((Event.released ticket : Event Job Ctx Done).leaves t).isSome = decide (ticket = t) := by
  by_cases h : ticket = t <;> simp [Event.leaves, h]

theorem isSome_leaves_discarded (ticket t : ℕ) :
    ((Event.discarded ticket : Event Job Ctx Done).leaves t).isSome = decide (ticket = t) := by
  by_cases h : ticket = t <;> simp [Event.leaves, h]

theorem isSome_leaves_delivered (driver : ℕ) (completion : Completion Ctx Done) (t : ℕ) :
    ((Event.delivered driver completion : Event Job Ctx Done).leaves t).isSome =
      decide (completion.ticket = t) := by
  by_cases h : completion.ticket = t <;> simp [Event.leaves, h]

theorem isSome_leaves_raised (ticket t : ℕ) :
    ((Event.raised ticket : Event Job Ctx Done).leaves t).isSome = decide (ticket = t) := by
  by_cases h : ticket = t <;> simp [Event.leaves, h]

theorem leftCount_single (event : Event Job Ctx Done) (t : ℕ) :
    leftCount [event] t = if (event.leaves t).isSome then 1 else 0 := by
  simp [leftCount, List.countP_cons]

/-! ### Ledgers and their moves -/

/-- The places of the tickets that have not left, and the history. The calls in progress have no
order. -/
structure Ledger (Job Ctx Done : Type) where
  queued : List (Admitted Job Ctx)
  running : Multiset (Admitted Job Ctx)
  buffered : List (Completion Ctx Done)
  nextTicket : ℕ
  history : List (Event Job Ctx Done)

namespace Ledger

/-- One job moves on. -/
inductive Move : Ledger Job Ctx Done → Ledger Job Ctx Done → Prop
  | admitJob (l : Ledger Job Ctx Done) (job : Job) (context : Ctx) (token : CancelToken) :
      Move l { l with
        queued := l.queued ++ [⟨l.nextTicket, job, context, token⟩]
        nextTicket := l.nextTicket + 1
        history := l.history ++ [.admitted l.nextTicket job context] }
  | call (l : Ledger Job Ctx Done) (a : Admitted Job Ctx) (rest : List (Admitted Job Ctx)) :
      l.queued = a :: rest →
      Move l { l with
        queued := rest
        running := a ::ₘ l.running
        history := l.history ++ [.called a.ticket a.job] }
  | complete (l : Ledger Job Ctx Done) (a : Admitted Job Ctx) (rest : Multiset (Admitted Job Ctx))
      (completed : Done) : l.running = a ::ₘ rest →
      Move l { l with
        running := rest
        buffered := l.buffered ++ [⟨a.ticket, completed, a.context⟩]
        history := l.history ++ [.returned a.ticket completed] }
  | fail (l : Ledger Job Ctx Done) (a : Admitted Job Ctx) (rest : Multiset (Admitted Job Ctx)) :
      l.running = a ::ₘ rest →
      Move l { l with running := rest, history := l.history ++ [.raised a.ticket] }
  | drop (l : Ledger Job Ctx Done) :
      Move l { l with
        queued := []
        history := l.history ++ l.queued.map fun a => .dropped a.ticket }
  | deliver (l : Ledger Job Ctx Done) (driver : ℕ) (c : Completion Ctx Done)
      (l₁ l₂ : List (Completion Ctx Done)) : l.buffered = l₁ ++ c :: l₂ →
      Move l { l with buffered := l₁ ++ l₂, history := l.history ++ [.delivered driver c] }
  | release (l : Ledger Job Ctx Done) (p : Completion Ctx Done → Bool) :
      Move l { l with
        buffered := l.buffered.filter fun c => !p c
        history := l.history ++ (l.buffered.filter p).map fun c => .released c.ticket }
  | discard (l : Ledger Job Ctx Done) :
      Move l { l with
        buffered := []
        history := l.history ++ l.buffered.map fun c => .discarded c.ticket }

/-- How many entries ticket `t` has in the queue, among the calls, in the buffer. -/
def queuedCount (l : Ledger Job Ctx Done) (t : ℕ) : ℕ := (l.queued.map Admitted.ticket).count t

def runningCount (l : Ledger Job Ctx Done) (t : ℕ) : ℕ := (l.running.map Admitted.ticket).count t

def bufferedCount (l : Ledger Job Ctx Done) (t : ℕ) : ℕ :=
  (l.buffered.map Completion.ticket).count t

/-- A completion carries the context of its ticket's admission and the result of its call. -/
def Genuine (history : List (Event Job Ctx Done)) (c : Completion Ctx Done) : Prop :=
  (∃ job, .admitted c.ticket job c.context ∈ history) ∧
    .returned c.ticket c.completedExecution ∈ history

/-- **What holds of a ledger after any moves.** -/
structure Ok (l : Ledger Job Ctx Done) : Prop where
  flow : ∀ t, l.queuedCount t + l.runningCount t + l.bufferedCount t + leftCount l.history t =
    if t < l.nextTicket then 1 else 0
  called : ∀ t, calledCount l.history t + l.queuedCount t + droppedCount l.history t =
    if t < l.nextTicket then 1 else 0
  admitted : l.history.filterMap Event.admits = List.range l.nextTicket
  queued_origin : ∀ a ∈ l.queued, .admitted a.ticket a.job a.context ∈ l.history
  running_origin : ∀ a ∈ l.running, .admitted a.ticket a.job a.context ∈ l.history
  called_origin : ∀ t job, .called t job ∈ l.history → ∃ context, .admitted t job context ∈ l.history
  buffered_origin : ∀ c ∈ l.buffered, Genuine l.history c
  delivered_origin : ∀ driver c, .delivered driver c ∈ l.history → Genuine l.history c

theorem Genuine.mono {history events : List (Event Job Ctx Done)} {c : Completion Ctx Done}
    (h : Genuine history c) : Genuine (history ++ events) c :=
  ⟨h.1.imp fun _ hj => List.mem_append_left _ hj, List.mem_append_left _ h.2⟩

namespace Ok

variable {l l' : Ledger Job Ctx Done}

/-- The ledger before any move. -/
theorem empty : ({ queued := [], running := 0, buffered := [], nextTicket := 0, history := [] } :
    Ledger Job Ctx Done).Ok := by
  constructor <;>
    simp [queuedCount, runningCount, bufferedCount, leftCount, calledCount, droppedCount]

/-- A ticket that has not left is in one place. -/
theorem count_le_one (h : l.Ok) (t : ℕ) :
    l.queuedCount t + l.runningCount t + l.bufferedCount t + leftCount l.history t ≤ 1 := by
  rw [h.flow t]
  split_ifs <;> omega

/-- The count of the calls when one of them is named. -/
theorem runningCount_cons {a : Admitted Job Ctx} {rest : Multiset (Admitted Job Ctx)}
    (hr : l.running = a ::ₘ rest) (t : ℕ) :
    l.runningCount t = (rest.map Admitted.ticket).count t + if a.ticket = t then 1 else 0 := by
  rw [runningCount, hr, Multiset.map_cons, Multiset.count_cons]
  simp only [eq_comm (a := t)]

/-- Origins outlive a move whose events call nothing and deliver nothing. -/
theorem origins_append (h : l.Ok) (events : List (Event Job Ctx Done))
    (hc : ∀ t job, .called t job ∉ events) (hd : ∀ driver c, .delivered driver c ∉ events) :
    (∀ t job, .called t job ∈ l.history ++ events →
      ∃ context, .admitted t job context ∈ l.history ++ events) ∧
      ∀ driver c, .delivered driver c ∈ l.history ++ events → Genuine (l.history ++ events) c := by
  constructor
  · intro t job ht
    rcases List.mem_append.mp ht with ht | ht
    · exact (h.called_origin t job ht).imp fun _ hm => List.mem_append_left _ hm
    · exact absurd ht (hc t job)
  · intro driver c hm
    rcases List.mem_append.mp hm with hm | hm
    · exact (h.delivered_origin driver c hm).mono
    · exact absurd hm (hd driver c)

/-- The call count stays when nothing is called, dropped or queued. -/
theorem called_append (h : l.Ok) (events : List (Event Job Ctx Done)) (t : ℕ)
    (hc : calledCount events t = 0) (hd : droppedCount events t = 0) :
    calledCount (l.history ++ events) t + l.queuedCount t + droppedCount (l.history ++ events) t =
      if t < l.nextTicket then 1 else 0 := by
  rw [calledCount_append, droppedCount_append, hc, hd]
  exact h.called t

theorem move_admitJob (h : l.Ok) (job : Job) (context : Ctx) (token : CancelToken) :
    Ok { l with
      queued := l.queued ++ [⟨l.nextTicket, job, context, token⟩]
      nextTicket := l.nextTicket + 1
      history := l.history ++ [.admitted l.nextTicket job context] } := by
  have horig := h.origins_append [.admitted l.nextTicket job context] (by simp) (by simp)
  constructor
  · intro t
    have := h.flow t
    simp only [queuedCount, runningCount, bufferedCount, List.map_append, List.map_cons,
      List.map_nil, List.count_append, List.count_singleton, leftCount_append, leftCount_single,
      Event.leaves, Option.isSome_none, Bool.false_eq_true, if_false, beq_iff_eq] at this ⊢
    split_ifs at this ⊢ <;> omega
  · intro t
    have := h.called t
    simp only [queuedCount, List.map_append, List.map_cons, List.map_nil, List.count_append,
      List.count_singleton, calledCount_append, droppedCount_append, beq_iff_eq] at this ⊢
    simp only [calledCount, droppedCount, List.countP_singleton, Event.calls, Event.drops,
      Bool.false_eq_true, if_false] at this ⊢
    split_ifs at this ⊢ <;> omega
  · simp [h.admitted, Event.admits, List.range_succ]
  · intro a ha
    rcases List.mem_append.mp ha with ha | ha
    · exact List.mem_append_left _ (h.queued_origin a ha)
    · rw [List.mem_singleton] at ha
      subst ha
      exact List.mem_append_right _ (by simp)
  · exact fun a ha => List.mem_append_left _ (h.running_origin a ha)
  · exact horig.1
  · exact fun c hc => (h.buffered_origin c hc).mono
  · exact horig.2

theorem move_call (h : l.Ok) {a : Admitted Job Ctx} {rest : List (Admitted Job Ctx)}
    (hq : l.queued = a :: rest) :
    Ok { l with
      queued := rest
      running := a ::ₘ l.running
      history := l.history ++ [.called a.ticket a.job] } := by
  have ha : .admitted a.ticket a.job a.context ∈ l.history :=
    h.queued_origin a (by rw [hq]; exact List.mem_cons_self)
  have hcount : ∀ t, l.queuedCount t =
      (rest.map Admitted.ticket).count t + if a.ticket = t then 1 else 0 := by
    intro t
    rw [queuedCount, hq, List.map_cons, List.count_cons]
    simp only [beq_iff_eq]
  constructor
  · intro t
    have := h.flow t
    have hrun := runningCount_cons (l := { l with running := a ::ₘ l.running }) rfl t
    rw [hcount] at this
    simp only [runningCount, queuedCount, bufferedCount, leftCount_append, leftCount_single,
      Event.leaves, Option.isSome_none, Bool.false_eq_true, if_false] at this hrun ⊢
    omega
  · intro t
    have := h.called t
    rw [hcount] at this
    simp only [queuedCount, calledCount_append, droppedCount_append] at this ⊢
    simp only [calledCount, droppedCount, List.countP_singleton, Event.calls, Event.drops,
      decide_eq_true_eq, Bool.false_eq_true, if_false] at this ⊢
    omega
  · simp [h.admitted, Event.admits]
  · intro b hb
    have : b ∈ l.queued := by rw [hq]; exact List.mem_cons_of_mem _ hb
    exact List.mem_append_left _ (h.queued_origin b this)
  · intro b hb
    rcases Multiset.mem_cons.mp hb with rfl | hb
    · exact List.mem_append_left _ ha
    · exact List.mem_append_left _ (h.running_origin b hb)
  · intro t job ht
    rcases List.mem_append.mp ht with ht | ht
    · exact (h.called_origin t job ht).imp fun _ hm => List.mem_append_left _ hm
    · rw [List.mem_singleton] at ht
      cases ht
      exact ⟨a.context, List.mem_append_left _ ha⟩
  · exact fun c hc => (h.buffered_origin c hc).mono
  · exact fun d c hc => (h.delivered_origin d c (by simpa using hc)).mono

theorem move_complete (h : l.Ok) {a : Admitted Job Ctx} {rest : Multiset (Admitted Job Ctx)}
    (hr : l.running = a ::ₘ rest) (completed : Done) :
    Ok { l with
      running := rest
      buffered := l.buffered ++ [⟨a.ticket, completed, a.context⟩]
      history := l.history ++ [.returned a.ticket completed] } := by
  have horig := h.origins_append [.returned a.ticket completed] (by simp) (by simp)
  have hmem : a ∈ l.running := by rw [hr]; exact Multiset.mem_cons_self a rest
  constructor
  · intro t
    have := h.flow t
    rw [runningCount_cons hr] at this
    simp only [queuedCount, runningCount, bufferedCount, List.map_append, List.map_cons,
      List.map_nil, List.count_append, List.count_singleton, leftCount_append, leftCount_single,
      Event.leaves, Option.isSome_none, Bool.false_eq_true, if_false, beq_iff_eq] at this ⊢
    omega
  · exact fun t => h.called_append _ t rfl rfl
  · simp [h.admitted, Event.admits]
  · exact fun b hb => List.mem_append_left _ (h.queued_origin b hb)
  · intro b hb
    have : b ∈ l.running := by rw [hr]; exact Multiset.mem_cons_of_mem hb
    exact List.mem_append_left _ (h.running_origin b this)
  · exact horig.1
  · intro c hc
    rcases List.mem_append.mp hc with hc | hc
    · exact (h.buffered_origin c hc).mono
    · rw [List.mem_singleton] at hc
      subst hc
      exact ⟨⟨a.job, List.mem_append_left _ (h.running_origin a hmem)⟩,
        List.mem_append_right _ (by simp)⟩
  · exact horig.2

theorem move_fail (h : l.Ok) {a : Admitted Job Ctx} {rest : Multiset (Admitted Job Ctx)}
    (hr : l.running = a ::ₘ rest) :
    Ok { l with running := rest, history := l.history ++ [.raised a.ticket] } := by
  have horig := h.origins_append [.raised a.ticket] (by simp) (by simp)
  constructor
  · intro t
    have := h.flow t
    rw [runningCount_cons hr] at this
    simp only [queuedCount, runningCount, bufferedCount, leftCount_append, leftCount_single,
      isSome_leaves_raised, decide_eq_true_eq] at this ⊢
    omega
  · exact fun t => h.called_append _ t rfl rfl
  · simp [h.admitted, Event.admits]
  · exact fun b hb => List.mem_append_left _ (h.queued_origin b hb)
  · intro b hb
    have : b ∈ l.running := by rw [hr]; exact Multiset.mem_cons_of_mem hb
    exact List.mem_append_left _ (h.running_origin b this)
  · exact horig.1
  · exact fun c hc => (h.buffered_origin c hc).mono
  · exact horig.2

theorem move_drop (h : l.Ok) :
    Ok { l with
      queued := []
      history := l.history ++ l.queued.map fun a => .dropped a.ticket } := by
  have horig := h.origins_append (l.queued.map fun a => .dropped a.ticket) (by simp) (by simp)
  constructor
  · intro t
    have := h.flow t
    simp only [queuedCount, runningCount, bufferedCount, List.map_nil, List.count_nil,
      leftCount_append, leftCount_map _ Admitted.ticket fun a t => isSome_leaves_dropped _ t]
      at this ⊢
    omega
  · intro t
    have := h.called t
    have hc : calledCount (l.queued.map fun a =>
        (.dropped a.ticket : Event Job Ctx Done)) t = 0 := by
      simp [calledCount, Event.calls]
    have hd : droppedCount (l.queued.map fun a =>
        (.dropped a.ticket : Event Job Ctx Done)) t = l.queuedCount t := by
      simp [droppedCount, Event.drops, queuedCount, List.count, List.countP_map, Function.comp_def,
        beq_eq_decide]
    simp only [calledCount_append, droppedCount_append, hc, hd]
    simp only [queuedCount, List.map_nil, List.count_nil] at this ⊢
    omega
  · simp [h.admitted, Event.admits, List.filterMap_map, Function.comp_def]
  · simp
  · exact fun b hb => List.mem_append_left _ (h.running_origin b hb)
  · exact horig.1
  · exact fun c hc => (h.buffered_origin c hc).mono
  · exact horig.2

theorem move_deliver (h : l.Ok) (driver : ℕ) {c : Completion Ctx Done}
    {l₁ l₂ : List (Completion Ctx Done)} (hb : l.buffered = l₁ ++ c :: l₂) :
    Ok { l with buffered := l₁ ++ l₂, history := l.history ++ [.delivered driver c] } := by
  constructor
  · intro t
    have := h.flow t
    simp only [queuedCount, runningCount, bufferedCount, hb, List.map_append, List.map_cons,
      List.count_append, List.count_cons, leftCount_append, leftCount_single,
      isSome_leaves_delivered, decide_eq_true_eq, beq_iff_eq] at this ⊢
    omega
  · exact fun t => h.called_append _ t rfl rfl
  · simp [h.admitted, Event.admits]
  · exact fun b hb' => List.mem_append_left _ (h.queued_origin b hb')
  · exact fun b hb' => List.mem_append_left _ (h.running_origin b hb')
  · intro t job ht
    obtain ⟨context, hm⟩ := h.called_origin t job (by simpa using ht)
    exact ⟨context, List.mem_append_left _ hm⟩
  · intro c' hc'
    refine (h.buffered_origin c' ?_).mono
    rw [hb]
    simp only [List.mem_append, List.mem_cons] at hc' ⊢
    tauto
  · intro d c' hc'
    rcases List.mem_append.mp hc' with hc' | hc'
    · exact (h.delivered_origin d c' hc').mono
    · rw [List.mem_singleton] at hc'
      cases hc'
      exact (h.buffered_origin c (by rw [hb]; simp)).mono

theorem move_release (h : l.Ok) (p : Completion Ctx Done → Bool) :
    Ok { l with
      buffered := l.buffered.filter fun c => !p c
      history := l.history ++ (l.buffered.filter p).map fun c => .released c.ticket } := by
  have horig := h.origins_append ((l.buffered.filter p).map fun c => .released c.ticket)
    (by simp) (by simp)
  constructor
  · intro t
    have := h.flow t
    have hsplit := DrExec.Lib.Lists.count_map_filter_add p Completion.ticket l.buffered t
    simp only [queuedCount, runningCount, bufferedCount, leftCount_append,
      leftCount_map _ Completion.ticket fun a t => isSome_leaves_released _ t] at this ⊢
    omega
  · exact fun t => h.called_append _ t (by simp [calledCount, Event.calls])
      (by simp [droppedCount, Event.drops])
  · simp [h.admitted, Event.admits, List.filterMap_map, Function.comp_def]
  · exact fun b hb => List.mem_append_left _ (h.queued_origin b hb)
  · exact fun b hb => List.mem_append_left _ (h.running_origin b hb)
  · exact horig.1
  · exact fun c hc => (h.buffered_origin c (List.mem_of_mem_filter hc)).mono
  · exact horig.2

theorem move_discard (h : l.Ok) :
    Ok { l with
      buffered := []
      history := l.history ++ l.buffered.map fun c => .discarded c.ticket } := by
  have horig := h.origins_append (l.buffered.map fun c => .discarded c.ticket) (by simp) (by simp)
  constructor
  · intro t
    have := h.flow t
    simp only [queuedCount, runningCount, bufferedCount, List.map_nil, List.count_nil,
      leftCount_append, leftCount_map _ Completion.ticket fun a t => isSome_leaves_discarded _ t]
      at this ⊢
    omega
  · exact fun t => h.called_append _ t (by simp [calledCount, Event.calls])
      (by simp [droppedCount, Event.drops])
  · simp [h.admitted, Event.admits, List.filterMap_map, Function.comp_def]
  · exact fun b hb => List.mem_append_left _ (h.queued_origin b hb)
  · exact fun b hb => List.mem_append_left _ (h.running_origin b hb)
  · exact horig.1
  · simp
  · exact horig.2

/-- **Every move keeps the ledger in order.** -/
theorem move (h : l.Ok) (hm : Move l l') : l'.Ok := by
  cases hm with
  | admitJob job context token => exact h.move_admitJob job context token
  | call a rest hq => exact h.move_call hq
  | complete a rest completed hr => exact h.move_complete hr completed
  | fail a rest hr => exact h.move_fail hr
  | drop => exact h.move_drop
  | deliver driver c l₁ l₂ hb => exact h.move_deliver driver hb
  | release p => exact h.move_release p
  | discard => exact h.move_discard

/-- **Any moves keep the ledger in order.** -/
theorem moves (h : l.Ok) (hm : Relation.ReflTransGen Move l l') : l'.Ok := by
  induction hm with
  | refl => exact h
  | tail _ hstep ih => exact ih.move hstep

end Ok

end Ledger

end DrExec.Scheduling.Scheduler
