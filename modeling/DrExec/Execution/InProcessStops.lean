import DrExec.Execution.InProcess

/-! # Stops of an attempt in process

A cancel outranks the deadline, and both outrank what the entry point gave. The handlers that say
`started=True` also take what is raised before the call, so a cancel may be told of as that of a
started call that never was; and the clause that catches all asks an exception for its class first,
which may be told falsely, or not at all. The stops take precedence exactly in the courses that heed
them (`stopPrecedence_iff`). -/

namespace DrExec.Execution.InProcessStops

open DrExec.Core.Identity DrExec.Core.Model DrExec.Declarations.Models DrExec.Lib DrExec.Lib.Json
open DrExec.Recording.Models DrExec.Recording.Outcomes DrExec.Runtime.Wire DrExec.Execution.InProcess
open DrExec.Execution.Completion (completedExecution)

variable {C : Codec} {Module Object : Type} {c : Course C Module Object}

/-- What a stop is to do: a cancel that is visible before dispatch keeps the entry point from being
called; one that is visible when the call is over replaces what it gave, and a deadline does where
no cancel is visible; and a cancel is that of a started call only if the entry point was called. -/
structure StopPrecedence (c : Course C Module Object) : Prop where
  before : c.cancelled c.timeline.dispatch.token = true →
    c.enters = false ∧ c.outcome = some (.cancelled false)
  cancel : c.enters = true → c.cancelled c.timeline.ended.token = true →
    c.outcome = some (.cancelled true)
  deadline : c.enters = true → c.expired c.timeline.ended.token = true →
    c.outcome = some (.cancelled true) ∧ c.cancelled c.timeline.caught.token = true ∨
      c.outcome = some (.budgetExceeded .wallTime)
  started : c.outcome = some (.cancelled true) → c.enters = true

/-- Where an exception is caught, the stop is looked at, since what escaped is found to be no
interrupt, and a completion goes through. -/
def catches (c : Course C Module Object) : Bool :=
  c.caughtFinish.steady && c.escapes.all fun error => error.instanceOfKeyboardInterrupt == some false

/-- The course lets the stops be heeded. A cancel before dispatch meets an attempt that is armed and
a clock that is steady. After a call that a stop should replace, `_run_body` looks at the stop, or
leaves it to be looked at where the exception is caught. And without a call no cancel is visible to
the looks that take it for granted. -/
structure Heeds (c : Course C Module Object) : Prop where
  before : c.cancelled c.timeline.dispatch.token = true → c.armed = true ∧ c.bodyFinish.steady = true
  after : c.enters = true →
    (c.cancelled c.timeline.ended.token || c.expired c.timeline.ended.token) = true →
    if c.bodyCompletes then c.ending = .looked else catches c = true
  uncalled : c.armed = true → c.enters = false →
    if c.bodyCompletes then
      ¬ (c.stopOutcome c.timeline.dispatch false = none ∧ c.ending = .looked ∧
        c.cancelled c.timeline.ended.token = true)
    else ¬ (catches c = true ∧ c.cancelled c.timeline.caught.token = true)

theorem cancelled_mono {earlier later : ℕ} (h : earlier ≤ later)
    (hcancelled : c.cancelled earlier = true) : c.cancelled later = true := by
  unfold Course.cancelled at hcancelled ⊢
  rcases hat : c.timeline.cancelAt with _ | moment
  · rw [hat] at hcancelled
    cases hcancelled
  · rw [hat] at hcancelled
    exact decide_eq_true ((of_decide_eq_true hcancelled : moment ≤ earlier).trans h)

theorem expired_mono {earlier later : ℕ} (h : earlier ≤ later)
    (hexpired : c.expired earlier = true) : c.expired later = true := by
  unfold Course.expired at hexpired ⊢
  obtain ⟨hlimit, hfired⟩ := Bool.and_eq_true_iff.mp hexpired
  rw [hlimit, Bool.true_and]
  rcases hat : c.timeline.expiredAt with _ | moment
  · rw [hat] at hfired
    cases hfired
  · rw [hat] at hfired
    exact decide_eq_true ((of_decide_eq_true hfired : moment ≤ earlier).trans h)

theorem stopOutcome_of_cancelled {look : Look} (started : Bool) (h : c.cancelled look.token = true) :
    c.stopOutcome look started = some (.cancelled started) := if_pos h

theorem stopOutcome_of_expired {look : Look} (started : Bool)
    (hcancelled : ¬ c.cancelled look.token = true) (h : c.expired look.token = true) :
    c.stopOutcome look started = some (.budgetExceeded .wallTime) := by
  unfold Course.stopOutcome
  rw [if_neg hcancelled, if_pos (expired_mono look.ordered h)]

theorem eq_of_stopOutcome_cancelled {look : Look} {started told : Bool}
    (h : c.stopOutcome look started = some (.cancelled told)) :
    c.cancelled look.token = true ∧ told = started := by
  unfold Course.stopOutcome at h
  split_ifs at h with hcancelled
  · cases h
    exact ⟨hcancelled, rfl⟩
  · cases h

/-- A stop that a look finds. -/
theorem stopOutcome_of_visible {look : Look}
    (h : (c.cancelled look.token || c.expired look.token) = true) :
    ∃ stopped, c.stopOutcome look true = some stopped ∧ ¬ Unstopped stopped ∧
      (c.cancelled look.token = true → stopped = .cancelled true) ∧
      (stopped = .cancelled true ∧ c.cancelled look.token = true ∨
        stopped = .budgetExceeded .wallTime) := by
  by_cases hcancelled : c.cancelled look.token = true
  · exact ⟨_, stopOutcome_of_cancelled true hcancelled, id, fun _ => rfl, .inl ⟨rfl, hcancelled⟩⟩
  · have hexpired := h
    rw [Bool.eq_false_iff.mpr hcancelled, Bool.false_or] at hexpired
    exact ⟨_, stopOutcome_of_expired true hcancelled hexpired, id,
      fun hc => absurd hc hcancelled, .inr rfl⟩

theorem ended_le_caught (c : Course C Module Object) :
    c.timeline.ended.token ≤ c.timeline.caught.token :=
  c.timeline.ended.ordered.trans c.timeline.ended_caught

/-- **The outcome of an armed attempt**, by whether `_run_body` completes it. -/
theorem outcome_cases (harmed : c.armed = true) :
    (c.bodyCompletes = true ∧ ∃ outcome, c.outcome = some outcome ∧
      (c.stopOutcome c.timeline.dispatch false = some outcome ∨
        c.stopOutcome c.timeline.dispatch false = none ∧
          (c.ending = .rejected ∧ Unstopped outcome ∨
            c.ending = .looked ∧ (c.stopOutcome c.timeline.ended true = some outcome ∨
              c.stopOutcome c.timeline.ended true = none ∧ Unstopped outcome)))) ∨
    (c.bodyCompletes = false ∧
      (∀ stopped, c.stopOutcome c.timeline.caught true = some stopped → catches c = true →
        c.outcome = some stopped) ∧
      ∀ outcome, c.outcome = some outcome →
        c.stopOutcome c.timeline.caught true = some outcome ∧ catches c = true ∨
          Unstopped outcome) := by
  have hbody := c.comes_runBody
  -- what is caught, whatever it is
  have hcaught : ∀ error, outcomeOf c.runBody = .error error →
      (catches c = true ↔ c.caughtFinish.steady = true ∧
        error.instanceOfKeyboardInterrupt = some false) →
      (∀ stopped, c.stopOutcome c.timeline.caught true = some stopped → catches c = true →
        c.outcome = some stopped) ∧
      ∀ outcome, c.outcome = some outcome →
        c.stopOutcome c.timeline.caught true = some outcome ∧ catches c = true ∨
          Unstopped outcome := by
    intro error hraised hcatches
    rw [(Course.outcome_of_raised harmed hraised).2, hcatches]
    refine ⟨fun stopped hstop hlooks => ?_, fun outcome houtcome => ?_⟩
    · rw [Course.outcome_runCaught.1 stopped hstop hlooks.2, if_pos hlooks.1]
    · rcases Course.outcome_runCaught.2 outcome houtcome with ⟨hstop, hread⟩ | hunstopped
      · rw [Course.outcome_runCaught.1 outcome hstop hread] at houtcome
        split_ifs at houtcome with hsteady
        exact .inl ⟨hstop, hsteady, hread⟩
      · exact .inr hunstopped
  unfold Comes at hbody
  rcases hescapes : c.escapes with _ | error
  · rw [hescapes] at hbody
    rcases hsteady : c.bodyFinish.steady with _ | _
    · rw [hsteady] at hbody
      refine .inr ⟨by rw [Course.bodyCompletes, hsteady]; rfl, hcaught _ hbody ?_⟩
      rw [catches, hescapes, Option.all_none, Bool.and_true]
      exact (and_iff_left rfl).symm
    · rw [hsteady] at hbody
      obtain ⟨outcome, hrun, hout⟩ := hbody
      exact .inl ⟨by rw [Course.bodyCompletes, hsteady, hescapes]; rfl, outcome,
        Course.outcome_of_completed harmed hrun, hout⟩
  · rw [hescapes] at hbody
    refine .inr ⟨by rw [Course.bodyCompletes, hescapes, Option.isNone_some, Bool.and_false],
      hcaught _ hbody ?_⟩
    rw [catches, hescapes, Option.all_some, Bool.and_eq_true, beq_iff_eq]

theorem armed_of_enters (h : c.enters = true) : c.armed = true := by
  unfold Course.enters at h
  exact (Bool.and_eq_true_iff.mp (Bool.and_eq_true_iff.mp h).1).1

theorem unstopped_of_enters (h : c.enters = true) :
    c.stopOutcome c.timeline.dispatch false = none := by
  unfold Course.enters at h
  exact Option.isNone_iff_eq_none.mp (Bool.and_eq_true_iff.mp (Bool.and_eq_true_iff.mp h).1).2

theorem enters_of_stopped {stopped : ExecutionOutcome}
    (h : c.stopOutcome c.timeline.dispatch false = some stopped) : c.enters = false := by
  unfold Course.enters
  rw [h, Option.isNone_some, Bool.and_false, Bool.false_and]

/-- **A stop after the call**: it gives the outcome if and only if the course lets it. -/
theorem stopped_after_iff (henters : c.enters = true)
    (hvisible : (c.cancelled c.timeline.ended.token || c.expired c.timeline.ended.token) = true) :
    ((c.cancelled c.timeline.ended.token = true → c.outcome = some (.cancelled true)) ∧
      (c.outcome = some (.cancelled true) ∧ c.cancelled c.timeline.caught.token = true ∨
        c.outcome = some (.budgetExceeded .wallTime))) ↔
      if c.bodyCompletes then c.ending = .looked else catches c = true := by
  have hdispatch := unstopped_of_enters henters
  obtain ⟨atEnd, hatEnd, hstopAtEnd, hcancelAtEnd, hkindAtEnd⟩ := stopOutcome_of_visible hvisible
  have hlater : (c.cancelled c.timeline.caught.token || c.expired c.timeline.caught.token) = true := by
    rcases Bool.or_eq_true_iff.mp hvisible with h | h
    · rw [cancelled_mono (ended_le_caught c) h, Bool.true_or]
    · rw [expired_mono (ended_le_caught c) h, Bool.or_true]
  obtain ⟨atCatch, hatCatch, -, hcancelAtCatch, hkindAtCatch⟩ := stopOutcome_of_visible hlater
  rcases outcome_cases (armed_of_enters henters) with
    ⟨hbody, outcome, houtcome, hout⟩ | ⟨hbody, hcaught, hcaughtOnly⟩
  · rw [hbody, if_pos rfl, houtcome]
    rcases hout with hstopped | ⟨-, ⟨hrejected, hunstopped⟩ | ⟨hlooked, hended | ⟨hnone, -⟩⟩⟩
    · rw [hdispatch] at hstopped
      cases hstopped
    · refine iff_of_false ?_ (by rw [hrejected]; nofun)
      rintro ⟨-, ⟨he, -⟩ | he⟩ <;> · cases he; exact hunstopped
    · obtain rfl : atEnd = outcome := Option.some.inj (hatEnd.symm.trans hended)
      refine iff_of_true ⟨fun h => congrArg some (hcancelAtEnd h), ?_⟩ hlooked
      rcases hkindAtEnd with ⟨rfl, hcancelled⟩ | rfl
      · exact .inl ⟨rfl, cancelled_mono (ended_le_caught c) hcancelled⟩
      · exact .inr rfl
    · rw [hatEnd] at hnone
      cases hnone
  · rw [hbody, if_neg Bool.false_ne_true]
    by_cases hcatches : catches c = true
    · refine iff_of_true ?_ hcatches
      rw [hcaught atCatch hatCatch hcatches]
      refine ⟨fun h => congrArg some (hcancelAtCatch (cancelled_mono (ended_le_caught c) h)), ?_⟩
      rcases hkindAtCatch with ⟨rfl, hcancelled⟩ | rfl
      · exact .inl ⟨rfl, hcancelled⟩
      · exact .inr rfl
    · refine iff_of_false ?_ hcatches
      rintro ⟨-, ⟨he, -⟩ | he⟩ <;> exact (hcaughtOnly _ he).elim (fun h => hcatches h.2) id

/-- **A cancel without a call**: it is not told of a started one if and only if no cancel is visible
to a look that takes the call for granted. -/
theorem cancelled_uncalled_iff (harmed : c.armed = true) :
    c.outcome ≠ some (.cancelled true) ↔
      if c.bodyCompletes then
        ¬ (c.stopOutcome c.timeline.dispatch false = none ∧ c.ending = .looked ∧
          c.cancelled c.timeline.ended.token = true)
      else ¬ (catches c = true ∧ c.cancelled c.timeline.caught.token = true) := by
  rcases outcome_cases harmed with ⟨hbody, outcome, houtcome, hout⟩ | ⟨hbody, hcaught, honly⟩
  · rw [hbody, if_pos rfl, houtcome, not_iff_not]
    constructor
    · intro he
      cases he
      rcases hout with hstopped | ⟨hdispatch, ⟨-, hunstopped⟩ | ⟨hlooked, hended | ⟨-, hunstopped⟩⟩⟩
      · exact absurd (eq_of_stopOutcome_cancelled hstopped).2 (by decide)
      · exact hunstopped.elim
      · exact ⟨hdispatch, hlooked, (eq_of_stopOutcome_cancelled hended).1⟩
      · exact hunstopped.elim
    · rintro ⟨hdispatch, hlooked, hcancelled⟩
      have hended := stopOutcome_of_cancelled true hcancelled
      rcases hout with hstopped | ⟨-, ⟨hrejected, -⟩ | ⟨-, hout | ⟨hnone, -⟩⟩⟩
      · rw [hdispatch] at hstopped
        cases hstopped
      · rw [hlooked] at hrejected
        cases hrejected
      · exact hout.symm.trans hended
      · rw [hended] at hnone
        cases hnone
  · rw [hbody, if_neg Bool.false_ne_true, not_iff_not]
    constructor
    · intro he
      rcases honly _ he with ⟨hstop, hcatches⟩ | hunstopped
      · exact ⟨hcatches, (eq_of_stopOutcome_cancelled hstop).1⟩
      · exact hunstopped.elim
    · rintro ⟨hcatches, hcancelled⟩
      exact hcaught _ (stopOutcome_of_cancelled true hcancelled) hcatches

/-- **A cancel before dispatch**: it is the outcome if and only if the attempt is armed and
completed. -/
theorem cancelled_before_iff (h : c.cancelled c.timeline.dispatch.token = true) :
    c.outcome = some (.cancelled false) ↔ c.armed = true ∧ c.bodyFinish.steady = true := by
  have hdispatch := stopOutcome_of_cancelled false h
  have hbodyCompletes : c.bodyCompletes = c.bodyFinish.steady := by
    rw [Course.bodyCompletes, Course.escapes, hdispatch, Option.isSome_some, if_pos rfl,
      Option.isNone_none, Bool.and_true]
  by_cases harmed : c.armed = true
  · rcases outcome_cases harmed with ⟨hbody, outcome, houtcome, hout⟩ | ⟨hbody, -, honly⟩
    · refine iff_of_true ?_ ⟨harmed, hbodyCompletes.symm.trans hbody⟩
      rcases hout with hstopped | ⟨hnone, -⟩
      · exact houtcome.trans (hstopped.symm.trans hdispatch)
      · rw [hdispatch] at hnone
        cases hnone
    · refine iff_of_false (fun he => ?_) fun hsteady => ?_
      · rcases honly _ he with ⟨hstop, -⟩ | hunstopped
        · exact absurd (eq_of_stopOutcome_cancelled hstop).2 (by decide)
        · exact hunstopped.elim
      · rw [← hbodyCompletes, hbody] at hsteady
        exact Bool.false_ne_true hsteady.2
  · rw [Course.outcome_of_unarmed (Bool.eq_false_iff.mpr harmed)]
    exact iff_of_false (by simp) fun hboth => harmed hboth.1

/-- **The stops take precedence, and a cancel says truly whether the call was started, exactly in
the courses that heed them.** -/
theorem stopPrecedence_iff : StopPrecedence c ↔ Heeds c := by
  constructor
  · intro h
    refine ⟨fun hcancelled => ?_, fun henters hvisible => ?_, fun harmed henters => ?_⟩
    · exact (cancelled_before_iff hcancelled).mp (h.before hcancelled).2
    · refine (stopped_after_iff henters hvisible).mp ⟨h.cancel henters, ?_⟩
      rcases Bool.or_eq_true_iff.mp hvisible with hcancelled | hexpired
      · exact .inl ⟨h.cancel henters hcancelled, cancelled_mono (ended_le_caught c) hcancelled⟩
      · exact h.deadline henters hexpired
    · refine (cancelled_uncalled_iff harmed).mp fun hstarted => ?_
      rw [h.started hstarted] at henters
      cases henters
  · intro h
    refine ⟨fun hcancelled => ?_, fun henters hcancelled => ?_, fun henters hexpired => ?_,
      fun hstarted => ?_⟩
    · exact ⟨enters_of_stopped (stopOutcome_of_cancelled false hcancelled),
        (cancelled_before_iff hcancelled).mpr (h.before hcancelled)⟩
    · have hvisible : (c.cancelled c.timeline.ended.token ||
          c.expired c.timeline.ended.token) = true := by rw [hcancelled, Bool.true_or]
      exact ((stopped_after_iff henters hvisible).mpr (h.after henters hvisible)).1 hcancelled
    · have hvisible : (c.cancelled c.timeline.ended.token ||
          c.expired c.timeline.ended.token) = true := by rw [hexpired, Bool.or_true]
      exact ((stopped_after_iff henters hvisible).mpr (h.after henters hvisible)).2
    · by_contra henters
      by_cases harmed : c.armed = true
      · exact (cancelled_uncalled_iff harmed).mpr
          (h.uncalled harmed (Bool.eq_false_iff.mpr henters)) hstarted
      · rw [Course.outcome_of_unarmed (Bool.eq_false_iff.mpr harmed)] at hstarted
        cases hstarted

/-- **A module that exits while it is imported, with a cancel visible, is told of as a started
call.** -/
theorem importExits_tellsStarted :
    ¬ StopPrecedence (attemptOf (hostOf (.error { isException := false
                                                  isSystemExit := true
                                                  code := .int 0
                                                  message := Text.lit "0" }) (.ok ())) (some 15)) := by
  intro h
  have hstarted := h.started rfl
  exact absurd hstarted (by decide)

end DrExec.Execution.InProcessStops
