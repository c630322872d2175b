import DrExec.Execution.InProcess

/-! # An attempt in process that returns

`_run_attempt` raises where its deadline cannot be armed, where the wall clock steps back, where the
class of what it catches cannot be read, and where the code of a `SystemExit` passes
`isinstance(code, int)` but not the strict field of the outcome (`returns_iff`). -/

namespace DrExec.Execution.InProcessReturns

open DrExec.Core.Identity DrExec.Core.Model DrExec.Lib DrExec.Lib.Json DrExec.Recording.Models
open DrExec.Recording.Outcomes DrExec.Runtime.Wire DrExec.Execution.InProcess
open DrExec.Execution.Completion (completedExecution)

variable {C : Codec} {Module Object : Type} (c : Course C Module Object)

/-- What is caught does not make the clause raise: a stop replaces it; or its class can be read, and
if it is a `SystemExit` there, the outcome takes its code. -/
def Tolerable (error : Raised) : Prop :=
  error.instanceOfKeyboardInterrupt = some false ∧
      (c.stopOutcome c.timeline.caught true).isSome = true ∨
    error.instanceOfKeyboardInterrupt.isSome = true ∧ (error.instanceOfSystemExit = some false ∨
      error.instanceOfSystemExit = some true ∧ error.code.exitCode.isSome = true)

/-- The attempt is armed, and it is completed by `_run_body`, or by the clause that catches what
escapes it: the wall clock is steady there, and what escaped is tolerable. -/
def Returns : Prop :=
  c.armed = true ∧ (c.bodyCompletes = true ∨
    c.caughtFinish.steady = true ∧ ∀ error, c.escapes = some error → Tolerable c error)

variable {c}

/-- A completion where an exception is caught. -/
theorem isSome_completed {outcome : ExecutionOutcome} {outputs : List (IdentityDocumentField C)}
    (hcounted : OutputCountMatches outcome outputs) (detail : Option Text)
    (override : Option (ExecutionOutcome → ExecutionAttribution)) :
    (c.execution.completed c.caughtFinish outcome outputs detail override).toOption.isSome =
      c.caughtFinish.steady := by
  have hmap := Course.toOption_completed (c := c) hcounted detail override
  rw [← Option.isSome_map (f := fun completed : CompletedExecution C => completed.result.outcome), hmap]
  cases c.caughtFinish.steady <;> rfl

theorem isSome_terminated (error : Raised) : (c.terminated error).isSome = true ↔
    c.caughtFinish.steady = true ∧ (error.instanceOfSystemExit = some false ∨
      error.instanceOfSystemExit = some true ∧ error.code.exitCode.isSome = true) := by
  unfold Course.terminated
  rcases hexits : error.instanceOfSystemExit with _ | _ | _
  · simp
  · rw [Option.bind_some, if_neg Bool.false_ne_true, isSome_completed (by exact trivial)]
    simp
  · rw [Option.bind_some, if_pos rfl]
    rcases hcode : error.code.exitCode with _ | exitCode
    · simp
    · rw [Option.bind_some, isSome_completed (by exact trivial)]
      simp

/-- **What is caught is completed** if and only if the wall clock is steady and it is tolerable. -/
theorem isSome_runCaught (error : Raised) :
    (c.runCaught error).isSome = true ↔ c.caughtFinish.steady = true ∧ Tolerable c error := by
  unfold Course.runCaught Tolerable
  have hterminated := isSome_terminated (c := c) error
  rcases hread : error.instanceOfKeyboardInterrupt with _ | _ | _
  · simp
  · rcases hstop : c.stopOutcome c.timeline.caught true with _ | stopped
    · simpa using hterminated
    · have hcounted := Course.counted_stopOutcome hstop
      simp [isSome_completed hcounted]
  · simpa using hterminated

/-- The error of a completion is tolerable. -/
theorem tolerable_validationError : Tolerable c validationError := .inr ⟨rfl, .inl rfl⟩

/-- **An attempt in process returns if and only if it is armed and completed.** -/
theorem returns_iff : (∃ completed, c.runAttempt = some completed) ↔ Returns c := by
  rw [← Option.isSome_iff_exists]
  unfold Course.runAttempt Returns
  by_cases harmed : c.armed = true
  swap
  · rw [if_neg harmed]
    exact iff_of_false (by simp) fun h => harmed h.1
  rw [if_pos harmed, and_iff_right harmed]
  have hbody := c.comes_runBody
  unfold Comes outcomeOf at hbody
  rw [Course.bodyCompletes]
  rcases hescapes : c.escapes with _ | escaped
  · rw [hescapes] at hbody
    rcases hsteady : c.bodyFinish.steady with _ | _
    · rw [hsteady] at hbody
      rcases hrun : c.runBody with error | completed <;> rw [hrun] at hbody
      · cases hbody
        refine (isSome_runCaught validationError).trans ?_
        simp [tolerable_validationError]
      · cases hbody
    · rw [hsteady] at hbody
      obtain ⟨outcome, hok, -⟩ := hbody
      rcases hrun : c.runBody with error | completed <;> rw [hrun] at hok
      · cases hok
      · exact iff_of_true rfl (.inl rfl)
  · rw [hescapes] at hbody
    rcases hrun : c.runBody with error | completed <;> rw [hrun] at hbody
    · cases hbody
      refine (isSome_runCaught escaped).trans ?_
      simp
    · cases hbody

/-- **An entry point that exits with `True` makes the attempt raise.** -/
theorem exitsTrue_raises :
    ¬ ∃ completed, (attemptOf (hostOf (.ok ()) (.error { isException := false
                                                         isSystemExit := true
                                                         code := .bool true
                                                         message := Text.lit "True" }))
      none).runAttempt = some completed := by
  rintro ⟨_, ⟨⟩⟩

end DrExec.Execution.InProcessReturns
