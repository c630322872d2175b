import DrExec.Execution.Retention
import DrExec.Execution.Spawn
import DrExec.Lib.Transition

/-! # Supervising a payload

An attempt that has reached its payload: `_await_child`, `_tear_down`, the join of the transports
and `_outcome_of`, against the child, the output pump, the protocol reader and the cancellation
token, each of which moves at any moment. `Supervised` is what every interleaving keeps; the outcome
then follows from the stop and from what the transports have when they are joined
(`outcome_reflects_stop`). -/

namespace DrExec.Execution.Supervision

open DrExec.Core.Model DrExec.Lib DrExec.Lib.Transition DrExec.Declarations.Models
open DrExec.Execution.Retention DrExec.Execution.Spawn DrExec.Recording.Outcomes
open DrExec.Runtime.Protocol

/-! ### The parties -/

/-- A thread of `_Transports`. -/
inductive TransportWorker
  | stdin
  | output
  | protocol
  deriving DecidableEq

inductive ThreadState
  | alive
  | ended
  | failed
  deriving DecidableEq

/-- What an attempt is run with; `workers` are the threads that were adopted. -/
structure Terms where
  payloadOutput : OutputBudget
  deadlineNs : Option ℤ := none
  cancellable : Bool := false
  workers : List TransportWorker := [.stdin, .output]
  output_adopted : .output ∈ workers := by decide

/-- `_fails_on_overflow` -/
def failsOnOverflow : OutputBudget → Bool
  | .unbudgeted => false
  | .finite budget => budget.overflowPolicy = .fail

/-- Where the engine is: the checks of `_await_child` in their order, its wait, the steps of
`_tear_down`, the join, and what `_carry_attempt` comes to. -/
inductive Phase
  | poll
  | transports
  | overflow
  | cancellation
  | deadline
  | wait
  | terminate (stop : Option StopReason)
  | reapWithin (stop : Option StopReason)
  | escalate (stop : Option StopReason)
  | reap (stop : Option StopReason)
  | join (stop : Option StopReason)
  | reported (stop : Option StopReason) (outcome : ExecutionOutcome)
  | raised (code : ExecutorFailureCode)
  deriving DecidableEq

/-- An attempt: the engine, the child with its status and with the status it left before the engine
signalled it, `Popen.returncode`, the token, and `_DrainState` with the chunks that were read. -/
structure Attempt where
  phase : Phase := .poll
  exited : Option ℤ := none
  ownExit : Option ℤ := none
  signalled : Bool := false
  returncode : Option ℤ := none
  cancelled : Bool := false
  threads : TransportWorker → ThreadState := fun _ => .alive
  retention : PayloadRetention
  offers : List (PayloadStream × Bytes) := []
  unchecked : Bool := false
  overflow : Bool := false
  protocolResult : Option ProtocolStreamResult := none

def Attempt.start (terms : Terms) : Attempt where
  retention := .forBudget terms.payloadOutput

/-- `ProtocolFailedOutcome(..)` of a result with a failure. -/
def protocolFailure (result : ProtocolStreamResult) :
    Option (ProtocolFailureCode × Text × ℕ) :=
  result.failure.map fun failure =>
    (failure.code, Text.lit failure.detail, result.outputs.length)

/-- What `_outcome_of` reads. -/
def Attempt.carried (a : Attempt) (stop : Option StopReason) (returncode : ℤ) : Carried where
  overflowed := a.retention.overflowed
  stop := stop
  protocolFailure := a.protocolResult.bind protocolFailure
  returncode := returncode

/-! ### Moves -/

/-- What the engine finds when it moves: the monotonic clock, and whether a wait has expired. -/
structure Observation where
  now : ℤ := 0
  expired : Bool := false

inductive Action
  | engine (observation : Observation)
  | exit (status : ℤ)
  | cancel
  | read (stream : PayloadStream) (chunk : Bytes)
  | check
  | result (result : ProtocolStreamResult)
  | finish (worker : TransportWorker)
  | fail (worker : TransportWorker)

variable (terms : Terms)

/-- `transports.failed` -/
def Attempt.transportFailed (a : Attempt) : Bool :=
  terms.workers.any fun worker => a.threads worker = .failed

/-- `Popen.poll`, and a `Popen.wait` that returns. -/
def Attempt.reaped (a : Attempt) : Attempt := { a with returncode := a.exited }

/-- `_Transports.join`, and `_outcome_of` of what the joined threads have left. -/
def Attempt.join (a : Attempt) (stop : Option StopReason) (expired : Bool) : Option Attempt :=
  if terms.workers.any fun worker => a.threads worker = .alive then
    if expired then some { a with phase := .raised .transportJoinTimeout } else none
  else if a.transportFailed terms then some { a with phase := .raised .transportWorkerFailed }
  else a.returncode.map fun returncode =>
    { a with phase := .reported stop (a.carried stop returncode).outcome }

/-- A move of the engine. -/
def Attempt.advance (a : Attempt) (observation : Observation) : Option Attempt :=
  match a.phase with
  | .poll =>
    if a.exited.isSome then some { a.reaped with phase := .terminate none }
    else some { a with phase := .transports }
  | .transports =>
    if a.transportFailed terms then some { a with phase := .terminate none }
    else some { a with phase := .overflow }
  | .overflow =>
    if failsOnOverflow terms.payloadOutput ∧ a.overflow then
      some { a with phase := .terminate (some ⟨some .payloadOutput, false⟩) }
    else some { a with phase := .cancellation }
  | .cancellation =>
    if terms.cancellable ∧ a.cancelled then
      some { a with phase := .terminate (some ⟨none, true⟩) }
    else some { a with phase := .deadline }
  | .deadline =>
    match terms.deadlineNs with
    | some deadlineNs =>
      if deadlineNs - observation.now ≤ 0 then
        some { a with phase := .terminate (some ⟨some .wallTime, false⟩) }
      else some { a with phase := .wait }
    | none => some { a with phase := .wait }
  | .wait =>
    if a.exited.isSome then some { a.reaped with phase := .poll }
    else if observation.expired then some { a with phase := .poll }
    else none
  | .terminate stop => some { a with signalled := true, phase := .reapWithin stop }
  | .reapWithin stop =>
    if a.exited.isSome then some { a.reaped with phase := .reap stop }
    else if observation.expired then some { a with phase := .escalate stop }
    else none
  | .escalate stop => some { a with signalled := true, phase := .reap stop }
  | .reap stop => if a.exited.isSome then some { a.reaped with phase := .join stop } else none
  | .join stop => a.join terms stop observation.expired
  | .reported _ _ => none
  | .raised _ => none

/-- Whether a thread has come to its end: the pump has checked what it offered, and the reader has a
result. -/
def Attempt.mayFinish (a : Attempt) : TransportWorker → Bool
  | .stdin => true
  | .output => !a.unchecked
  | .protocol => a.protocolResult.isSome

/-- Thread `worker` is over. -/
def Attempt.leave (a : Attempt) (worker : TransportWorker) (state : ThreadState) : Attempt :=
  { a with threads := Function.update a.threads worker state }

/-- The child exits, by itself if the engine has not signalled it. -/
def Attempt.die (a : Attempt) (status : ℤ) : Attempt :=
  { a with exited := some status, ownExit := if a.signalled then none else some status }

/-- A move of a party. -/
def step (action : Action) (a : Attempt) : Option Attempt :=
  match action with
  | .engine observation => a.advance terms observation
  | .exit status =>
    if a.exited = none then some (a.die status) else none
  | .cancel => some { a with cancelled := true }
  | .read stream chunk =>
    if a.threads .output = .alive ∧ a.unchecked = false then
      some { a with
        retention := a.retention.offer (stream, chunk)
        offers := a.offers ++ [(stream, chunk)]
        unchecked := true }
    else none
  | .check =>
    if a.threads .output = .alive ∧ a.unchecked then
      some { a with unchecked := false, overflow := a.overflow || a.retention.overflowed }
    else none
  | .result result =>
    if .protocol ∈ terms.workers ∧ a.threads .protocol = .alive ∧ a.protocolResult = none then
      some { a with protocolResult := some result }
    else none
  | .finish worker =>
    if worker ∈ terms.workers ∧ a.threads worker = .alive ∧ a.mayFinish worker then
      some (a.leave worker .ended)
    else none
  | .fail worker =>
    if worker ∈ terms.workers ∧ a.threads worker = .alive then some (a.leave worker .failed)
    else none

/-! ### What a move keeps -/

variable {terms} {a b : Attempt}

theorem transportFailed_iff :
    a.transportFailed terms = true ↔ ∃ worker ∈ terms.workers, a.threads worker = .failed := by
  simp [Attempt.transportFailed]

/-- What a stop was decided on. -/
def Decided (terms : Terms) (a : Attempt) : Option StopReason → Prop
  | some reason =>
    (reason = ⟨some .payloadOutput, false⟩ ∧ a.overflow = true) ∨ reason = ⟨none, true⟩ ∨
      reason = ⟨some .wallTime, false⟩
  | none =>
    (∃ status, a.exited = some status ∧ a.ownExit = some status) ∨ a.transportFailed terms = true

/-- What is never taken back. -/
structure Grows (terms : Terms) (a b : Attempt) : Prop where
  overflow : a.overflow = true → b.overflow = true
  exited : ∀ status, a.exited = some status → b.exited = some status ∧ b.ownExit = a.ownExit
  failed : a.transportFailed terms = true → b.transportFailed terms = true

theorem Decided.grows {stop : Option StopReason} (h : Decided terms a stop)
    (hgrows : Grows terms a b) : Decided terms b stop := by
  cases stop with
  | some reason =>
    rcases h with ⟨hreason, hoverflow⟩ | hreason | hreason
    · exact .inl ⟨hreason, hgrows.overflow hoverflow⟩
    · exact .inr (.inl hreason)
    · exact .inr (.inr hreason)
  | none =>
    rcases h with ⟨status, hexited, hown⟩ | hfailed
    · obtain ⟨hexited', hown'⟩ := hgrows.exited status hexited
      exact .inl ⟨status, hexited', hown'.trans hown⟩
    · exact .inr (hgrows.failed hfailed)

/-- What the engine knows where it is. -/
def Holds (terms : Terms) (a : Attempt) : Phase → Prop
  | .poll | .transports | .overflow | .cancellation | .deadline | .wait => a.signalled = false
  | .terminate stop => a.signalled = false ∧ Decided terms a stop
  | .reapWithin stop | .escalate stop | .reap stop => Decided terms a stop
  | .join stop => Decided terms a stop
  | .reported stop outcome =>
    Decided terms a stop ∧ (∀ worker ∈ terms.workers, a.threads worker = .ended) ∧
      ∃ returncode, a.returncode = some returncode ∧ outcome = (a.carried stop returncode).outcome
  | .raised _ => True

/-- **The invariant.** -/
structure Supervised (terms : Terms) (a : Attempt) : Prop where
  retained : a.retention = (PayloadRetention.forBudget terms.payloadOutput).offerAll a.offers
  flagged : a.overflow = true → a.retention.overflowed = true
  own : a.signalled = false → a.ownExit = a.exited
  reaped : ∀ returncode, a.returncode = some returncode → a.exited = some returncode
  phase : Holds terms a a.phase

theorem supervised_start : Supervised terms (Attempt.start terms) :=
  ⟨rfl, nofun, fun _ => rfl, nofun, rfl⟩

/-- What the engine changes when it moves. -/
structure Advances (terms : Terms) (a b : Attempt) : Prop where
  frame : b = { a with phase := b.phase, signalled := b.signalled, returncode := b.returncode }
  signalled : b.signalled = false → a.signalled = false
  reaped : b.returncode = a.returncode ∨ b.returncode = a.exited
  phase : Holds terms b b.phase

/-- A child found dead before it was signalled died by itself. -/
theorem decided_none (h : Supervised terms a) (hsignalled : a.signalled = false)
    (hexited : a.exited.isSome = true) : Decided terms a none := by
  obtain ⟨status, hstatus⟩ := Option.isSome_iff_exists.mp hexited
  exact .inl ⟨status, hstatus, (h.own hsignalled).trans hstatus⟩

/-- The join, which finds every thread at its end. -/
theorem advances_join {stop : Option StopReason} {expired : Bool} (hdecided : Decided terms a stop)
    (hs : a.join terms stop expired = some b) : Advances terms a b := by
  unfold Attempt.join at hs
  split_ifs at hs with halive hexpired hfailed
  · cases hs
    exact ⟨rfl, id, .inl rfl, trivial⟩
  · cases hs
    exact ⟨rfl, id, .inl rfl, trivial⟩
  · obtain ⟨returncode, hreturncode, rfl⟩ := Option.map_eq_some_iff.mp hs
    refine ⟨rfl, id, .inl rfl, hdecided, fun worker hworker => ?_, returncode, hreturncode, rfl⟩
    cases hstate : a.threads worker with
    | alive => exact absurd (List.any_eq_true.mpr ⟨worker, hworker, by simp [hstate]⟩) halive
    | ended => rfl
    | failed => exact absurd (transportFailed_iff.mpr ⟨worker, hworker, hstate⟩) hfailed

/-- **A move of the engine.** -/
theorem advances {observation : Observation} (h : Supervised terms a)
    (hs : a.advance terms observation = some b) : Advances terms a b := by
  have hphase := h.phase
  unfold Attempt.advance at hs
  split at hs <;> rename_i hat <;> rw [hat] at hphase
  · split_ifs at hs with hexited <;> cases hs
    · have hdecided := decided_none h hphase hexited
      exact ⟨rfl, id, .inr rfl, hphase, hdecided⟩
    · exact ⟨rfl, id, .inl rfl, hphase⟩
  · split_ifs at hs with hfailed <;> cases hs
    · exact ⟨rfl, id, .inl rfl, hphase, .inr hfailed⟩
    · exact ⟨rfl, id, .inl rfl, hphase⟩
  · split_ifs at hs with hoverflow <;> cases hs
    · exact ⟨rfl, id, .inl rfl, hphase, .inl ⟨rfl, hoverflow.2⟩⟩
    · exact ⟨rfl, id, .inl rfl, hphase⟩
  · split_ifs at hs <;> cases hs
    · exact ⟨rfl, id, .inl rfl, hphase, .inr (.inl rfl)⟩
    · exact ⟨rfl, id, .inl rfl, hphase⟩
  · split at hs
    · split_ifs at hs <;> cases hs
      · exact ⟨rfl, id, .inl rfl, hphase, .inr (.inr rfl)⟩
      · exact ⟨rfl, id, .inl rfl, hphase⟩
    · cases hs
      exact ⟨rfl, id, .inl rfl, hphase⟩
  · split_ifs at hs <;> cases hs
    · exact ⟨rfl, id, .inr rfl, hphase⟩
    · exact ⟨rfl, id, .inl rfl, hphase⟩
  · cases hs
    exact ⟨rfl, nofun, .inl rfl, hphase.2⟩
  · split_ifs at hs <;> cases hs
    · exact ⟨rfl, id, .inr rfl, hphase⟩
    · exact ⟨rfl, id, .inl rfl, hphase⟩
  · cases hs
    exact ⟨rfl, nofun, .inl rfl, hphase⟩
  · split_ifs at hs
    cases hs
    exact ⟨rfl, id, .inr rfl, hphase⟩
  · exact advances_join hphase hs
  · cases hs
  · cases hs

theorem Supervised.advance {observation : Observation} (h : Supervised terms a)
    (hs : a.advance terms observation = some b) : Supervised terms b := by
  obtain ⟨hframe, hsignalled, hreaped, hphase⟩ := advances h hs
  rw [hframe] at hsignalled hreaped hphase ⊢
  refine ⟨h.retained, h.flagged, fun hquiet => h.own (hsignalled hquiet), ?_, hphase⟩
  intro returncode hreturncode
  rcases hreaped with hsame | hexit
  · exact h.reaped _ (hsame.symm.trans hreturncode)
  · exact hexit.symm.trans hreturncode

/-! ### The other parties -/

/-- What a move does to the output: nothing, or a check of the budget, or a chunk. -/
def Drains (a b : Attempt) : Prop :=
  (b.offers = a.offers ∧ b.retention = a.retention ∧ b.overflow = a.overflow) ∨
    (b.offers = a.offers ∧ b.retention = a.retention ∧
      b.overflow = (a.overflow || a.retention.overflowed)) ∨
    ∃ offer, b.offers = a.offers ++ [offer] ∧ b.retention = a.retention.offer offer ∧
      b.overflow = a.overflow

/-- What a party other than the engine does and leaves. -/
structure Leaves (terms : Terms) (a b : Attempt) : Prop extends Grows terms a b where
  phase : b.phase = a.phase
  signalled : b.signalled = a.signalled
  returncode : b.returncode = a.returncode
  own : a.signalled = false → a.ownExit = a.exited → b.ownExit = b.exited
  drains : Drains a b
  joined : (∀ worker ∈ terms.workers, a.threads worker = .ended) →
    (∀ worker ∈ terms.workers, b.threads worker = .ended) ∧ b.retention = a.retention ∧
      b.protocolResult = a.protocolResult

theorem Holds.leaves {phase : Phase} (h : Holds terms a phase) (hleaves : Leaves terms a b) :
    Holds terms b phase := by
  cases phase with
  | terminate stop => exact ⟨hleaves.signalled.trans h.1, h.2.grows hleaves.toGrows⟩
  | reapWithin stop | escalate stop | reap stop | join stop =>
    exact Decided.grows h hleaves.toGrows
  | reported stop outcome =>
    obtain ⟨hdecided, hended, returncode, hreturncode, houtcome⟩ := h
    obtain ⟨hended', hretention, hresult⟩ := hleaves.joined hended
    refine ⟨hdecided.grows hleaves.toGrows, hended', returncode,
      hleaves.returncode.trans hreturncode, houtcome.trans ?_⟩
    simp only [Attempt.carried, hretention, hresult]
  | raised code => trivial
  | _ => exact hleaves.signalled.trans h

/-- A thread that comes to an end was not joined, and leaves the failed ones failed. -/
theorem leaves_leave {worker : TransportWorker} {state : ThreadState}
    (hworker : worker ∈ terms.workers) (halive : a.threads worker = .alive) :
    Leaves terms a (a.leave worker state) := by
  refine ⟨⟨id, fun _ hexited => ⟨hexited, rfl⟩, fun hfailed => ?_⟩, rfl, rfl, rfl, fun _ h => h,
    .inl ⟨rfl, rfl, rfl⟩, fun hended => ?_⟩
  · obtain ⟨other, hother, hstate⟩ := transportFailed_iff.mp hfailed
    have hne : other ≠ worker := by
      rintro rfl
      cases halive.symm.trans hstate
    refine transportFailed_iff.mpr ⟨other, hother, ?_⟩
    exact (Function.update_of_ne hne _ _).trans hstate
  · cases halive.symm.trans (hended worker hworker)

theorem leaves_die (hnone : a.exited = none) (status : ℤ) : Leaves terms a (a.die status) := by
  refine ⟨⟨id, fun status hexited => ?_, id⟩, rfl, rfl, rfl, fun hquiet _ => ?_,
    .inl ⟨rfl, rfl, rfl⟩, fun h => ⟨h, rfl, rfl⟩⟩
  · cases hnone.symm.trans hexited
  · simp [Attempt.die, hquiet]

/-- **A move of another party.** -/
theorem leaves_of_step {action : Action} (hs : step terms action a = some b) :
    (∃ observation, action = .engine observation) ∨ Leaves terms a b := by
  have hjoined : ∀ worker ∈ terms.workers, a.threads worker = .alive →
      ¬ ∀ worker ∈ terms.workers, a.threads worker = .ended := fun worker hworker halive hended => by
    cases halive.symm.trans (hended worker hworker)
  cases action with
  | engine observation => exact .inl ⟨observation, rfl⟩
  | exit status =>
    simp only [step] at hs
    split_ifs at hs with hnone
    cases hs
    exact .inr (leaves_die hnone status)
  | cancel =>
    cases hs
    exact .inr ⟨⟨id, fun _ h => ⟨h, rfl⟩, id⟩, rfl, rfl, rfl, fun _ h => h, .inl ⟨rfl, rfl, rfl⟩,
      fun h => ⟨h, rfl, rfl⟩⟩
  | read stream chunk =>
    simp only [step] at hs
    split_ifs at hs with hreads
    cases hs
    exact .inr ⟨⟨id, fun _ h => ⟨h, rfl⟩, id⟩, rfl, rfl, rfl, fun _ h => h,
      .inr (.inr ⟨_, rfl, rfl, rfl⟩), fun h => absurd h (hjoined _ terms.output_adopted hreads.1)⟩
  | check =>
    simp only [step] at hs
    split_ifs at hs with hchecks
    cases hs
    exact .inr ⟨⟨fun h => by simp [h], fun _ h => ⟨h, rfl⟩, id⟩, rfl, rfl, rfl, fun _ h => h,
      .inr (.inl ⟨rfl, rfl, rfl⟩), fun h => absurd h (hjoined _ terms.output_adopted hchecks.1)⟩
  | result result =>
    simp only [step] at hs
    split_ifs at hs with hresult
    cases hs
    exact .inr ⟨⟨id, fun _ h => ⟨h, rfl⟩, id⟩, rfl, rfl, rfl, fun _ h => h, .inl ⟨rfl, rfl, rfl⟩,
      fun h => absurd h (hjoined _ hresult.1 hresult.2.1)⟩
  | finish worker =>
    simp only [step] at hs
    split_ifs at hs with hfinish
    cases hs
    exact .inr (leaves_leave hfinish.1 hfinish.2.1)
  | fail worker =>
    simp only [step] at hs
    split_ifs at hs with hfail
    cases hs
    exact .inr (leaves_leave hfail.1 hfail.2)

/-- The output of a party that moves: the flag stands for an overflow, which no chunk takes back. -/
theorem Supervised.drains (h : Supervised terms a) (hdrains : Drains a b) :
    b.retention = (PayloadRetention.forBudget terms.payloadOutput).offerAll b.offers ∧
      (b.overflow = true → b.retention.overflowed = true) := by
  rcases hdrains with ⟨hoffers, hretention, hoverflow⟩ | ⟨hoffers, hretention, hoverflow⟩ |
    ⟨offer, hoffers, hretention, hoverflow⟩
  · rw [hoffers, hretention, hoverflow]
    exact ⟨h.retained, h.flagged⟩
  · rw [hoffers, hretention, hoverflow]
    refine ⟨h.retained, fun hset => ?_⟩
    rcases Bool.or_eq_true_iff.mp hset with hset | hset
    · exact h.flagged hset
    · exact hset
  · have hall : b.retention = (PayloadRetention.forBudget terms.payloadOutput).offerAll b.offers := by
      rw [hoffers, hretention, offerAll_append, ← h.retained]
      rfl
    refine ⟨hall, fun hset => ?_⟩
    have hbefore := h.flagged (hoverflow ▸ hset)
    rw [h.retained] at hbefore
    rw [hall, hoffers]
    exact overflowed_append [offer] hbefore

/-- **The step.** -/
theorem Supervised.step {action : Action} (h : Supervised terms a)
    (hs : step terms action a = some b) : Supervised terms b := by
  rcases leaves_of_step hs with ⟨observation, rfl⟩ | hleaves
  · exact h.advance hs
  · obtain ⟨hretained, hflagged⟩ := h.drains hleaves.drains
    refine ⟨hretained, hflagged, fun hquiet => ?_, fun returncode hreturncode => ?_, ?_⟩
    · have hquiet := hleaves.signalled ▸ hquiet
      exact hleaves.own hquiet (h.own hquiet)
    · exact (hleaves.exited _ (h.reaped _ (hleaves.returncode ▸ hreturncode))).1
    · rw [hleaves.phase]
      exact h.phase.leaves hleaves

/-- **The run.** -/
theorem supervised_of_reach (hreach : Reachable (step terms) (Attempt.start terms) a) :
    Supervised terms a :=
  hreach.invariant supervised_start fun _ _ _ _ h _ hs => h.step hs

/-! ### The outcome -/

/-- Both streams together produced more than the budget. -/
def Exceeded (terms : Terms) (a : Attempt) : Prop :=
  ∃ output, terms.payloadOutput = .finite output ∧
    (output.maxBytes : ℕ) < (bytesOf .stdout a.offers).length + (bytesOf .stderr a.offers).length

/-- What a stop comes to when the output did not overflow. -/
def stopOutcome (reason : StopReason) : ExecutionOutcome :=
  match reason.axis with
  | some axis => .budgetExceeded axis
  | none => .cancelled true

/-- What an attempt without a stop comes to when the output did not overflow. -/
def freeOutcome (result : Option ProtocolStreamResult) (status : ℤ) : ExecutionOutcome :=
  match result.bind protocolFailure with
  | some (code, detail, accepted) => .protocolFailed code detail accepted
  | none => exitOutcome status

/-- **The outcome reflects the stop.** -/
theorem outcome_reflects_stop (terms : Terms) {a : Attempt}
    (hreach : Reachable (step terms) (Attempt.start terms) a) {stop : Option StopReason}
    {outcome : ExecutionOutcome} (hreported : a.phase = .reported stop outcome) :
    (Exceeded terms a → outcome = .budgetExceeded .payloadOutput) ∧
    (∀ reason, stop = some reason →
      outcome = stopOutcome reason ∨ Exceeded terms a ∧ outcome = .budgetExceeded .payloadOutput) ∧
    (stop = none → ¬ Exceeded terms a →
      ∃ status, a.ownExit = some status ∧ outcome = freeOutcome a.protocolResult status) := by
  have h := supervised_of_reach hreach
  have hphase := h.phase
  rw [hreported] at hphase
  obtain ⟨hdecided, hended, returncode, hreturncode, rfl⟩ := hphase
  have hexceeded : a.retention.overflowed = true ↔ Exceeded terms a := by
    rw [h.retained]
    exact overflowed_iff terms.payloadOutput a.offers
  have houtput : Exceeded terms a →
      (a.carried stop returncode).outcome = .budgetExceeded .payloadOutput := fun h =>
    if_pos (hexceeded.mpr h)
  have hwithin : ¬ Exceeded terms a → (a.carried stop returncode).overflowed = false := fun h =>
    Bool.eq_false_iff.mpr fun hover => h (hexceeded.mp hover)
  refine ⟨houtput, ?_, ?_⟩
  · rintro reason rfl
    by_cases hover : Exceeded terms a
    · exact .inr ⟨hover, houtput hover⟩
    refine .inl ?_
    unfold Carried.outcome
    rw [hwithin hover]
    rcases hdecided with ⟨rfl, hoverflow⟩ | rfl | rfl
    · exact absurd (hexceeded.mp (h.flagged hoverflow)) hover
    · rfl
    · rfl
  · rintro rfl hover
    rcases hdecided with ⟨status, hexited, hown⟩ | hfailed
    · obtain rfl : status = returncode :=
        Option.some.inj (hexited.symm.trans (h.reaped _ hreturncode))
      refine ⟨status, hown, ?_⟩
      unfold Carried.outcome
      rw [hwithin hover]
      rfl
    · obtain ⟨worker, hworker, hstate⟩ := transportFailed_iff.mp hfailed
      cases (hended worker hworker).symm.trans hstate

/-- Two bytes in all may be kept, and the deadline is over. -/
def lateTerms : Terms where
  payloadOutput := .finite
    { maxBytes := 2
      overflowPolicy := .markedTruncation
      retention := ⟨⟨1, 0⟩, ⟨0, 1⟩⟩
      retention_must_match_max_bytes := rfl }
  deadlineNs := some 0

/-- A child that is stopped at its deadline and writes too much while it is torn down. -/
theorem lateOutput_reported :
    ∃ a, Reachable (step lateTerms) (Attempt.start lateTerms) a ∧
      (∃ outcome, a.phase = .reported (some ⟨some .wallTime, false⟩) outcome ∧
        outcome = .budgetExceeded .payloadOutput) := by
  have hreach : Reachable (step lateTerms) (Attempt.start lateTerms) _ :=
    .of_exec ([.engine {}, .engine {}, .engine {}, .engine {}, .engine {}, .engine {},
      .read .stdout [1, 2, 3], .exit (-15), .check, .engine {}, .engine {}, .finish .output,
      .finish .stdin, .engine {}]) (fun _ _ => trivial) rfl
  refine ⟨_, hreach, _, rfl, (outcome_reflects_stop lateTerms hreach rfl).1 ?_⟩
  exact ⟨_, rfl, by decide⟩

end DrExec.Execution.Supervision
