import DrExec.Execution.Supervision
import DrExec.Lib.Custody

/-! # The descriptors of an attempt

The ends of the pipes that `_run_spawned` makes, and who closes each: the function itself, the
`_Transports` object, or the thread that has taken it. The threads end at any moment between their
start and the join of `_Transports.close`, and each step of `_run_spawned` and `_start_transports`
may fail, in every way its handlers tell apart. An end is named by its role; its number may be
reused from the moment it is closed, so a close hits another's descriptor only if the end was closed
before. The steps that leave an end behind are exactly those that `Careful` excludes
(`descriptors_balanced_iff`). -/

namespace DrExec.Execution.AttemptPipes

open DrExec.Execution.Supervision DrExec.Lib.Custody DrExec.Lib.Transition

/-! ### The ends -/

inductive Pipe
  | stdin
  | stdout
  | stderr
  | status
  | release
  | protocol
  | forward
  deriving DecidableEq

inductive Side
  | read
  | write
  deriving DecidableEq

/-- An end of a pipe. -/
structure End where
  pipe : Pipe
  side : Side
  deriving DecidableEq

def Pipe.readEnd (pipe : Pipe) : End := ⟨pipe, .read⟩
def Pipe.writeEnd (pipe : Pipe) : End := ⟨pipe, .write⟩

def Pipe.ends (pipe : Pipe) : List End := [pipe.readEnd, pipe.writeEnd]

/-- What `_run_spawned` reads of its `_ResolvedTarget`. -/
structure Target where
  wantsProtocol : Bool
  hasRequestDigest : Bool
  deriving DecidableEq

/-- The pipes in the order in which they are made. -/
def Target.pipes (target : Target) : List Pipe :=
  [.stdin, .stdout, .stderr, .status, .release] ++
    if target.wantsProtocol then [.protocol, .forward] else []

/-- `child_ends` -/
def Target.childEnds (target : Target) : List End :=
  [Pipe.stdin.readEnd, Pipe.stdout.writeEnd, Pipe.stderr.writeEnd, Pipe.status.writeEnd] ++
    if target.wantsProtocol then [Pipe.protocol.writeEnd] else []

/-- `_ProtocolTransport` -/
structure ProtocolTransport where
  read : End
  forwardRead : Option End
  forwardWrite : Option End
  deriving DecidableEq

/-- The descriptors of `_Transports`. -/
structure Transports where
  stdinWrite : Option End
  stdoutRead : End
  stderrRead : End
  protocol : Option ProtocolTransport
  statusRead : End
  releaseRead : End
  releaseWrite : End
  deriving DecidableEq

def Target.transports (target : Target) : Transports where
  stdinWrite := some Pipe.stdin.writeEnd
  stdoutRead := Pipe.stdout.readEnd
  stderrRead := Pipe.stderr.readEnd
  protocol :=
    if target.wantsProtocol then
      some ⟨Pipe.protocol.readEnd, some Pipe.forward.readEnd, some Pipe.forward.writeEnd⟩
    else none
  statusRead := Pipe.status.readEnd
  releaseRead := Pipe.release.readEnd
  releaseWrite := Pipe.release.writeEnd

def ProtocolTransport.ends (protocol : ProtocolTransport) : List End :=
  protocol.read :: (protocol.forwardRead.toList ++ protocol.forwardWrite.toList)

/-- What `_Transports.close` closes, in its order. -/
def Transports.ends (transports : Transports) : List End :=
  transports.stdinWrite.toList ++
    [transports.stdoutRead, transports.stderrRead, transports.statusRead, transports.releaseRead,
      transports.releaseWrite] ++
    transports.protocol.elim [] ProtocolTransport.ends

/-- `take_stdin`, `take_protocol_forward_write` and `take_protocol_reader`: the descriptor that a
thread takes over, if any, and what is left; `none` when the take raises. -/
def Transports.take (transports : Transports) : TransportWorker → Option (Option End × Transports)
  | .stdin => transports.stdinWrite.map fun taken => (some taken, { transports with stdinWrite := none })
  | .output =>
    match transports.protocol with
    | none => some (none, transports)
    | some protocol => some (protocol.forwardWrite,
        { transports with protocol := some { protocol with forwardWrite := none } })
  | .protocol =>
    transports.protocol.bind fun protocol => protocol.forwardRead.map fun taken =>
      (some taken, { transports with protocol := some { protocol with forwardRead := none } })

/-- The threads that `_start_transports` starts, in its order. -/
def Target.threads (target : Target) : List TransportWorker :=
  [.stdin, .output] ++ if target.wantsProtocol && target.hasRequestDigest then [.protocol] else []

/-! ### The attempt -/

/-- Where `_run_spawned` is: the pipes still to make; before `launch_bootstrap`; in the observation,
with the status unread or with the threads still to start; in `_Transports.close`; left. -/
inductive Point
  | piping (rest : List Pipe)
  | launching
  | observing
  | carrying (rest : List TransportWorker)
  | closing (raises : Bool)
  | ended (raised : Bool)
  deriving DecidableEq

/-- A thread that runs. One whose start was interrupted was not adopted and is not joined. -/
structure Worker where
  descriptor : Option End
  adopted : Bool
  deriving DecidableEq

/-- An attempt: the ends in the variables of `_run_spawned`, its transports, the threads that run,
and the ends whose last holder is gone without having closed them. -/
structure Attempt where
  point : Point
  trace : List (Event End) := []
  locals : List End := []
  transports : Option Transports := none
  workers : List Worker := []
  abandoned : List End := []
  deriving DecidableEq

def Target.begin (target : Target) : Attempt := { point := .piping target.pipes }

inductive LaunchResult
  | returns
  | osError
  | raises
  deriving DecidableEq

inductive ObserveResult
  | setupFailed
  | reached
  | raises
  deriving DecidableEq

/-- How the start of a thread ends: the thread runs; a `RuntimeError` or another exception is raised
and it does not run; or it runs and the wait for it is interrupted. -/
inductive StartResult
  | started
  | runtimeError
  | raises
  | interrupted
  deriving DecidableEq

/-- The steps. A thread `finish`es with its descriptor closed, or fails before the `try` or `with`
that would close it. -/
inductive Action
  | pipe (ok : Bool)
  | prepare
  | launch (result : LaunchResult)
  | observe (result : ObserveResult)
  | start (result : StartResult)
  | carry (raises : Bool)
  | close
  | finish (i : ℕ) (closes : Bool)
  deriving DecidableEq

def closes (ends : List End) : List (Event End) := ends.map .closed

/-- The descriptors that running threads have taken. -/
def taken (workers : List Worker) : List End := workers.filterMap Worker.descriptor

/-- `_adopt_started` once the descriptor is taken. -/
def Attempt.adopt (a : Attempt) (descriptor : Option End) (rest : List TransportWorker) :
    StartResult → Attempt
  | .started => { a with point := .carrying rest, workers := ⟨descriptor, true⟩ :: a.workers }
  | .runtimeError => { a with point := .closing true, trace := a.trace ++ closes descriptor.toList }
  | .raises => { a with point := .closing true, abandoned := descriptor.toList ++ a.abandoned }
  | .interrupted => { a with point := .closing true, workers := ⟨descriptor, false⟩ :: a.workers }

/-- One step of `_run_spawned` or of one of its threads. -/
def step (target : Target) : Action → Attempt → Option Attempt
  | .pipe ok, a =>
    match a.point with
    | .piping (pipe :: rest) =>
      if ok then
        some { a with
          point := .piping rest
          trace := a.trace ++ pipe.ends.map .opened
          locals := a.locals ++ pipe.ends }
      -- there is no handler yet
      else some { a with point := .ended true, locals := [], abandoned := a.locals ++ a.abandoned }
    | _ => none
  | .prepare, a =>
    match a.point with
    | .piping [] => some { a with
        point := .launching
        locals := target.childEnds
        transports := some target.transports }
    | _ => none
  | .launch result, a =>
    match a.point, a.transports with
    | .launching, some transports =>
      match result with
      | .returns => some { a with
          point := .observing
          trace := a.trace ++ closes a.locals
          locals := [] }
      | .osError => some { a with
          point := .closing true
          trace := a.trace ++ closes a.locals
          locals := [] }
      -- the handler is for an OSError only
      | .raises => some { a with
          point := .ended true
          locals := []
          transports := none
          abandoned := a.locals ++ transports.ends ++ a.abandoned }
    | _, _ => none
  | .observe result, a =>
    match a.point with
    | .observing =>
      match result with
      | .setupFailed => some { a with point := .carrying [] }
      | .reached => some { a with point := .carrying target.threads }
      | .raises => some { a with point := .closing true }
    | _ => none
  | .start result, a =>
    match a.point, a.transports with
    | .carrying (thread :: rest), some transports =>
      match transports.take thread with
      | none => some { a with point := .closing true }
      | some (descriptor, left) =>
        some ({ a with transports := some left }.adopt descriptor rest result)
    | _, _ => none
  | .carry raises, a =>
    match a.point with
    | .carrying [] => some { a with point := .closing raises }
    | _ => none
  | .close, a =>
    match a.point, a.transports with
    | .closing raises, some transports =>
      -- every adopted thread is joined first
      if a.workers.any Worker.adopted then none
      else some { a with
        point := .ended raises
        trace := a.trace ++ closes transports.ends
        transports := none }
    | _, _ => none
  | .finish i closed, a =>
    match a.point, a.workers[i]? with
    | .ended _, _ => none
    | _, none => none
    | _, some worker =>
      if closed then some { a with
        trace := a.trace ++ closes worker.descriptor.toList
        workers := a.workers.eraseIdx i }
      else some { a with
        workers := a.workers.eraseIdx i
        abandoned := worker.descriptor.toList ++ a.abandoned }

/-- The descriptor that the next thread would take. -/
def Attempt.nextTaken (a : Attempt) : Option End :=
  match a.point, a.transports with
  | .carrying (thread :: _), some transports => (transports.take thread).bind Prod.fst
  | _, _ => none

/-- A step that leaves no end behind: a pipe fails only while there is no other; the launch fails
with an `OSError`; a thread that does not start raises a `RuntimeError` or takes no descriptor; a
thread gets to the block that closes its descriptor; and none outlives the attempt with one. -/
def Careful : Action → Attempt → Prop
  | .pipe false, a => a.locals = []
  | .launch .raises, _ => False
  | .start .raises, a => a.nextTaken = none
  | .finish i false, a => ∀ worker, a.workers[i]? = some worker → worker.descriptor = none
  | .close, a => taken a.workers = []
  | _, _ => True

instance (action : Action) (a : Attempt) : Decidable (Careful action a) := by
  unfold Careful
  split <;> infer_instance

/-! ### Custody -/

theorem taken_cons (worker : Worker) (workers : List Worker) :
    taken (worker :: workers) = worker.descriptor.toList ++ taken workers := by
  cases h : worker.descriptor <;> simp [taken, h]

/-- A thread that ends gives up its descriptor only. -/
theorem taken_eraseIdx {workers : List Worker} {worker : Worker} {i : ℕ}
    (h : workers[i]? = some worker) :
    (taken workers).Perm (worker.descriptor.toList ++ taken (workers.eraseIdx i)) := by
  obtain ⟨hi, rfl⟩ := List.getElem?_eq_some_iff.mp h
  rw [← taken_cons]
  exact ((List.getElem_cons_eraseIdx_perm hi).symm.filterMap _)

/-- Every end that is held: by a variable, by the transports, by a thread, or by nobody any more. -/
def Attempt.held (a : Attempt) : List End :=
  a.locals ++ a.transports.elim [] Transports.ends ++ taken a.workers ++ a.abandoned

section Take
variable {transports left : Transports} {thread : TransportWorker} {descriptor : Option End}

/-- What a thread takes leaves the transports. -/
theorem Transports.perm_of_take (h : transports.take thread = some (descriptor, left)) :
    transports.ends.Perm (descriptor.toList ++ left.ends) := by
  unfold Transports.take at h
  cases thread with
  | stdin =>
    obtain ⟨e, he, heq⟩ := Option.map_eq_some_iff.mp h
    cases heq
    simp [Transports.ends, he]
  | output =>
    dsimp only at h
    split at h
    · cases h
      exact .rfl
    · rename_i protocol hprotocol
      cases h
      simp only [Transports.ends, hprotocol, Option.elim_some, ProtocolTransport.ends]
      rw [List.perm_iff_count]
      intro e
      simp only [List.count_append, List.count_cons, Option.toList_none, List.count_nil]
      omega
  | protocol =>
    obtain ⟨protocol, hprotocol, h⟩ := Option.bind_eq_some_iff.mp h
    obtain ⟨e, he, heq⟩ := Option.map_eq_some_iff.mp h
    cases heq
    simp only [Transports.ends, hprotocol, Option.elim_some, ProtocolTransport.ends, he]
    rw [List.perm_iff_count]
    intro e'
    simp only [List.count_append, List.count_cons, Option.toList_none, Option.toList_some,
      List.count_nil]
    omega

end Take

/-- What holds at each point: which ends the variables hold, and that there is nothing else yet. -/
def Phase (target : Target) (a : Attempt) : Point → Prop
  | .piping rest => ∃ done, target.pipes = done ++ rest ∧ a.locals = done.flatMap Pipe.ends ∧
      a.trace = a.locals.map .opened ∧ a.transports = none ∧ a.workers = [] ∧ a.abandoned = []
  | .launching => a.locals = target.childEnds ∧ a.workers = []
  | .ended _ => a.locals = [] ∧ a.transports = none
  | _ => a.locals = []

/-- The ends that are left behind, when the function is left. -/
def Attempt.lost (a : Attempt) : List End :=
  match a.point with
  | .ended _ => taken a.workers ++ a.abandoned
  | _ => a.abandoned

/-- Until the function is left, only the abandoned ends are lost. -/
theorem Attempt.lost_iff_of_running {a b : Attempt} (h : ∀ raised, a.point ≠ .ended raised)
    (hpoint : b.point = a.point) : b.lost = [] ↔ b.abandoned = [] := by
  unfold Attempt.lost
  split
  · rename_i raised hended
    exact absurd (hpoint.symm.trans hended) (h raised)
  · rfl

/-- What one step keeps: the custody of every end, the phases, and whether something is lost. -/
structure Stepped (target : Target) (action : Action) (u v : Attempt) : Prop where
  kept : Kept u.trace u.held → Kept v.trace v.held
  phase : Phase target v v.point
  lost : v.lost = [] ↔ u.lost = [] ∧ Careful action u

/-- The ends of the pipes are as many as there are roles. -/
theorem Target.ends_nodup (target : Target) : (target.pipes.flatMap Pipe.ends).Nodup := by
  obtain ⟨wantsProtocol, hasRequestDigest⟩ := target
  cases wantsProtocol <;> cases hasRequestDigest <;> decide

/-- The variables and the transports share out the ends of all pipes. -/
theorem Target.ends_perm (target : Target) :
    (target.pipes.flatMap Pipe.ends).Perm (target.childEnds ++ target.transports.ends) := by
  obtain ⟨wantsProtocol, hasRequestDigest⟩ := target
  cases wantsProtocol <;> cases hasRequestDigest <;> decide

theorem Target.childEnds_ne_nil (target : Target) : target.childEnds ≠ [] := nofun

section Steps
variable {target : Target} {u v : Attempt}

/-- Custody when the ends in `l` are closed and the others change hands. -/
theorem kept_of_perm {l : List End} (htrace : v.trace = u.trace ++ closes l)
    (hperm : u.held.Perm (l ++ v.held)) (h : Kept u.trace u.held) : Kept v.trace v.held := by
  rw [htrace]
  exact (h.perm hperm).closing

/-- Custody when nothing is closed. -/
theorem kept_of_moved (htrace : v.trace = u.trace) (hperm : u.held.Perm v.held)
    (h : Kept u.trace u.held) : Kept v.trace v.held := by
  rw [htrace]
  exact h.perm hperm

theorem pipe_stepped {ok : Bool} (hu : Phase target u u.point)
    (h : step target (.pipe ok) u = some v) : Stepped target (.pipe ok) u v := by
  simp only [step] at h
  split at h
  · rename_i pipe rest hpoint
    rw [hpoint] at hu
    obtain ⟨done, hpipes, hlocals, htrace, htransports, hworkers, habandoned⟩ := hu
    have hsplit : target.pipes = (done ++ [pipe]) ++ rest := by
      rw [hpipes, List.append_assoc, List.singleton_append]
    have hmade : (done ++ [pipe]).flatMap Pipe.ends = u.locals ++ pipe.ends := by
      rw [List.flatMap_append, List.flatMap_singleton, hlocals]
    cases ok with
    | true =>
      cases h
      refine ⟨fun _ => ?_, ⟨done ++ [pipe], hsplit, hmade.symm, ?_, htransports, hworkers, habandoned⟩,
        ?_⟩
      · have hnodup : (u.locals ++ pipe.ends).Nodup := by
          have := target.ends_nodup
          rw [hsplit, List.flatMap_append, hmade] at this
          exact this.sublist (List.sublist_append_left _ _)
        simp only [Attempt.held, htransports, hworkers, habandoned, taken, List.filterMap_nil,
          Option.elim_none, List.append_nil, htrace]
        rw [← List.map_append]
        exact .opening hnodup
      · rw [htrace, List.map_append]
      · simp [Attempt.lost, hpoint, habandoned, Careful]
    | false =>
      cases h
      refine ⟨kept_of_moved rfl ?_, ⟨rfl, htransports⟩, ?_⟩
      · simp [Attempt.held, hworkers, habandoned, taken, htransports]
      · simp [Attempt.lost, hpoint, habandoned, hworkers, taken, Careful]
  · cases h

theorem prepare_stepped (hu : Phase target u u.point) (h : step target .prepare u = some v) :
    Stepped target .prepare u v := by
  simp only [step] at h
  split at h
  · rename_i hpoint
    rw [hpoint] at hu
    obtain ⟨done, hpipes, hlocals, htrace, htransports, hworkers, habandoned⟩ := hu
    cases h
    refine ⟨kept_of_moved rfl ?_, ⟨rfl, hworkers⟩, ?_⟩
    · have hperm := target.ends_perm
      rw [hpipes, List.append_nil, ← hlocals] at hperm
      simpa [Attempt.held, htransports, hworkers, habandoned, taken] using hperm
    · simp [Attempt.lost, hpoint, Careful]
  · cases h

theorem launch_stepped {result : LaunchResult} (hu : Phase target u u.point)
    (h : step target (.launch result) u = some v) : Stepped target (.launch result) u v := by
  simp only [step] at h
  split at h
  · rename_i transports hpoint htransports
    rw [hpoint] at hu
    obtain ⟨hlocals, hworkers⟩ := hu
    have hheld : u.held = u.locals ++ (transports.ends ++ u.abandoned) := by
      simp [Attempt.held, htransports, hworkers, taken]
    cases result with
    | returns =>
      cases h
      refine ⟨kept_of_perm rfl ?_, rfl, ?_⟩
      · rw [hheld]
        simp [Attempt.held, htransports, hworkers, taken]
      · simp [Attempt.lost, hpoint, Careful]
    | osError =>
      cases h
      refine ⟨kept_of_perm rfl ?_, rfl, ?_⟩
      · rw [hheld]
        simp [Attempt.held, htransports, hworkers, taken]
      · simp [Attempt.lost, hpoint, Careful]
    | raises =>
      cases h
      refine ⟨kept_of_moved rfl ?_, ⟨rfl, rfl⟩, ?_⟩
      · rw [hheld]
        simp [Attempt.held, hworkers, taken]
      · simp [Attempt.lost, hpoint, Careful, hlocals, target.childEnds_ne_nil]
  · cases h

theorem observe_stepped {result : ObserveResult} (hu : Phase target u u.point)
    (h : step target (.observe result) u = some v) : Stepped target (.observe result) u v := by
  simp only [step] at h
  split at h
  · rename_i hpoint
    rw [hpoint] at hu
    cases result <;> cases h <;>
      exact ⟨kept_of_moved rfl .rfl, hu, by simp [Attempt.lost, hpoint, Careful]⟩
  · cases h

theorem carry_stepped {raises : Bool} (hu : Phase target u u.point)
    (h : step target (.carry raises) u = some v) : Stepped target (.carry raises) u v := by
  simp only [step] at h
  split at h
  · rename_i hpoint
    rw [hpoint] at hu
    cases h
    exact ⟨kept_of_moved rfl .rfl, hu, by simp [Attempt.lost, hpoint, Careful]⟩
  · cases h

theorem start_stepped {result : StartResult} (hu : Phase target u u.point)
    (h : step target (.start result) u = some v) : Stepped target (.start result) u v := by
  simp only [step] at h
  split at h
  · rename_i thread rest transports hpoint htransports
    rw [hpoint] at hu
    split at h
    · rename_i htake
      cases h
      refine ⟨kept_of_moved rfl .rfl, hu, ?_⟩
      cases result <;> simp [Attempt.lost, hpoint, Careful, Attempt.nextTaken, htransports, htake]
    · rename_i descriptor left htake
      cases h
      have hperm := Transports.perm_of_take htake
      -- the descriptor goes to the thread, to the handler or to nobody
      have hheld : u.held.Perm (descriptor.toList ++
          (u.locals ++ left.ends ++ taken u.workers ++ u.abandoned)) := by
        rw [List.perm_iff_count] at hperm ⊢
        intro e
        have he := hperm e
        simp only [Attempt.held, htransports, Option.elim_some, List.count_append] at he ⊢
        omega
      have htaken : u.nextTaken = descriptor := by
        simp [Attempt.nextTaken, hpoint, htransports, htake]
      have hlocals : u.locals = [] := hu
      cases result with
      | started =>
        refine ⟨kept_of_moved rfl (hheld.trans ?_), hu,
          by simp [Attempt.adopt, Attempt.lost, hpoint, Careful]⟩
        simp only [Attempt.adopt, Attempt.held, Option.elim_some, taken_cons]
        rw [List.perm_iff_count]
        intro e
        simp only [List.count_append]
        omega
      | runtimeError =>
        exact ⟨kept_of_perm rfl hheld, hu, by simp [Attempt.adopt, Attempt.lost, hpoint, Careful]⟩
      | raises =>
        refine ⟨kept_of_moved rfl (hheld.trans ?_), hu, ?_⟩
        · simp only [Attempt.adopt, Attempt.held, Option.elim_some]
          rw [List.perm_iff_count]
          intro e
          simp only [List.count_append]
          omega
        · simp [Attempt.adopt, Attempt.lost, hpoint, Careful, htaken, and_comm]
      | interrupted =>
        refine ⟨kept_of_moved rfl (hheld.trans ?_), hu,
          by simp [Attempt.adopt, Attempt.lost, hpoint, Careful]⟩
        simp only [Attempt.adopt, Attempt.held, Option.elim_some, taken_cons]
        rw [List.perm_iff_count]
        intro e
        simp only [List.count_append]
        omega
  · cases h

theorem close_stepped (hu : Phase target u u.point) (h : step target .close u = some v) :
    Stepped target .close u v := by
  simp only [step] at h
  split at h
  · rename_i raises transports hpoint htransports
    rw [hpoint] at hu
    have hlocals : u.locals = [] := hu
    split at h
    · cases h
    · cases h
      refine ⟨kept_of_perm rfl ?_, ⟨hu, rfl⟩, ?_⟩
      · simp [Attempt.held, htransports, hlocals]
      · simp [Attempt.lost, hpoint, Careful, and_comm]
  · cases h

/-- Threads run only once the variables hold nothing, and their ending does not change that. -/
theorem Phase.of_worker (hu : Phase target u u.point) (hne : u.workers ≠ [])
    (hended : ∀ raised, u.point ≠ .ended raised) (hpoint : v.point = u.point)
    (hlocals : v.locals = u.locals) : Phase target v v.point := by
  rw [hpoint]
  cases hp : u.point with
  | piping rest =>
    rw [hp] at hu
    obtain ⟨-, -, -, -, -, hworkers, -⟩ := hu
    exact absurd hworkers hne
  | launching =>
    rw [hp] at hu
    exact absurd hu.2 hne
  | ended raised => exact absurd hp (hended raised)
  | observing | carrying rest | closing raises =>
    rw [hp] at hu
    exact hlocals.trans hu

theorem finish_stepped {i : ℕ} {closed : Bool} (hu : Phase target u u.point)
    (h : step target (.finish i closed) u = some v) : Stepped target (.finish i closed) u v := by
  simp only [step] at h
  split at h
  · cases h
  · cases h
  · rename_i worker hworker hended
    have hperm := taken_eraseIdx hworker
    have hne : u.workers ≠ [] := by
      rintro he
      rw [he] at hworker
      cases hworker
    cases closed with
    | true =>
      cases h
      refine ⟨kept_of_perm rfl ?_, hu.of_worker hne hended rfl rfl, ?_⟩
      · rw [List.perm_iff_count] at hperm ⊢
        intro e
        have he := hperm e
        simp only [Attempt.held, List.count_append] at he ⊢
        omega
      · refine Iff.trans (Attempt.lost_iff_of_running hended rfl) ?_
        rw [Attempt.lost_iff_of_running hended rfl]
        exact (and_iff_left trivial).symm
    | false =>
      cases h
      refine ⟨kept_of_moved rfl ?_, hu.of_worker hne hended rfl rfl, ?_⟩
      · rw [List.perm_iff_count] at hperm ⊢
        intro e
        have he := hperm e
        simp only [Attempt.held, List.count_append] at he ⊢
        omega
      · refine Iff.trans (Attempt.lost_iff_of_running hended rfl) ?_
        rw [Attempt.lost_iff_of_running hended rfl]
        simp [Careful, hworker, and_comm]

/-- **Every step keeps the custody of every end**, and loses one exactly when it is not careful. -/
theorem stepped {action : Action} (hu : Phase target u u.point) (h : step target action u = some v) :
    Stepped target action u v := by
  cases action with
  | pipe ok => exact pipe_stepped hu h
  | prepare => exact prepare_stepped hu h
  | launch result => exact launch_stepped hu h
  | observe result => exact observe_stepped hu h
  | start result => exact start_stepped hu h
  | carry raises => exact carry_stepped hu h
  | close => exact close_stepped hu h
  | finish i closed => exact finish_stepped hu h

end Steps

/-! ### Runs -/

section Runs
variable {target : Target} {a : Attempt} {ok : Action → Attempt → Prop}

theorem phase_of_reach (h : Reach (step target) ok target.begin a) : Phase target a a.point := by
  refine h.invariant (I := fun a => Phase target a a.point) ?_ fun u action v _ hu _ hs =>
    (stepped hu hs).phase
  exact ⟨[], rfl, rfl, rfl, rfl, rfl, rfl⟩

/-- In every state of a run each end is closed or has one holder. -/
theorem kept_of_reach (h : Reach (step target) ok target.begin a) : Kept a.trace a.held := by
  refine h.invariant (I := fun a => Kept a.trace a.held) (.opening .nil) fun u action v hr hu _ hs => ?_
  exact (stepped (phase_of_reach hr) hs).kept hu

/-- A run loses nothing exactly when all its steps are careful. -/
theorem lost_iff_of_reach (h : Reachable (step target) target.begin a) :
    a.lost = [] ↔ Reach (step target) Careful target.begin a := by
  constructor
  · intro hlost
    induction h with
    | refl => exact .refl
    | tail hr _ hs ih =>
      obtain ⟨hbefore, hcareful⟩ := (stepped (phase_of_reach hr) hs).lost.mp hlost
      exact (ih hbefore).tail hcareful hs
  · intro hrun
    refine hrun.invariant (I := fun a => a.lost = []) rfl fun u action v hr hu hcareful hs => ?_
    exact (stepped (phase_of_reach hr) hs).lost.mpr ⟨hu, hcareful⟩

/-- **Every end is closed exactly once, and never again**, when `_run_spawned` has returned or
raised, exactly if every step of the run was careful. -/
theorem descriptors_balanced_iff {raised : Bool} (h : Reachable (step target) target.begin a)
    (hended : a.point = .ended raised) :
    Balanced a.trace ↔ Reach (step target) Careful target.begin a := by
  have hphase := phase_of_reach h
  rw [hended] at hphase
  have hheld : a.held = a.lost := by
    simp [Attempt.held, Attempt.lost, hended, hphase.1, hphase.2]
  rw [(kept_of_reach h).balanced_iff_nil, hheld]
  exact lost_iff_of_reach h

end Runs

/-- A run in which the output thread cannot be started: the stdin thread is released and joined. -/
def refusedRun : List Action :=
  List.replicate 7 (.pipe true) ++
    [.prepare, .launch .returns, .observe .reached, .start .started, .start .runtimeError,
      .finish 0 true, .close]

def refusedAttempt : Attempt :=
  (exec (step ⟨true, true⟩) refusedRun (Target.begin ⟨true, true⟩)).getD (Target.begin ⟨true, true⟩)

theorem refusedRun_balanced :
    refusedAttempt.point = .ended true ∧ Balanced refusedAttempt.trace := by
  have hrun : Reachable (step ⟨true, true⟩) (Target.begin ⟨true, true⟩) refusedAttempt :=
    .of_exec refusedRun (fun _ _ => trivial) rfl
  have hcareful : Reach (step ⟨true, true⟩) Careful (Target.begin ⟨true, true⟩) refusedAttempt :=
    .of_exec_checked refusedRun rfl
  exact ⟨rfl, (descriptors_balanced_iff hrun rfl).mpr hcareful⟩

/-- **A second pipe that fails leaves the first one open.** -/
theorem failed_pipe_leaks : ∃ a, exec (step ⟨false, false⟩) [.pipe true, .pipe false]
    (Target.begin ⟨false, false⟩) = some a ∧ a.point = .ended true ∧ ¬ Balanced a.trace := by
  refine ⟨_, rfl, rfl, fun hbalanced => ?_⟩
  rcases hbalanced Pipe.stdin.readEnd with h | h <;> exact absurd h (by decide)

end DrExec.Execution.AttemptPipes
