import DrExec.Lib.Transition
import DrExec.Recording.Finalize
import Mathlib.Logic.Relation

/-! # Preparing one job at once

`prepare` of `recording/store.py` by its steps, each of which sees what other calls for the same
`JobId` did to the directory in between; alone it is `prepareEntry` (`alone`). A directory is removed
after two looks at its manifest, and no longer has to be what it was. Calls exclude one another as
long as none removes the directory that another has made and goes on with (`prepares_exclusive`). -/

namespace DrExec.Recording.Store

open DrExec.Core.Identity DrExec.Core.Model DrExec.Core.Scalars DrExec.Declarations.Records
open DrExec.Lib DrExec.Lib.Json DrExec.Lib.Transition DrExec.Recording.Models
open DrExec.Recording.Records DrExec.Runtime.Wire

variable {R : RecordCodec} {jobId : Uuid}

/-! ### Steps -/

/-- A call of `prepare` for the job, and what fails of it. -/
structure Contender (R : RecordCodec) (jobId : Uuid) where
  record : PreparedRecord R
  faults : PrepareFaults
  sameJob : record.declaration.executionId.jobId = jobId

/-- The steps of `_reclaim_unprepared_allocation`. -/
inductive Reclaiming
  | load
  | probe
  | rmtree
  deriving DecidableEq

/-- Where a call is: at its next step of the file system, or over. It reclaims before the second
`mkdir`, and to clean up after a publication that failed. -/
inductive Point (R : RecordCodec)
  | mkdir
  | reclaim (cleanup : Bool) (next : Reclaiming)
  | mkdirAgain
  | openDirectory
  | publish
  | raised (error : StoreError)
  | returned (run : RecordedRun R)

/-- Where a call goes on when it has reclaimed, or kept, what was there. -/
def reclaimed (cleanup : Bool) : Point R :=
  if cleanup then .raised prepareFailure else .mkdirAgain

/-- The failures of either reclaim. -/
def Contender.reclaimFaults (c : Contender R jobId) (cleanup : Bool) : ReclaimFaults :=
  if cleanup then c.faults.cleanup else c.faults.reclaim

/-- `record_dir.mkdir(exist_ok=False)`, which may fail of its own; `present` is where the call goes on
when the path exists. -/
def makeDirectory (fails : Bool) (present : Point R) : Entry → Point R × Entry
  | .absent =>
    if fails then (.raised prepareFailure, .absent) else (.openDirectory, .directory emptyDirectory)
  | entry => (if fails then .raised prepareFailure else present, entry)

variable (E : StoreCodec R)

/-- A step of `_reclaim_unprepared_allocation`. -/
def reclaimStep (faults : ReclaimFaults) (cleanup : Bool) : Reclaiming → Entry → Point R × Entry
  | .load, entry =>
    match loadRecord E faults.load entry with
    | .ok _ => (reclaimed cleanup, entry)
    | .error _ => (.reclaim cleanup .probe, entry)
  | .probe, entry =>
    if (unsupportedLifecycleSchemaVersion E faults.probe entry).isSome then
      (reclaimed cleanup, entry)
    else (.reclaim cleanup .rmtree, entry)
  | .rmtree, .directory _ => (reclaimed cleanup, .absent)
  | .rmtree, entry => (.raised .osError, entry)

/-- `directory.publish(_manifest_payload(record))` -/
def publishStep (fault : Option PublishFault) (record : PreparedRecord R) (entry : Entry) :
    Point R × Entry :=
  match publish E fault (manifestPayload (.prepared record)) entry with
  | (.error _, entry) => (.reclaim true .load, entry)
  | (.ok (), entry) => (.returned (preparedRun E record), entry)

/-- The next step of a call, and what it does to the entry at the record's path. -/
def Contender.step (c : Contender R jobId) : Point R → Entry → Option (Point R × Entry)
  | .mkdir, entry => some (makeDirectory c.faults.mkdir (.reclaim false .load) entry)
  | .reclaim cleanup next, entry => some (reclaimStep E (c.reclaimFaults cleanup) cleanup next entry)
  | .mkdirAgain, entry => some (makeDirectory c.faults.mkdirAgain (.raised prepareFailure) entry)
  | .openDirectory, entry =>
    some (if c.faults.openDirectory then .raised prepareFailure else .publish, entry)
  | .publish, entry => some (publishStep E c.faults.publish c.record entry)
  | .raised _, _ => none
  | .returned _, _ => none

/-! ### A call alone -/

/-- A call that nobody disturbs gets from one point to another. -/
def Leads (c : Contender R jobId) : Point R × Entry → Point R × Entry → Prop :=
  Relation.ReflTransGen fun p q => c.step E p.1 p.2 = some q

/-- Where a call that is over has got to. -/
def endPoint (ended : Except StoreError (RecordedRun R)) : Point R :=
  match ended with
  | .ok run => .returned run
  | .error error => .raised error

variable {E} {c : Contender R jobId}

theorem Leads.step {p q r : Point R × Entry} (hstep : c.step E p.1 p.2 = some q)
    (h : Leads E c q r) : Leads E c p r := Relation.ReflTransGen.head hstep h

theorem leads_reclaim (cleanup : Bool) (entry : Entry) :
    Leads E c (.reclaim cleanup .load, entry)
      (match reclaimUnpreparedAllocation E (c.reclaimFaults cleanup) entry with
        | .ok left => (reclaimed cleanup, left)
        | .error error => (.raised error, entry)) := by
  unfold reclaimUnpreparedAllocation
  rcases hload : loadRecord E (c.reclaimFaults cleanup).load entry with error | record
  · refine Leads.step (q := (.reclaim cleanup .probe, entry))
      (by simp only [Contender.step, reclaimStep, hload]) ?_
    dsimp only
    by_cases hprobe : (unsupportedLifecycleSchemaVersion E (c.reclaimFaults cleanup).probe
        entry).isSome = true
    · rw [if_pos hprobe]
      exact .single (by simp only [Contender.step, reclaimStep, if_pos hprobe])
    · rw [if_neg hprobe]
      refine Leads.step (q := (.reclaim cleanup .rmtree, entry))
        (by simp only [Contender.step, reclaimStep, if_neg hprobe]) ?_
      rcases entry with _ | d | _ <;> exact .single rfl
  · exact .single (by simp only [Contender.step, reclaimStep, hload])

/-- Where a call is when it has allocated, or failed to. -/
def allocatedPoint (allocated : Except StoreError Unit × Entry) : Point R × Entry :=
  match allocated.1 with
  | .ok () => (.publish, allocated.2)
  | .error error => (.raised error, allocated.2)

theorem leads_openDirectory :
    Leads E c (.openDirectory, .directory emptyDirectory)
      (allocatedPoint (openAllocated c.faults)) := by
  unfold openAllocated
  refine .single ?_
  rcases hopen : c.faults.openDirectory with _ | _ <;> simp only [Contender.step, hopen] <;> rfl

/-- The second `mkdir`, of what the reclaim left. -/
def allocateAgain (faults : PrepareFaults) : Entry → Except StoreError Unit × Entry
  | .absent => if faults.mkdirAgain then (.error prepareFailure, .absent) else openAllocated faults
  | entry => (.error prepareFailure, entry)

theorem leads_mkdirAgain (entry : Entry) :
    Leads E c (.mkdirAgain, entry) (allocatedPoint (allocateAgain c.faults entry)) := by
  rcases hagain : c.faults.mkdirAgain with _ | _
  · rcases entry with _ | d | _
    · unfold allocateAgain
      rw [hagain]
      exact Leads.step (q := (.openDirectory, .directory emptyDirectory))
        (by simp only [Contender.step, hagain]; rfl) leads_openDirectory
    · exact .single (by simp only [Contender.step, hagain]; rfl)
    · exact .single (by simp only [Contender.step, hagain]; rfl)
  · refine .single ?_
    rcases entry with _ | d | _ <;> simp only [Contender.step, allocateAgain, hagain] <;> rfl

theorem allocate_present {faults : PrepareFaults} {entry : Entry} (hmkdir : faults.mkdir = false)
    (hentry : entry ≠ .absent) :
    allocate E faults entry =
      match reclaimUnpreparedAllocation E faults.reclaim entry with
      | .error error => (.error error, entry)
      | .ok left => allocateAgain faults left := by
  unfold allocate
  rw [if_neg (by rw [hmkdir]; exact Bool.false_ne_true)]
  rcases entry with _ | d | _
  · exact absurd rfl hentry
  · dsimp only
    rcases reclaimUnpreparedAllocation E faults.reclaim (.directory d) with error | left | d' | _ <;>
      rfl
  · dsimp only
    rcases reclaimUnpreparedAllocation E faults.reclaim .other with error | left | d' | _ <;> rfl

theorem leads_allocate (entry : Entry) :
    Leads E c (.mkdir, entry) (allocatedPoint (allocate E c.faults entry)) := by
  rcases hmkdir : c.faults.mkdir with _ | _
  swap
  · unfold allocate
    rw [if_pos hmkdir]
    refine .single ?_
    rcases entry with _ | d | _ <;> simp only [Contender.step, hmkdir] <;> rfl
  by_cases habsent : entry = .absent
  · unfold allocate
    rw [habsent, if_neg (by rw [hmkdir]; exact Bool.false_ne_true)]
    exact Leads.step (q := (.openDirectory, .directory emptyDirectory))
      (by simp only [Contender.step, hmkdir]; rfl) leads_openDirectory
  have hstart : c.step E .mkdir entry = some (.reclaim false .load, entry) := by
    rcases entry with _ | d | _
    · exact absurd rfl habsent
    · simp only [Contender.step, hmkdir]
      rfl
    · simp only [Contender.step, hmkdir]
      rfl
  have hreclaim := leads_reclaim (E := E) (c := c) false entry
  rw [allocate_present hmkdir habsent]
  refine .step hstart (hreclaim.trans ?_)
  change Leads E c (match reclaimUnpreparedAllocation E c.faults.reclaim entry with
    | .ok left => (.mkdirAgain, left)
    | .error error => (.raised error, entry)) _
  rcases reclaimUnpreparedAllocation E c.faults.reclaim entry with error | left
  · exact .refl
  · exact leads_mkdirAgain left

/-- **A call alone** does what `prepareEntry` does. -/
theorem alone (entry : Entry) :
    Leads E c (.mkdir, entry)
      (endPoint (prepareEntry E c.faults c.record entry).1,
        (prepareEntry E c.faults c.record entry).2) := by
  refine (leads_allocate entry).trans ?_
  unfold prepareEntry
  rcases allocate E c.faults entry with ⟨error | ⟨⟩, left⟩
  · exact .refl
  dsimp only [allocatedPoint]
  rcases hpublish : publish E c.faults.publish (manifestPayload (.prepared c.record)) left with
    ⟨error | ⟨⟩, left'⟩
  · have hreclaim := leads_reclaim (E := E) (c := c) true left'
    refine Leads.step (q := (.reclaim true .load, left'))
      (by simp only [Contender.step, publishStep, hpublish]) (hreclaim.trans ?_)
    change Leads E c (match reclaimUnpreparedAllocation E c.faults.cleanup left' with
      | .ok left => (.raised prepareFailure, left)
      | .error error => (.raised error, left')) _
    dsimp only
    rcases reclaimUnpreparedAllocation E c.faults.cleanup left' with error | left
    · exact .refl
    · exact .refl
  · exact .single (by simp only [Contender.step, publishStep, hpublish]; rfl)

/-! ### Calls together -/

/-- The call has made the directory that it is to publish in, or has returned. -/
def Holds : Point R → Prop
  | .openDirectory | .publish | .returned _ => True
  | _ => False

theorem holds_cases {p : Point R} (h : Holds p) :
    p = .openDirectory ∨ p = .publish ∨ ∃ run, p = .returned run := by
  cases p with
  | openDirectory => exact .inl rfl
  | publish => exact .inr (.inl rfl)
  | returned run => exact .inr (.inr ⟨run, rfl⟩)
  | mkdir | reclaim | mkdirAgain | raised => exact h.elim

theorem not_holds_reclaimed (cleanup : Bool) : ¬ Holds (reclaimed cleanup : Point R) := by
  cases cleanup <;> exact id

/-- **What a step can do**: make the directory, remove it, or leave it there or away. -/
inductive Stepped (p : Point R) (entry : Entry) : Point R → Entry → Prop
  | made (habsent : entry = .absent) : Stepped p entry .openDirectory (.directory emptyDirectory)
  | removed (cleanup : Bool) (d : Directory) (hp : p = .reclaim cleanup .rmtree)
      (hd : entry = .directory d) : Stepped p entry (reclaimed cleanup) .absent
  | left (p' : Point R) (entry' : Entry) (hholds : Holds p' → Holds p)
      (hentry : entry' = entry ∨ ∃ d d', entry = .directory d ∧ entry' = .directory d') :
      Stepped p entry p' entry'

theorem stepped_makeDirectory (p : Point R) (fails : Bool) {present : Point R}
    (hpresent : ¬ Holds present) (entry : Entry) :
    Stepped p entry (makeDirectory fails present entry).1 (makeDirectory fails present entry).2 := by
  rcases entry with _ | d | _
  · rcases fails with _ | _
    · exact .made rfl
    · exact .left _ _ False.elim (.inl rfl)
  · refine .left _ _ (fun h => ?_) (.inl rfl)
    rcases fails with _ | _
    · exact absurd h hpresent
    · exact h.elim
  · refine .left _ _ (fun h => ?_) (.inl rfl)
    rcases fails with _ | _
    · exact absurd h hpresent
    · exact h.elim

theorem stepped_reclaim (faults : ReclaimFaults) (cleanup : Bool) (next : Reclaiming)
    (entry : Entry) :
    Stepped (.reclaim cleanup next) entry (reclaimStep E faults cleanup next entry).1
      (reclaimStep E faults cleanup next entry).2 := by
  have hreclaimed : Holds (reclaimed cleanup : Point R) → Holds (.reclaim cleanup next : Point R) :=
    fun h => absurd h (not_holds_reclaimed cleanup)
  cases next with
  | load =>
    rw [reclaimStep]
    rcases loadRecord E faults.load entry with error | record
    · exact .left _ _ id (.inl rfl)
    · exact .left _ _ hreclaimed (.inl rfl)
  | probe =>
    rw [reclaimStep]
    split_ifs
    · exact .left _ _ hreclaimed (.inl rfl)
    · exact .left _ _ id (.inl rfl)
  | rmtree =>
    rcases entry with _ | d | _
    · exact .left _ _ id (.inl rfl)
    · exact .removed cleanup d rfl rfl
    · exact .left _ _ id (.inl rfl)

theorem stepped_publish (fault : Option PublishFault) (record : PreparedRecord R) (entry : Entry) :
    Stepped .publish entry (publishStep E fault record entry).1
      (publishStep E fault record entry).2 := by
  have hleft : (publishStep E fault record entry).2 =
      (publish E fault (manifestPayload (.prepared record)) entry).2 := by
    unfold publishStep
    rcases publish E fault (manifestPayload (.prepared record)) entry with ⟨error | ⟨⟩, left⟩ <;> rfl
  refine .left _ _ (fun _ => trivial) ?_
  rw [hleft]
  rcases entry with _ | d | _
  · exact .inl rfl
  · right
    rcases publish_directory (E := E) fault (manifestPayload (.prepared record)) d with
      ⟨e, hpublish⟩ | ⟨bytes, -, -, hpublish⟩
    · exact ⟨d, d, rfl, by rw [hpublish]⟩
    · exact ⟨d, _, rfl, hpublish⟩
  · exact .inl rfl

theorem Contender.stepped {p p' : Point R} {entry entry' : Entry}
    (h : c.step E p entry = some (p', entry')) : Stepped p entry p' entry' := by
  cases p with
  | mkdir =>
    obtain ⟨rfl, rfl⟩ := Prod.mk.inj (Option.some.inj h)
    exact stepped_makeDirectory _ _ id entry
  | reclaim cleanup next =>
    obtain ⟨rfl, rfl⟩ := Prod.mk.inj (Option.some.inj h)
    exact stepped_reclaim _ cleanup next entry
  | mkdirAgain =>
    obtain ⟨rfl, rfl⟩ := Prod.mk.inj (Option.some.inj h)
    exact stepped_makeDirectory _ _ id entry
  | openDirectory =>
    obtain ⟨rfl, rfl⟩ := Prod.mk.inj (Option.some.inj h)
    exact .left _ _ (fun _ => trivial) (.inl rfl)
  | publish =>
    obtain ⟨rfl, rfl⟩ := Prod.mk.inj (Option.some.inj h)
    exact stepped_publish _ _ entry
  | raised error => cases h
  | returned run => cases h

/-- The entry at the path of the job's record, which call made the directory that is there, and where
each call is. -/
structure Preparing (R : RecordCodec) (Caller : Type) where
  entry : Entry
  maker : Option Caller
  point : Caller → Point R

namespace Preparing

variable {Caller : Type}

/-- Calls that begin. -/
def begin (entry : Entry) : Preparing R Caller :=
  { entry, maker := none, point := fun _ => .mkdir }

/-- Who made the directory after a step of a call. -/
def nextMaker (maker : Option Caller) (i : Caller) : Entry → Entry → Option Caller
  | .absent, .directory _ => some i
  | _, .absent => none
  | _, _ => maker

variable (E) in
/-- A step of one of the calls. -/
def step [DecidableEq Caller] (calls : Caller → Contender R jobId) (i : Caller) (w : Preparing R Caller) :
    Option (Preparing R Caller) :=
  ((calls i).step E (w.point i) w.entry).map fun (point, entry) =>
    { entry
      maker := nextMaker w.maker i w.entry entry
      point := Function.update w.point i point }

/-- A call does not remove the directory that another call has made and holds. -/
def Clean (i : Caller) (w : Preparing R Caller) : Prop :=
  ∀ cleanup, w.point i = .reclaim cleanup .rmtree →
    ∀ j ≠ i, w.maker = some j → ¬ Holds (w.point j)

/-- At most one call has returned, and the directory that it made is there. -/
structure Exclusive (w : Preparing R Caller) : Prop where
  one : ∀ i j run run', w.point i = .returned run → w.point j = .returned run' → i = j
  kept : ∀ i run, w.point i = .returned run → w.maker = some i ∧ ∃ d, w.entry = .directory d

/-- What clean steps keep: who holds a directory made the one that is there. -/
structure Held (w : Preparing R Caller) : Prop where
  holds : ∀ i, Holds (w.point i) → w.maker = some i
  made : ∀ i, w.maker = some i → ∃ d, w.entry = .directory d

theorem Held.exclusive {w : Preparing R Caller} (h : Held w) : Exclusive w where
  one i j run run' hi hj := by
    have hmaker := h.holds i (by rw [hi]; trivial)
    rw [h.holds j (by rw [hj]; trivial)] at hmaker
    exact (Option.some.inj hmaker).symm
  kept i run hi := by
    have hmaker := h.holds i (by rw [hi]; trivial)
    exact ⟨hmaker, h.made i hmaker⟩

/-- Calls that begin hold nothing. -/
theorem held_begin (entry : Entry) : Held (begin entry : Preparing R Caller) :=
  ⟨fun _ h => h.elim, nofun⟩

/-- Where nothing is removed or made, the maker stays. -/
theorem Held.nextMaker {w : Preparing R Caller} (h : Held w) (i : Caller) {entry : Entry}
    (hentry : entry = w.entry ∨ ∃ d d', w.entry = .directory d ∧ entry = .directory d') :
    nextMaker w.maker i w.entry entry = w.maker := by
  rcases hentry with rfl | ⟨d, d', hd, rfl⟩
  · rcases hmaker : w.maker with _ | j
    · rcases w.entry with _ | d | _ <;> rfl
    · obtain ⟨d, hd⟩ := h.made j hmaker
      rw [hd]
      rfl
  · rw [hd]
    rfl

variable [DecidableEq Caller] {calls : Caller → Contender R jobId}

/-- **A clean step keeps the directory of who holds it.** -/
theorem Held.step {w w' : Preparing R Caller} {i : Caller} (h : Held w) (hclean : Clean i w)
    (hstep : Preparing.step E calls i w = some w') : Held w' := by
  obtain ⟨⟨p, entry⟩, hp, rfl⟩ := Option.map_eq_some_iff.mp hstep
  cases Contender.stepped hp with
  | made habsent =>
    -- nobody holds a directory that is not there
    have hnone : ∀ j, ¬ Holds (w.point j) := by
      intro j hj
      obtain ⟨d, hd⟩ := h.made j (h.holds j hj)
      cases habsent.symm.trans hd
    rw [habsent]
    refine ⟨fun j hj => ?_, fun j _ => ⟨_, rfl⟩⟩
    by_cases hji : j = i
    · rw [hji]
      rfl
    · dsimp only at hj
      rw [Function.update_of_ne hji] at hj
      exact absurd hj (hnone j)
  | removed cleanup d hpoint hd =>
    rw [hd]
    refine ⟨fun j hj => ?_, nofun⟩
    dsimp only at hj
    by_cases hji : j = i
    · rw [hji, Function.update_self] at hj
      exact absurd hj (not_holds_reclaimed cleanup)
    · rw [Function.update_of_ne hji] at hj
      exact absurd hj (hclean cleanup hpoint j hji (h.holds j hj))
  | left _ _ hholds hentry =>
    dsimp only
    rw [h.nextMaker i hentry]
    refine ⟨fun j hj => ?_, fun j hj => ?_⟩
    · dsimp only at hj
      by_cases hji : j = i
      · rw [hji, Function.update_self] at hj
        rw [hji]
        exact h.holds i (hholds hj)
      · rw [Function.update_of_ne hji] at hj
        exact h.holds j hj
    · rcases hentry with rfl | ⟨-, d', -, rfl⟩
      · exact h.made j hj
      · exact ⟨d', rfl⟩

theorem held_of_reach {entry : Entry} {w : Preparing R Caller}
    (h : Reach (Preparing.step E calls) Clean (begin entry) w) : Held w :=
  h.invariant (held_begin entry) fun _ _ _ _ hu hclean hs => hu.step hclean hs

/-- A step, by the one of the call. -/
theorem step_of {w : Preparing R Caller} {i : Caller} {p : Point R} {entry : Entry}
    (h : (calls i).step E (w.point i) w.entry = some (p, entry)) :
    Preparing.step E calls i w =
      some ⟨entry, Preparing.nextMaker w.maker i w.entry entry, Function.update w.point i p⟩ := by
  rw [Preparing.step, h]
  rfl

/-! ### A directory that is removed from under a call -/

/-- A call of which nothing fails. -/
structure Unfailing (E : StoreCodec R) (c : Contender R jobId) : Prop where
  faults : c.faults = {}
  publishes : ∃ bytes, E.publishManifest (manifestPayload (.prepared c.record)) = .ok bytes

theorem Unfailing.publish {c : Contender R jobId} (h : Unfailing E c) (d : Directory) :
    ∃ d', c.step E .publish (.directory d) =
      some (.returned (preparedRun E c.record), .directory d') := by
  obtain ⟨bytes, hbytes⟩ := h.publishes
  refine ⟨d.withManifest bytes, ?_⟩
  simp only [Contender.step, publishStep, h.faults, Store.publish, hbytes]

/-- A call that is to publish returns, whoever made the directory. -/
theorem returns_of_publish {w : Preparing R Caller} {i : Caller} {d : Directory}
    (hd : w.entry = .directory d) (hi : w.point i = .publish) (h : Unfailing E (calls i)) :
    ∃ d' maker run, Reachable (Preparing.step E calls) w
      ⟨.directory d', maker, Function.update w.point i (.returned run)⟩ := by
  obtain ⟨d', hpublish⟩ := h.publish d
  rw [← hi, ← hd] at hpublish
  exact ⟨d', _, _, .single trivial (step_of hpublish)⟩

/-- A call that has made its directory returns, whoever made the one that is there. -/
theorem returns_of_holds {w : Preparing R Caller} {i : Caller} {d : Directory}
    (hd : w.entry = .directory d) (hi : Holds (w.point i)) (h : Unfailing E (calls i)) :
    ∃ d' maker run, Reachable (Preparing.step E calls) w
      ⟨.directory d', maker, Function.update w.point i (.returned run)⟩ := by
  rcases holds_cases hi with hpoint | hpoint | ⟨run, hpoint⟩
  · have hopen : (calls i).step E (w.point i) w.entry = some (.publish, .directory d) := by
      rw [hpoint, hd]
      simp only [Contender.step, h.faults]
      rfl
    obtain ⟨d', maker, run, hreturns⟩ := returns_of_publish (w := ⟨.directory d,
      Preparing.nextMaker w.maker i w.entry (.directory d), Function.update w.point i .publish⟩)
      rfl (Function.update_self ..) h
    rw [Function.update_idem] at hreturns
    exact ⟨d', maker, run, (Reach.single trivial (step_of hopen)).trans hreturns⟩
  · exact returns_of_publish hd hpoint h
  · refine ⟨d, w.maker, run, ?_⟩
    rw [← hd, ← hpoint, Function.update_eq_self]
    exact .refl

/-- **A directory that is removed from under a call** costs the exclusion, if nothing fails: both
calls can go on until they have returned. -/
theorem both_return {w : Preparing R Caller} {i j : Caller} {d : Directory}
    (hd : w.entry = .directory d) (hi : w.point i = .reclaim false .rmtree) (hij : j ≠ i)
    (hj : Holds (w.point j)) (hcalls : ∀ k, Unfailing E (calls k)) :
    ∃ t run run', Reachable (Preparing.step E calls) w t ∧ t.point i = .returned run ∧
      t.point j = .returned run' := by
  -- `i` removes the directory and makes it again
  have hremove : (calls i).step E (w.point i) w.entry = some (.mkdirAgain, .absent) := by
    rw [hi, hd]
    rfl
  have hmake : (calls i).step E (Function.update w.point i .mkdirAgain i) .absent =
      some (.openDirectory, .directory emptyDirectory) := by
    rw [Function.update_self]
    simp only [Contender.step, (hcalls i).faults]
    rfl
  let w₁ : Preparing R Caller :=
    ⟨.directory emptyDirectory, some i, Function.update w.point i .openDirectory⟩
  have hagain : Reachable (Preparing.step E calls) w w₁ := by
    have hsteps : Reachable (Preparing.step E calls) w _ :=
      (Reach.single trivial (step_of hremove)).tail trivial (step_of hmake)
    rw [Function.update_idem] at hsteps
    exact hsteps
  have hj₁ : Holds (w₁.point j) := by
    rw [show w₁.point j = w.point j from Function.update_of_ne hij _ _]
    exact hj
  obtain ⟨d₁, maker₁, run', hfirst⟩ := returns_of_holds rfl hj₁ (hcalls j)
  let w₂ : Preparing R Caller :=
    ⟨.directory d₁, maker₁, Function.update w₁.point j (.returned run')⟩
  have hi₂ : Holds (w₂.point i) := by
    rw [show w₂.point i = w₁.point i from Function.update_of_ne hij.symm _ _,
      show w₁.point i = .openDirectory from Function.update_self ..]
    trivial
  obtain ⟨d₂, maker₂, run, hsecond⟩ := returns_of_holds rfl hi₂ (hcalls i)
  refine ⟨_, run, run', (hagain.trans hfirst).trans hsecond, Function.update_self .., ?_⟩
  exact (Function.update_of_ne hij _ _).trans (Function.update_self ..)

/-- No call cleans up after a publication. -/
def Uncleaned (w : Preparing R Caller) : Prop := ∀ i next, w.point i ≠ .reclaim true next

/-- A reclaim that does not clean up does not begin to. -/
theorem not_cleanup_reclaim (faults : ReclaimFaults) (next : Reclaiming) (entry : Entry)
    (next' : Reclaiming) : (reclaimStep E faults false next entry).1 ≠ .reclaim true next' := by
  cases next with
  | load =>
    rw [reclaimStep]
    rcases loadRecord E faults.load entry with error | record <;> nofun
  | probe =>
    rw [reclaimStep]
    split_ifs <;> nofun
  | rmtree => cases entry <;> nofun

/-- A call of which nothing fails, that holds its directory, does not begin to clean up. -/
theorem not_cleanup {c : Contender R jobId} (h : Unfailing E c) {p p' : Point R}
    {entry entry' : Entry} (hstep : c.step E p entry = some (p', entry'))
    (hp : ∀ next, p ≠ .reclaim true next) (hpublish : p = .publish → ∃ d, entry = .directory d)
    (next : Reclaiming) : p' ≠ .reclaim true next := by
  cases p with
  | mkdir =>
    obtain ⟨rfl, rfl⟩ := Prod.mk.inj (Option.some.inj hstep)
    rw [h.faults]
    cases entry <;> nofun
  | reclaim cleanup next' =>
    cases cleanup with
    | true => exact absurd rfl (hp next')
    | false =>
      obtain ⟨rfl, -⟩ := Prod.mk.inj (Option.some.inj hstep)
      exact not_cleanup_reclaim _ next' entry next
  | mkdirAgain =>
    obtain ⟨rfl, rfl⟩ := Prod.mk.inj (Option.some.inj hstep)
    rw [h.faults]
    cases entry <;> nofun
  | openDirectory =>
    obtain ⟨rfl, -⟩ := Prod.mk.inj (Option.some.inj hstep)
    rw [h.faults]
    nofun
  | publish =>
    obtain ⟨d, rfl⟩ := hpublish rfl
    obtain ⟨d', hreturned⟩ := h.publish d
    obtain ⟨rfl, -⟩ := Prod.mk.inj (Option.some.inj (hstep.symm.trans hreturned))
    nofun
  | raised error => cases hstep
  | returned run => cases hstep

theorem uncleaned_of_reach (hcalls : ∀ k, Unfailing E (calls k)) {entry : Entry}
    {w : Preparing R Caller} (h : Reach (Preparing.step E calls) Clean (begin entry) w) :
    Uncleaned w := by
  refine h.invariant (fun i next => nofun) fun u i v hu huncleaned _ hstep => ?_
  obtain ⟨⟨p, left⟩, hp, rfl⟩ := Option.map_eq_some_iff.mp hstep
  intro j next
  dsimp only
  by_cases hji : j = i
  · rw [hji, Function.update_self]
    refine not_cleanup (hcalls i) hp (huncleaned i) (fun hpublish => ?_) next
    have hheld := held_of_reach hu
    exact hheld.made i (hheld.holds i (by rw [hpublish]; trivial))
  · rw [Function.update_of_ne hji]
    exact huncleaned j next

end Preparing

/-! ### Exclusion -/

section Exclusion

variable {Caller : Type} [DecidableEq Caller] {calls : Caller → Contender R jobId}

open Preparing

/-- Where nothing is there, a second call comes to remove what the first has made. -/
theorem comes_to_remove (hE : E.ReadsBack) (hcalls : ∀ k, Unfailing E (calls k)) {i j : Caller}
    (hij : j ≠ i) : ∃ w, Reach (Preparing.step E calls) Clean (begin .absent) w ∧ ¬ Clean i w := by
  obtain ⟨error, herror⟩ := loadRecord_empty hE none
  have hprobe := unsupported_empty hE none
  -- the state in which `j` has made its directory, and `i` is at a point
  let made (p : Point R) : Preparing R Caller := ⟨.directory emptyDirectory, some j,
    Function.update (Function.update (fun _ => .mkdir) j .openDirectory) i p⟩
  have hmade : Preparing.step E calls j (begin .absent) = some (made .mkdir) := by
    have hstep : (calls j).step E ((begin .absent : Preparing R Caller).point j) .absent =
        some (.openDirectory, .directory emptyDirectory) := by
      simp only [begin, Contender.step, (hcalls j).faults]
      rfl
    rw [step_of hstep]
    refine congrArg (fun point => some (Preparing.mk _ (some j) point)) ?_
    rw [Function.update_comm hij, Function.update_eq_self i]
    rfl
  have hgoes : ∀ p q : Point R,
      (calls i).step E p (.directory emptyDirectory) = some (q, .directory emptyDirectory) →
      Preparing.step E calls i (made p) = some (made q) := by
    intro p q hstep
    have hp : (made p).point i = p := Function.update_self ..
    rw [← hp] at hstep
    rw [step_of hstep]
    refine congrArg (fun point => some (Preparing.mk _ (some j) point)) ?_
    exact Function.update_idem ..
  have hclean : ∀ p : Point R, p ≠ .reclaim false .rmtree → p ≠ .reclaim true .rmtree →
      Clean i (made p) := by
    intro p hfalse htrue cleanup hpoint
    rw [show (made p).point i = p from Function.update_self ..] at hpoint
    cases cleanup with
    | false => exact absurd hpoint hfalse
    | true => exact absurd hpoint htrue
  have hload : (calls i).reclaimFaults false = {} := by
    rw [Contender.reclaimFaults, (hcalls i).faults]
    rfl
  refine ⟨made (.reclaim false .rmtree), ?_, fun h => ?_⟩
  · refine .tail (.tail (.tail (.single ?_ hmade)
      (hclean .mkdir nofun nofun) (hgoes .mkdir (.reclaim false .load) ?_))
      (hclean (.reclaim false .load) nofun nofun)
        (hgoes (.reclaim false .load) (.reclaim false .probe) ?_))
      (hclean (.reclaim false .probe) nofun nofun) (hgoes _ _ ?_)
    · exact fun _ => nofun
    · simp only [Contender.step, (hcalls i).faults]
      rfl
    · simp only [Contender.step, hload, reclaimStep, herror]
    · simp only [Contender.step, hload, reclaimStep, hprobe, Option.isSome_none,
        Bool.false_eq_true, if_false]
  · refine h false (Function.update_self ..) j hij rfl ?_
    rw [show (made (.reclaim false .rmtree)).point j = .openDirectory from
      (Function.update_of_ne hij _ _).trans (Function.update_self ..)]
    trivial

/-- **Prepares of one job exclude one another** exactly as long as no call removes the directory
that another has made and goes on with: until then at most one has returned, and its directory is
there; from such a step on, if nothing fails, two calls can return. Where nothing was there, any
two calls can come to such a step. -/
theorem prepares_exclusive (hE : E.ReadsBack) :
    (∀ entry w, Reach (Preparing.step E calls) Clean (begin entry) w → Exclusive w) ∧
      ((∀ k, Unfailing E (calls k)) →
        (∀ entry w i, Reach (Preparing.step E calls) Clean (begin entry) w → ¬ Clean i w →
          ∃ t j run run', j ≠ i ∧ Reachable (Preparing.step E calls) w t ∧
            t.point i = .returned run ∧ t.point j = .returned run') ∧
        ∀ i j, j ≠ i → ∃ w, Reach (Preparing.step E calls) Clean (begin .absent) w ∧
          ¬ Clean i w) := by
  refine ⟨fun entry w h => (held_of_reach h).exclusive, fun hcalls => ⟨?_, ?_⟩⟩
  · intro entry w i h hunclean
    unfold Clean at hunclean
    push Not at hunclean
    obtain ⟨cleanup, hi, j, hij, hmaker, hj⟩ := hunclean
    obtain rfl : cleanup = false := by
      rcases cleanup with _ | _
      · rfl
      · exact absurd hi (uncleaned_of_reach hcalls h i _)
    obtain ⟨d, hd⟩ := (held_of_reach h).made j hmaker
    obtain ⟨t, run, run', ht, hreturns⟩ := both_return hd hi hij hj hcalls
    exact ⟨t, j, run, run', hij, ht, hreturns⟩
  · exact fun i j hij => comes_to_remove hE hcalls hij

end Exclusion

/-- A call that prepares `leastRecord`, of which nothing fails. -/
def leastContender : Contender plainRecords leastRecord.declaration.executionId.jobId :=
  ⟨leastRecord, {}, rfl⟩

/-- Two calls of one job that both return. -/
theorem twoPrepares_return :
    ∃ (t : Preparing plainRecords Bool) (run run' : RecordedRun plainRecords),
      Reachable (Preparing.step plainStore fun _ : Bool => leastContender)
        (Preparing.begin .absent) t ∧
      t.point true = .returned run ∧ t.point false = .returned run' := by
  obtain ⟨hbreaks, hcomes⟩ := (@prepares_exclusive _ _ plainStore Bool _ (fun _ => leastContender)
    plainStore_readsBack).2 fun _ => ⟨rfl, _, leastRecord_publishes⟩
  obtain ⟨w, hw, hunclean⟩ := hcomes true false nofun
  obtain ⟨t, j, run, run', hj, ht, htrue, hfalse⟩ := hbreaks .absent w true hw hunclean
  obtain rfl : j = false := Bool.eq_false_of_not_eq_true hj
  exact ⟨t, run, run', (hw.mono fun _ _ _ => trivial).trans ht, htrue, hfalse⟩

end DrExec.Recording.Store
