import DrExec.Lib.Transition
import DrExec.Recording.Finalize

/-! # The lifecycle of a record

A session is a store with the handles that its calls have returned, each of which may be used any
number of times. `finalize` looks at the manifest before it replaces it, and `prepare` before it
removes a directory; `mark_running` publishes from its handle. A record is what is loaded or was
published, since one with a lone surrogate is published and not loaded. `forward_iff` says which calls
keep every record from going back, and `lifecycle_forward` that a run of such calls never does. -/

namespace DrExec.Recording.Store

open DrExec.Core.Identity DrExec.Core.Model DrExec.Core.Scalars DrExec.Declarations.Records
open DrExec.Lib DrExec.Lib.Json DrExec.Lib.Transition DrExec.Recording.Models
open DrExec.Recording.Outcomes DrExec.Recording.Records DrExec.Runtime.Wire

variable {R : RecordCodec}

/-! ### Sessions -/

/-- The root of a store, and the handles that its calls have returned. -/
structure Session (R : RecordCodec) where
  root : Root
  prepared : List (RecordedRun R) := []
  running : List (RecordedRun R) := []

/-- Which of the handles `finalize` is called with. -/
inductive Handle
  | prepared (i : ℕ)
  | running (i : ℕ)

/-- A call of the store, with the handle that it is given and what fails of it. -/
inductive Call (R : RecordCodec)
  | prepare (faults : PrepareFaults) (record : PreparedRecord R)
  | markRunning (fault : Option PublishFault) (i : ℕ) (process : ProcessRecord)
  | finalize (faults : FinalizeFaults) (handle : Handle) (result : ExecutionResult R.toCodec)

namespace Session

/-- The run of a handle, if a call has returned it. -/
def run (s : Session R) : Handle → Option (FinalizableRun R)
  | .prepared i => s.prepared[i]?.map .prepared
  | .running i => s.running[i]?.map .running

variable (E : StoreCodec R)

/-- One call. -/
def step : Call R → Session R → Option (Session R)
  | .prepare faults record, s =>
    let (returned, root) := Store.prepare E faults record s.root
    some { s with root, prepared := s.prepared ++ returned.toOption.toList }
  | .markRunning fault i process, s =>
    s.prepared[i]?.map fun run =>
      let (returned, root) := Store.markRunning E fault run process s.root
      { s with root, running := s.running ++ returned.toOption.toList }
  | .finalize faults handle result, s =>
    (s.run handle).map fun run => { s with root := (Store.finalize E faults run result s.root).2 }

variable {E} {s : Session R}

theorem exists_prepare {faults : PrepareFaults} {record : PreparedRecord R} {run : RecordedRun R}
    (h : (Store.prepare E faults record s.root).1 = .ok run) :
    ∃ t, step E (.prepare faults record) s = some t ∧
      t.root = (Store.prepare E faults record s.root).2 ∧ t.prepared = s.prepared ++ [run] := by
  refine ⟨_, rfl, rfl, ?_⟩
  change s.prepared ++ (Store.prepare E faults record s.root).1.toOption.toList = _
  rw [h]
  rfl

theorem exists_markRunning {i : ℕ} {run : RecordedRun R} (h : s.prepared[i]? = some run)
    (fault : Option PublishFault) (process : ProcessRecord) :
    ∃ t, step E (.markRunning fault i process) s = some t ∧
      t.root = (Store.markRunning E fault run process s.root).2 := by
  rw [step, h]
  exact ⟨_, rfl, rfl⟩

theorem exists_finalize {handle : Handle} {run : FinalizableRun R} (h : s.run handle = some run)
    (faults : FinalizeFaults) (result : ExecutionResult R.toCodec) :
    ∃ t, step E (.finalize faults handle result) s = some t ∧
      t.root = (Store.finalize E faults run result s.root).2 ∧ t.prepared = s.prepared := by
  rw [step, h]
  exact ⟨_, rfl, rfl, rfl⟩

end Session

/-! ### Forward -/

/-- The order of the states. -/
def stateRank : RecordState → ℕ
  | .prepared => 0
  | .running => 1
  | .finalized => 2

theorem prepared_of_rank {state : RecordState} (h : stateRank state ≤ 0) : state = .prepared := by
  cases state with
  | prepared => rfl
  | running => exact absurd (show 1 ≤ 0 from h) (by decide)
  | finalized => exact absurd (show 2 ≤ 0 from h) (by decide)

theorem stateRank_le (state : RecordState) : stateRank state ≤ 2 := by
  cases state <;> decide

/-- The bytes of a manifest tell the state: a manifest that was published, and is loaded, is loaded in
the state of its record, and records in different states are not published as the same bytes. -/
structure StoreCodec.TellsState (E : StoreCodec R) : Prop where
  loaded : ∀ (record found : RunRecord R) (bytes : Bytes) (d : Directory),
    E.publishManifest (manifestPayload record) = .ok bytes → d manifestName = some (.file bytes) →
      loadRecord E none (.directory d) = .ok found → found.state = record.state
  published : ∀ (record record' : RunRecord R) (bytes : Bytes),
    E.publishManifest (manifestPayload record) = .ok bytes →
      E.publishManifest (manifestPayload record') = .ok bytes → record.state = record'.state

variable (E : StoreCodec R)

/-- The record at a path: the one that is loaded, or one that was published as the manifest, whether
it loads or not. -/
def RecordAt (entry : Entry) (record : RunRecord R) : Prop :=
  loadRecord E none entry = .ok record ∨
    ∃ bytes, E.publishManifest (manifestPayload record) = .ok bytes ∧
      entry.manifest = some (.file bytes)

/-- What is at a record's path does not go back: a record is followed by one of no earlier state, and
the manifest of a finalized record stays. -/
structure Forward (before after : Entry) : Prop where
  state : ∀ record, RecordAt E before record →
    ∃ record', RecordAt E after record' ∧ stateRank record.state ≤ stateRank record'.state
  kept : ∀ record, RecordAt E before (.finalized record) → after.manifest = before.manifest

variable {E}

/-- A record is in a directory. -/
theorem RecordAt.exists_directory {entry : Entry} {record : RunRecord R} (h : RecordAt E entry record) :
    ∃ d, entry = .directory d := by
  rcases entry with _ | d | _
  · rcases h with h | ⟨bytes, -, h⟩ <;> cases h
  · exact ⟨d, rfl⟩
  · rcases h with h | ⟨bytes, -, h⟩ <;> cases h

theorem RecordAt.published {d : Directory} {record : RunRecord R} {bytes : Bytes}
    (h : E.publishManifest (manifestPayload record) = .ok bytes) :
    RecordAt E (.directory (d.withManifest bytes)) record := by
  have hfile : d.withManifest bytes manifestName = some (.file bytes) := Function.update_self ..
  exact .inr ⟨bytes, h, hfile⟩

/-- A path holds records of one state. -/
theorem RecordAt.state_eq (hstate : E.TellsState) {entry : Entry} {record record' : RunRecord R}
    (h : RecordAt E entry record) (h' : RecordAt E entry record') : record.state = record'.state := by
  obtain ⟨d, rfl⟩ := h.exists_directory
  rcases h with h | ⟨bytes, hbytes, hfile⟩ <;> rcases h' with h' | ⟨bytes', hbytes', hfile'⟩
  · rw [Except.ok.inj (h.symm.trans h')]
  · exact hstate.loaded record' record bytes' d hbytes' hfile' h
  · exact (hstate.loaded record record' bytes d hbytes hfile h').symm
  · cases hfile.symm.trans hfile'
    exact hstate.published record record' bytes hbytes hbytes'

theorem not_recordAt_absent (record : RunRecord R) : ¬ RecordAt E .absent record := by
  intro h
  obtain ⟨d, hd⟩ := h.exists_directory
  cases hd

theorem not_recordAt_empty (hE : E.ReadsBack) (record : RunRecord R) :
    ¬ RecordAt E (.directory emptyDirectory) record := by
  rintro (h | ⟨bytes, -, h⟩)
  · obtain ⟨error, herror⟩ := loadRecord_empty hE none
    cases herror.symm.trans h
  · cases h

theorem Forward.refl (entry : Entry) : Forward E entry entry :=
  ⟨fun record h => ⟨record, h, le_rfl⟩, fun _ _ => rfl⟩

theorem Forward.of_not_recordAt {before after : Entry} (h : ¬ ∃ record, RecordAt E before record) :
    Forward E before after :=
  ⟨fun record hrecordAt => absurd ⟨record, hrecordAt⟩ h, fun _ hrecordAt => absurd ⟨_, hrecordAt⟩ h⟩

/-- Nothing comes after the last state. -/
theorem exists_finalized {record : RunRecord R} (h : 2 ≤ stateRank record.state) :
    ∃ finalized, record = .finalized finalized := by
  rcases record with r | r | r
  · exact absurd (show 2 ≤ 0 from h) (by decide)
  · exact absurd (show 2 ≤ 1 from h) (by decide)
  · exact ⟨r, rfl⟩

theorem Forward.trans {a b c : Entry} (h : Forward E a b) (h' : Forward E b c) : Forward E a c where
  state record hrecordAt := by
    obtain ⟨next, hnext, hle⟩ := h.state record hrecordAt
    obtain ⟨last, hlast, hle'⟩ := h'.state next hnext
    exact ⟨last, hlast, hle.trans hle'⟩
  kept record hrecordAt := by
    obtain ⟨next, hnext, hle⟩ := h.state _ hrecordAt
    obtain ⟨finalized, rfl⟩ := exists_finalized hle
    exact (h'.kept finalized hnext).trans (h.kept record hrecordAt)

/-- Children other than the manifest do not count. -/
theorem Forward.of_manifest {d d' : Directory} (h : d' manifestName = d manifestName) :
    Forward E (.directory d) (.directory d') where
  state record hrecordAt := by
    refine ⟨record, ?_, le_rfl⟩
    rcases hrecordAt with hload | ⟨bytes, hbytes, hfile⟩
    · exact .inl (by rwa [loadRecord_congr h])
    · exact .inr ⟨bytes, hbytes, h.trans hfile⟩
  kept _ _ := h

/-- A record that is published in a directory goes forward from one of no later state that is not
finalized. -/
theorem Forward.of_published {d d' : Directory} {record : RunRecord R} {bytes : Bytes}
    (hpublish : E.publishManifest (manifestPayload record) = .ok bytes)
    (h : ∀ found, RecordAt E (.directory d) found →
      stateRank found.state ≤ stateRank record.state ∧ found.state ≠ .finalized) :
    Forward E (.directory d) (.directory (d'.withManifest bytes)) where
  state found hrecordAt := ⟨record, .published hpublish, (h found hrecordAt).1⟩
  kept _ hrecordAt := absurd rfl (h _ hrecordAt).2

/-! ### Careful calls -/

/-- A publication that replaces the manifest. -/
def Replaces (E : StoreCodec R) (fault : Option PublishFault) (payload : Json) : Prop :=
  (∀ e, fault ≠ some (.before e)) ∧ ∃ bytes, E.publishManifest payload = .ok bytes

/-- The reads of `_reclaim_unprepared_allocation` find a record, or another version. -/
def Recognises (E : StoreCodec R) (faults : ReclaimFaults) (entry : Entry) : Prop :=
  (∃ record, loadRecord E faults.load entry = .ok record) ∨
    ∃ version, unsupportedLifecycleSchemaVersion E faults.probe entry = some version

/-- After its directory was removed, `prepare` leaves a record: it allocates and publishes, and if the
publication raises after the replacement, the reads of the cleanup find what was published. -/
structure Records (E : StoreCodec R) (faults : PrepareFaults) (record : PreparedRecord R) :
    Prop where
  allocates : faults.mkdirAgain = false ∧ faults.openDirectory = false
  replaces : Replaces E faults.publish (manifestPayload (.prepared record))
  keeps : faults.publish = none ∨
    ∀ bytes, E.publishManifest (manifestPayload (.prepared record)) = .ok bytes →
      Recognises E faults.cleanup (.directory (emptyDirectory.withManifest bytes))

/-- A call that keeps records from going back. `mark_running` is not called on a finalized record, or
its publication does not replace the manifest; and where `prepare` meets a record, its reads find it,
or it is a prepared record and `prepare` leaves another. -/
def Careful (E : StoreCodec R) : Call R → Session R → Prop
  | .prepare faults record, s =>
    ∀ found, RecordAt E (s.root
        (recordReferenceForJob E record.declaration.executionId.jobId).recordId) found →
      faults.mkdir = false →
        Recognises E faults.reclaim (s.root
            (recordReferenceForJob E record.declaration.executionId.jobId).recordId) ∨
          found.state = .prepared ∧ Records E faults record
  | .markRunning fault i process, s =>
    ∀ run, s.prepared[i]? = some run →
      ∀ found, RecordAt E (s.root run.reference.recordId) (.finalized found) →
        ¬ Replaces E fault (manifestPayload (.running ⟨run.header, run.declaration, process⟩))
  | .finalize .., _ => True

/-! ### What each call leaves -/

theorem forward_update {root : Root} {recordId : Uuid} {left : Entry} :
    (∀ id, Forward E (root id) (Function.update root recordId left id)) ↔
      Forward E (root recordId) left := by
  refine ⟨fun h => ?_, fun h id => ?_⟩
  · have := h recordId
    rwa [Function.update_self] at this
  · by_cases hid : id = recordId
    · rw [hid, Function.update_self]
      exact h
    · rw [Function.update_of_ne hid]
      exact .refl _

/-- What a publication leaves. -/
theorem publish_left (fault : Option PublishFault) (payload : Json) (d : Directory) :
    (Replaces E fault payload ∧ ∃ bytes, E.publishManifest payload = .ok bytes ∧
        (publish E fault payload (.directory d)).2 = .directory (d.withManifest bytes)) ∨
      ¬ Replaces E fault payload ∧
        ∃ e, publish E fault payload (.directory d) = (.error e, .directory d) := by
  rcases hpublish : E.publishManifest payload with refusal | bytes
  · refine .inr ⟨fun h => ?_, ?_⟩
    · obtain ⟨bytes, hbytes⟩ := h.2
      cases hpublish.symm.trans hbytes
    · rcases fault with _ | e | e
      · exact ⟨refusal, by simp [publish, hpublish]⟩
      · exact ⟨e, by simp [publish]⟩
      · exact ⟨refusal, by simp [publish, hpublish]⟩
  · rcases fault with _ | e | e
    · exact .inl ⟨⟨(fun _ h => by cases h), bytes, hpublish⟩, bytes, rfl, by simp [publish, hpublish]⟩
    · exact .inr ⟨fun h => h.1 e rfl, e, by simp [publish]⟩
    · exact .inl ⟨⟨(fun _ h => by cases h), bytes, hpublish⟩, bytes, rfl, by simp [publish, hpublish]⟩

theorem markRunning_root (fault : Option PublishFault) (run : RecordedRun R)
    (process : ProcessRecord) (root : Root) :
    (markRunning E fault run process root).2 =
      Function.update root run.reference.recordId
        (publish E fault (manifestPayload (.running ⟨run.header, run.declaration, process⟩))
          (root run.reference.recordId)).2 := by
  unfold markRunning resolve
  rcases hentry : root run.reference.recordId with _ | d | _
  · dsimp only [publish]
    rw [← hentry, Function.update_eq_self]
  · dsimp only
    rcases publish E fault (manifestPayload (.running ⟨run.header, run.declaration, process⟩))
      (.directory d) with ⟨_ | _, entry⟩
    · rfl
    · rfl
  · dsimp only [publish]
    rw [← hentry, Function.update_eq_self]

/-- **`mark_running` keeps the record from going back** exactly when it does not replace the manifest
of a finalized one. -/
theorem markRunning_forward_iff (hstate : E.TellsState) (fault : Option PublishFault)
    (run : RecordedRun R) (process : ProcessRecord) (root : Root) :
    (∀ id, Forward E (root id) ((markRunning E fault run process root).2 id)) ↔
      ∀ found, RecordAt E (root run.reference.recordId) (.finalized found) →
        ¬ Replaces E fault (manifestPayload (.running ⟨run.header, run.declaration, process⟩)) := by
  rw [markRunning_root, forward_update]
  generalize root run.reference.recordId = entry
  by_cases hrecordAt : ∃ record, RecordAt E entry record
  swap
  · exact iff_of_true (.of_not_recordAt hrecordAt) fun found hfound => absurd ⟨_, hfound⟩ hrecordAt
  obtain ⟨_, hrecord⟩ := hrecordAt
  obtain ⟨d, rfl⟩ := hrecord.exists_directory
  rcases publish_left (E := E) fault
    (manifestPayload (.running ⟨run.header, run.declaration, process⟩)) d with
    ⟨hreplaces, bytes, hbytes, hleft⟩ | ⟨hnot, e, hleft⟩
  · rw [hleft]
    refine ⟨fun h found hfound => ?_, fun h => .of_published hbytes fun found hfound => ?_⟩
    · -- what follows the finalized record would have to be the running one
      obtain ⟨record, hrecord, hle⟩ := h.state _ hfound
      rw [hrecord.state_eq hstate (.published hbytes)] at hle
      exact absurd (show 2 ≤ 1 from hle) (by decide)
    · rcases found with r | r | r
      · exact ⟨Nat.zero_le 1, (fun h => by cases h)⟩
      · exact ⟨le_rfl, (fun h => by cases h)⟩
      · exact absurd hreplaces (h r hfound)
  · rw [hleft]
    exact iff_of_true (.refl _) fun _ _ => hnot

/-- **`finalize` keeps every record from going back.** -/
theorem finalize_forward (hstate : E.TellsState) (faults : FinalizeFaults) (run : FinalizableRun R)
    (result : ExecutionResult R.toCodec) (root : Root) (id : Uuid) :
    Forward E (root id) ((finalize E faults run result root).2 id) := by
  rcases hd : resolve root run.reference with e | d
  · rw [(@finalize_unresolved R E faults run result root e hd).1]
    exact .refl _
  · rw [(@finalize_resolved R E faults run result root d hd).1]
    refine forward_update.mpr ?_ id
    rw [entry_of_resolve hd]
    have hpublication := publication (E := E) faults result d
    generalize publishFinalized E faults result d = published at hpublication
    obtain ⟨ended, left⟩ := published
    cases hpublication with
    | unpublished _ d' hsame _ => exact .of_manifest hsame
    | published _ record finalized bytes d' _ hload hrecord _ hbytes _ _ =>
      refine .of_published hbytes fun found hfound => ?_
      rw [hfound.state_eq hstate (.inl hload)]
      exact ⟨stateRank_le record.state, hrecord⟩

/-- A directory whose record is not found is removed. -/
theorem reclaim_of_not_recognises {faults : ReclaimFaults} {d : Directory}
    (h : ¬ Recognises E faults (.directory d)) :
    reclaimUnpreparedAllocation E faults (.directory d) = .ok .absent := by
  rcases hload : loadRecord E faults.load (.directory d) with error | record
  · rcases hprobe : unsupportedLifecycleSchemaVersion E faults.probe (.directory d) with _ | version
    · exact reclaim_removed hload hprobe
    · exact absurd (.inr ⟨version, hprobe⟩) h
  · exact absurd (.inl ⟨record, hload⟩) h

/-- What `prepare` leaves where it has removed a directory: a prepared record, or none. -/
theorem prepareEntry_removed (hE : E.ReadsBack) {faults : PrepareFaults} {record : PreparedRecord R}
    {d : Directory} (hmkdir : faults.mkdir = false)
    (hremoved : reclaimUnpreparedAllocation E faults.reclaim (.directory d) = .ok .absent) :
    (Records E faults record ∧ ∃ bytes,
        E.publishManifest (manifestPayload (.prepared record)) = .ok bytes ∧
        (prepareEntry E faults record (.directory d)).2 =
          .directory (emptyDirectory.withManifest bytes)) ∨
      ¬ Records E faults record ∧
        ∀ found, ¬ RecordAt E (prepareEntry E faults record (.directory d)).2 found := by
  rcases hagain : faults.mkdirAgain with _ | _
  swap
  · have hallocate : allocate E faults (.directory d) = (.error prepareFailure, .absent) := by
      simp [allocate, hmkdir, hremoved, hagain, prepareFailure]
    rw [prepareEntry_of_error hallocate]
    exact .inr ⟨fun h => absurd (hagain.symm.trans h.allocates.1) (by decide), not_recordAt_absent⟩
  rcases hopen : faults.openDirectory with _ | _
  swap
  · have hallocate : allocate E faults (.directory d) =
        (.error prepareFailure, .directory emptyDirectory) := by
      simp [allocate, openAllocated, hmkdir, hremoved, hagain, hopen, prepareFailure]
    rw [prepareEntry_of_error hallocate]
    exact .inr ⟨fun h => absurd (hopen.symm.trans h.allocates.2) (by decide), not_recordAt_empty hE⟩
  have hallocate := allocate_removed hmkdir hremoved hagain hopen
  rcases publish_left (E := E) faults.publish (manifestPayload (.prepared record)) emptyDirectory with
    ⟨hreplaces, bytes, hbytes, -⟩ | ⟨hnot, e, hpublish⟩
  swap
  · rw [prepareEntry_unpublished hE hallocate hpublish]
    exact .inr ⟨fun h => hnot h.replaces, not_recordAt_absent⟩
  rcases hfault : faults.publish with _ | e | e
  · refine .inl ⟨⟨⟨hagain, hopen⟩, hreplaces, .inl hfault⟩, bytes, hbytes, ?_⟩
    rw [prepareEntry_published hallocate hfault hbytes]
  · exact absurd hfault (hreplaces.1 e)
  · by_cases hcleanup : Recognises E faults.cleanup (.directory (emptyDirectory.withManifest bytes))
    · have hkept := reclaim_kept hcleanup
      refine .inl ⟨⟨⟨hagain, hopen⟩, hreplaces, .inr fun bytes' hbytes' => ?_⟩, bytes, hbytes, ?_⟩
      · cases hbytes.symm.trans hbytes'
        exact hcleanup
      · simp only [prepareEntry, hallocate, publish, hfault, hbytes, hkept]
    · -- the cleanup does not find what was published, and removes it
      have hcleaned := reclaim_of_not_recognises hcleanup
      have hleft : prepareEntry E faults record (.directory d) = (.error prepareFailure, .absent) := by
        simp only [prepareEntry, hallocate, publish, hfault, hbytes, hcleaned]
        rfl
      rw [hleft]
      refine .inr ⟨fun h => ?_, not_recordAt_absent⟩
      rcases h.keeps with hnone | hfound
      · cases hfault.symm.trans hnone
      · exact hcleanup (hfound bytes hbytes)

/-- **`prepare` keeps the record from going back** exactly when it finds the one that is there, or
leaves another in its state. -/
theorem prepareEntry_forward_iff (hE : E.ReadsBack) (hstate : E.TellsState) (faults : PrepareFaults)
    (record : PreparedRecord R) (entry : Entry) :
    Forward E entry (prepareEntry E faults record entry).2 ↔
      ∀ found, RecordAt E entry found → faults.mkdir = false →
        Recognises E faults.reclaim entry ∨ found.state = .prepared ∧ Records E faults record := by
  by_cases hrecordAt : ∃ found, RecordAt E entry found
  swap
  · exact iff_of_true (.of_not_recordAt hrecordAt) fun found hfound => absurd ⟨found, hfound⟩ hrecordAt
  obtain ⟨found, hfound⟩ := hrecordAt
  obtain ⟨d, rfl⟩ := hfound.exists_directory
  rcases hmkdir : faults.mkdir with _ | _
  swap
  · have hallocate : allocate E faults (.directory d) = (.error prepareFailure, .directory d) :=
      if_pos hmkdir
    rw [prepareEntry_of_error hallocate]
    exact iff_of_true (.refl _) fun _ _ htrue => absurd htrue (by decide)
  by_cases hrecognised : Recognises E faults.reclaim (.directory d)
  · rw [prepareEntry_of_error (allocate_kept (reclaim_kept hrecognised))]
    exact iff_of_true (.refl _) fun _ _ _ => .inl hrecognised
  · rcases @prepareEntry_removed _ _ hE _ record _ hmkdir (reclaim_of_not_recognises hrecognised) with
      ⟨hrecords, bytes, hbytes, hleft⟩ | ⟨hnot, hnone⟩
    · rw [hleft]
      refine ⟨fun h other hother _ => .inr ⟨?_, hrecords⟩, fun h => ?_⟩
      · obtain ⟨next, hnext, hle⟩ := h.state other hother
        rw [hnext.state_eq hstate (.published hbytes)] at hle
        exact prepared_of_rank hle
      · refine .of_published hbytes fun other hother => ?_
        obtain hfinds | ⟨hprepared, -⟩ := h other hother rfl
        · exact absurd hfinds hrecognised
        · rw [hprepared]
          exact ⟨le_rfl, (fun h => by cases h)⟩
    · refine iff_of_false (fun h => ?_) fun h => ?_
      · obtain ⟨next, hnext, -⟩ := h.state found hfound
        exact hnone next hnext
      · obtain hfinds | ⟨-, hrecords⟩ := h found hfound rfl
        · exact hrecognised hfinds
        · exact hnot hrecords

/-! ### Runs -/

/-- **A call keeps every record from going back exactly when it is careful.** -/
theorem forward_iff (hE : E.ReadsBack) (hstate : E.TellsState) {call : Call R} {s s' : Session R}
    (h : Session.step E call s = some s') :
    (∀ id, Forward E (s.root id) (s'.root id)) ↔ Careful E call s := by
  cases call with
  | prepare faults record =>
    cases h
    exact forward_update.trans (prepareEntry_forward_iff hE hstate faults record _)
  | markRunning fault i process =>
    obtain ⟨run, hrun, rfl⟩ := Option.map_eq_some_iff.mp h
    refine (markRunning_forward_iff hstate fault run process s.root).trans ⟨fun hcareful => ?_,
      fun hcareful => hcareful run hrun⟩
    intro other hother
    cases hrun.symm.trans hother
    exact hcareful
  | finalize faults handle result =>
    obtain ⟨run, -, rfl⟩ := Option.map_eq_some_iff.mp h
    exact iff_of_true (fun id => finalize_forward hstate faults run result s.root id) trivial

/-- **Records do not go back in careful sessions.** Between any two states of a run of careful calls,
with whatever handles and whatever fails, a record, whether it loads or not, is followed by one of no
earlier state, and the manifest of a finalized record stays; and no other call keeps that. -/
theorem lifecycle_forward (hE : E.ReadsBack) (hstate : E.TellsState) {s : Session R} :
    (∀ t, Reach (Session.step E) (Careful E) s t → ∀ id, Forward E (s.root id) (t.root id)) ∧
      ∀ call t, Session.step E call s = some t →
        ((∀ id, Forward E (s.root id) (t.root id)) ↔ Careful E call s) := by
  refine ⟨fun t h => ?_, fun call t h => forward_iff hE hstate h⟩
  refine h.invariant (I := fun t => ∀ id, Forward E (s.root id) (t.root id)) (fun id => .refl _) ?_
  intro u call v _ hI hcareful hstep id
  exact (hI id).trans ((forward_iff hE hstate hstep).mpr hcareful id)

/-- Canonical JSON, as a store that refuses surrogates. -/
def scalarStore : StoreCodec plainRecords :=
  { plainStore with
    publishManifest := fun v =>
      if v.scalar = true then plainStore.publishManifest v
      else .error { typeName := Text.lit "DocumentDirectoryError" } }

theorem scalarStore_publishes_iff {v : Json} {bytes : Bytes} :
    scalarStore.publishManifest v = .ok bytes ↔
      v.scalar = true ∧ plainStore.publishManifest v = .ok bytes := by
  unfold scalarStore
  dsimp only
  split_ifs with h <;> simp [h]

theorem scalarStore_readsBack : scalarStore.ReadsBack where
  published v bytes hscalar hpublish :=
    plainStore_readsBack.published v bytes hscalar (scalarStore_publishes_iff.mp hpublish).2
  missing := plainStore_readsBack.missing
  digest := plainStore_readsBack.digest
  canonical := plainStore_readsBack.canonical
  scalar := plainStore_readsBack.scalar

/-- What it publishes it loads. -/
theorem scalarStore_loads {record : RunRecord plainRecords} {bytes : Bytes} {d : Directory}
    (hpublish : scalarStore.publishManifest (manifestPayload record) = .ok bytes)
    (hfile : d manifestName = some (.file bytes)) :
    loadRecord scalarStore none (.directory d) = .ok record := by
  have hsame : d.withManifest bytes = d := by
    rw [Directory.withManifest, ← hfile, Function.update_eq_self]
  rw [← hsame]
  exact loadRecord_published scalarStore_readsBack (scalarStore_publishes_iff.mp hpublish).1 hpublish d

theorem scalarStore_tellsState : scalarStore.TellsState where
  loaded record found bytes d hpublish hfile hload := by
    rw [Except.ok.inj (hload.symm.trans (scalarStore_loads hpublish hfile))]
  published record record' bytes hpublish hpublish' := by
    have hfile : emptyDirectory.withManifest bytes manifestName = some (.file bytes) :=
      Function.update_self ..
    have hload := scalarStore_loads hpublish hfile
    rw [Except.ok.inj (hload.symm.trans (scalarStore_loads hpublish' hfile))]

/-- A run whose record was prepared is marked: the record goes on. -/
theorem markedOnce_forward :
    Forward scalarStore (rootOf (.prepared leastRecord) leastRun.reference.recordId)
      ((markRunning scalarStore none leastRun ⟨1, epoch⟩ (rootOf (.prepared leastRecord))).2
        leastRun.reference.recordId) := by
  obtain ⟨s, hs, hhandle⟩ : ∃ s : Session plainRecords,
      s.root = rootOf (.prepared leastRecord) ∧ s.prepared[0]? = some leastRun :=
    ⟨{ root := _, prepared := [leastRun] }, rfl, rfl⟩
  obtain ⟨t, ht, hroot⟩ := @Session.exists_markRunning _ scalarStore s 0 _ hhandle none ⟨1, epoch⟩
  have hpublish : scalarStore.publishManifest (manifestPayload (.prepared leastRecord)) =
      .ok (dumps (manifestPayload (.prepared leastRecord))) :=
    scalarStore_publishes_iff.mpr ⟨leastRecord_scalar, leastRecord_publishes⟩
  have hcareful : Careful scalarStore (.markRunning none 0 ⟨1, epoch⟩) s := by
    intro run _ found hfound
    rw [hs] at hfound
    cases hfound.state_eq scalarStore_tellsState (.published hpublish)
  have h := (@lifecycle_forward _ _ scalarStore_readsBack scalarStore_tellsState s).1 t
    (.single hcareful ht) leastRun.reference.recordId
  rwa [hroot, hs] at h

/-! ### A finalized record that is marked -/

theorem leastResult_ids :
    leastDeclaration.executionId = (@resultRecord plainRecords leastResult).executionId := rfl

/-- The finalized record of `leastResult`. -/
def leastFinalized : FinalizedRecord plainRecords where
  header := leastHeader
  declaration := leastDeclaration
  result := resultRecord leastResult
  outputs :=
    ⟨artifactRecord (sidecarPath "stdout.bin" stdout_isName) leastResult.payloadOutputs.stdout zeroDigest,
      artifactRecord (sidecarPath "stderr.bin" stderr_isName) leastResult.payloadOutputs.stderr zeroDigest⟩
  execution_ids_must_match := leastResult_ids

theorem leastFinalized_publishes :
    plainStore.publishManifest (manifestPayload (.finalized leastFinalized)) =
      .ok (dumps (manifestPayload (.finalized leastFinalized))) :=
  plainStore_publishes (by decide +kernel)

theorem leastFinalized_scalar :
    (manifestPayload (.finalized leastFinalized)).scalar = true := by
  decide +kernel

theorem leastFinalized_of :
    FinalizedOf plainStore (.prepared leastRecord) leastResult leastFinalized := dif_pos rfl

/-- The reference of the run of `leastRecord`. -/
def leastReference : RunRecordReference := (preparedRun plainStore leastRecord).reference

/-- The record of a run that was prepared and finalized. -/
theorem loadRecord_finalized {root : Root}
    (hentry : root leastReference.recordId = .directory
      (emptyDirectory.withManifest (dumps (manifestPayload (.prepared leastRecord))))) :
    loadRecord plainStore none ((finalize plainStore {}
        (.prepared (preparedRun plainStore leastRecord)) leastResult root).2
      leastReference.recordId) = .ok (.finalized leastFinalized) := by
  have hd : resolve root (preparedRun plainStore leastRecord).reference =
      .ok (emptyDirectory.withManifest (dumps (manifestPayload (.prepared leastRecord)))) := by
    unfold resolve
    rw [show root (preparedRun plainStore leastRecord).reference.recordId = _ from hentry]
  obtain ⟨d', hleft⟩ := publishFinalized_left
    (loadRecord_published plainStore_readsBack leastRecord_scalar leastRecord_publishes
      emptyDirectory)
    (show RecordState.prepared ≠ .finalized by decide) leastFinalized_of leastFinalized_publishes
  have hroot := (@finalize_resolved _ plainStore {} (.prepared (preparedRun plainStore leastRecord))
    leastResult root _ hd).1
  rw [hroot, hleft]
  refine Eq.trans (congrArg _ (Function.update_self ..)) ?_
  exact loadRecord_published plainStore_readsBack leastFinalized_scalar leastFinalized_publishes d'

/-- **A run that was finalized can be marked**: its handle from `prepare` publishes a running record
in place of the finalized one. -/
theorem markRunning_unfinalizes :
    ¬ ∀ s t : Session plainRecords,
      Reachable (Session.step plainStore) { root := fun _ => .absent } s →
      Reachable (Session.step plainStore) s t → ∀ id, Forward plainStore (s.root id) (t.root id) := by
  intro hall
  have hnew : Entry.absent ≠ .other := nofun
  have hleft := prepareEntry_of_not_evidence hnew not_evidence_absent leastRecord_publishes
  have hreturned : (prepare plainStore {} leastRecord fun _ => .absent).1 =
      .ok (preparedRun plainStore leastRecord) := by
    simp only [prepare, hleft]
  have hentry : (prepare plainStore {} leastRecord fun _ => .absent).2 leastReference.recordId =
      .directory (emptyDirectory.withManifest (dumps (manifestPayload (.prepared leastRecord)))) := by
    simp only [prepare, hleft]
    exact Function.update_self ..
  obtain ⟨s₁, hprepare, hroot₁, hprepared₁⟩ :=
    @Session.exists_prepare _ plainStore { root := fun _ => .absent } {} leastRecord _ hreturned
  have hhandle : s₁.prepared[0]? = some (preparedRun plainStore leastRecord) := by
    rw [hprepared₁]
    rfl
  have hrun : s₁.run (.prepared 0) = some (.prepared (preparedRun plainStore leastRecord)) := by
    rw [Session.run, hhandle]
    rfl
  obtain ⟨s₂, hfinalize, hroot₂, hprepared₂⟩ :=
    @Session.exists_finalize _ plainStore s₁ _ _ hrun {} leastResult
  rw [← hprepared₂] at hhandle
  obtain ⟨t, hmark, hroot⟩ := @Session.exists_markRunning _ plainStore s₂ 0 _ hhandle none ⟨1, epoch⟩
  have hfound : loadRecord plainStore none (s₂.root leastReference.recordId) =
      .ok (.finalized leastFinalized) := by
    rw [hroot₂, hroot₁]
    exact loadRecord_finalized hentry
  obtain ⟨d, hd⟩ := RecordAt.exists_directory (.inl hfound)
  have hmarked : t.root leastReference.recordId =
      .directory (d.withManifest (dumps (manifestPayload (.running leastRunning)))) := by
    rw [hroot, markRunning_root]
    refine (Function.update_self ..).trans ?_
    rw [show s₂.root (preparedRun plainStore leastRecord).reference.recordId = _ from hd]
    have hpublish : plainStore.publishManifest (manifestPayload
        (.running ⟨(preparedRun plainStore leastRecord).header,
          (preparedRun plainStore leastRecord).declaration, ⟨1, epoch⟩⟩)) = _ :=
      leastRunning_publishes
    simp only [publish, hpublish]
  have hkept := (hall s₂ t ((Reach.single trivial hprepare).tail trivial hfinalize)
    (.single trivial hmark) leastReference.recordId).kept leastFinalized (.inl hfound)
  -- the manifest would still load as the finalized record
  rw [hmarked, hd] at hkept
  have hsame : d.withManifest (dumps (manifestPayload (.running leastRunning))) manifestName =
      d manifestName := hkept
  rw [hd, ← loadRecord_congr hsame none, loadRecord_published plainStore_readsBack
    leastRunning_scalar leastRunning_publishes d] at hfound
  cases hfound

end DrExec.Recording.Store
