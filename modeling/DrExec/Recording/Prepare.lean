import DrExec.Recording.Manifest

/-! # Preparing a record

`prepare` allocates the directory of a job's record and publishes its first manifest. A directory
that is in the way is kept when its manifest is a lifecycle record or names another schema version,
and removed otherwise; both are decided by reading the manifest, which is why a read that fails is
taken for a manifest that is none. `reclaim_evidence_iff` says what becomes of a directory whatever
the reads do; `prepare_effect_iff` is the effect without failures, `evidence_kept_iff` when a record
survives failing reads, and `retryable_iff` when a failed call leaves the job retryable. -/

namespace DrExec.Recording.Store

open DrExec.Core.Identity DrExec.Core.Model DrExec.Core.Scalars DrExec.Declarations.Records
open DrExec.Lib DrExec.Lib.Json DrExec.Recording.Models DrExec.Recording.Records DrExec.Runtime.Wire

variable {R : RecordCodec} {E : StoreCodec R}

/-! ### Evidence -/

variable (E)

/-- The manifest loads as a valid lifecycle record. -/
def Loads (entry : Entry) : Prop := ∃ record, loadRecord E none entry = .ok record

/-- The manifest names an integer schema version other than the current one. -/
def NamesOtherVersion (entry : Entry) : Prop :=
  ∃ d manifest version, entry = .directory d ∧ E.readManifest (d manifestName) = .ok manifest ∧
    headerSchemaVersion manifest = some version ∧ version ≠ currentRunRecordSchemaVersion

/-- What `prepare` must not destroy. -/
def Evidence (entry : Entry) : Prop := Loads E entry ∨ NamesOtherVersion E entry

variable {E}

theorem not_evidence_absent : ¬ Evidence E .absent := by
  rintro (⟨record, h⟩ | ⟨d, -, -, h, -⟩) <;> cases h

/-- The probe finds the other version. -/
theorem namesOtherVersion_iff {entry : Entry} :
    NamesOtherVersion E entry ↔
      ∃ version, unsupportedLifecycleSchemaVersion E none entry = some version := by
  unfold unsupportedLifecycleSchemaVersion
  constructor
  · rintro ⟨d, manifest, version, rfl, hread, hversion, hne⟩
    exact ⟨version, by simp [readManifest, hread, hversion, hne]⟩
  · rintro ⟨version, h⟩
    rcases entry with _ | d | _
    · cases h
    · rcases hread : E.readManifest (d manifestName) with e | manifest
      · simp [readManifest, hread] at h
      · simp only [readManifest, hread, Option.filter_eq_some_iff, decide_eq_true_eq] at h
        exact ⟨d, manifest, version, rfl, hread, h.1, h.2⟩
    · cases h

/-- A manifest that loads names no other version. -/
theorem Loads.version {entry : Entry} (h : Loads E entry) (fault : Option DocumentDirectoryError) :
    unsupportedLifecycleSchemaVersion E fault entry = none := by
  obtain ⟨record, hload⟩ := h
  unfold unsupportedLifecycleSchemaVersion
  cases fault with
  | some e => cases entry <;> rfl
  | none =>
    unfold loadRecord at hload
    split at hload
    · cases hload
    next manifest hread =>
    unfold decodeRecord at hload
    rcases hversion : headerSchemaVersion manifest with _ | version
    · rfl
    · by_cases hcurrent : version = currentRunRecordSchemaVersion
      · simp [hcurrent]
      · simp [hversion, hcurrent] at hload

/-- A read that fails of its own loads nothing. -/
theorem loadRecord_fault (e : DocumentDirectoryError) (entry : Entry) :
    ∃ error, loadRecord E (some e) entry = .error error := by
  cases entry <;> exact ⟨_, rfl⟩

theorem not_loads_of_namesOtherVersion {entry : Entry} (h : NamesOtherVersion E entry)
    (fault : Option DocumentDirectoryError) : ∃ error, loadRecord E fault entry = .error error := by
  cases fault with
  | some e => exact loadRecord_fault e entry
  | none =>
    rcases hload : loadRecord E none entry with error | record
    · exact ⟨error, rfl⟩
    · obtain ⟨version, hversion⟩ := namesOtherVersion_iff.mp h
      rw [Loads.version ⟨record, hload⟩ none] at hversion
      cases hversion

theorem not_loads {entry : Entry} (h : NamesOtherVersion E entry) : ¬ Loads E entry := by
  rintro ⟨record, hrecord⟩
  obtain ⟨error, herror⟩ := not_loads_of_namesOtherVersion h none
  cases herror.symm.trans hrecord

/-! ### Reclaiming -/

/-- A directory is kept when a read finds a record, or another version. -/
theorem reclaim_kept {faults : ReclaimFaults} {entry : Entry}
    (h : (∃ record, loadRecord E faults.load entry = .ok record) ∨
      ∃ version, unsupportedLifecycleSchemaVersion E faults.probe entry = some version) :
    reclaimUnpreparedAllocation E faults entry = .ok entry := by
  unfold reclaimUnpreparedAllocation
  rcases hload : loadRecord E faults.load entry with error | record
  · rcases h with ⟨record, hrecord⟩ | ⟨version, hversion⟩
    · cases hload.symm.trans hrecord
    · simp only [hversion, Option.isSome_some, if_true]
  · rfl

/-- Otherwise it is removed. -/
theorem reclaim_removed {faults : ReclaimFaults} {d : Directory} {error : RecordLoadError}
    (hload : loadRecord E faults.load (.directory d) = .error error)
    (hprobe : unsupportedLifecycleSchemaVersion E faults.probe (.directory d) = none) :
    reclaimUnpreparedAllocation E faults (.directory d) = .ok .absent := by
  unfold reclaimUnpreparedAllocation
  simp only [hload, hprobe, Option.isSome_none, Bool.false_eq_true, if_false]

/-- **What becomes of a directory that holds evidence**: it is kept exactly when the read that
recognises the evidence does not fail. -/
theorem reclaim_evidence_iff (faults : ReclaimFaults) {d : Directory}
    (h : Evidence E (.directory d)) :
    (reclaimUnpreparedAllocation E faults (.directory d) = .ok (.directory d) ↔
        (Loads E (.directory d) → faults.load = none) ∧
          (NamesOtherVersion E (.directory d) → faults.probe = none)) ∧
      (reclaimUnpreparedAllocation E faults (.directory d) ≠ .ok (.directory d) →
        reclaimUnpreparedAllocation E faults (.directory d) = .ok .absent) := by
  rcases h with hloads | hversion
  · have hnoVersion : ¬ NamesOtherVersion E (.directory d) := by
      intro h
      obtain ⟨version, hversion⟩ := namesOtherVersion_iff.mp h
      rw [hloads.version none] at hversion
      cases hversion
    rcases hfault : faults.load with _ | e
    · obtain ⟨record, hrecord⟩ := hloads
      have hkept : reclaimUnpreparedAllocation E faults (.directory d) = .ok (.directory d) :=
        reclaim_kept (.inl ⟨record, by rwa [hfault]⟩)
      exact ⟨iff_of_true hkept ⟨fun _ => rfl, fun h => absurd h hnoVersion⟩,
        fun hne => absurd hkept hne⟩
    · obtain ⟨error, herror⟩ := loadRecord_fault (E := E) e (.directory d)
      have hremoved : reclaimUnpreparedAllocation E faults (.directory d) = .ok .absent :=
        reclaim_removed (by rw [hfault]; exact herror) (hloads.version _)
      refine ⟨iff_of_false (by simp [hremoved]) ?_, fun _ => hremoved⟩
      rintro ⟨hload, -⟩
      cases hload hloads
  · have hnoLoads : ¬ Loads E (.directory d) := not_loads hversion
    rcases hfault : faults.probe with _ | e
    · obtain ⟨version, hprobe⟩ := namesOtherVersion_iff.mp hversion
      have hkept : reclaimUnpreparedAllocation E faults (.directory d) = .ok (.directory d) :=
        reclaim_kept (.inr ⟨version, by rwa [hfault]⟩)
      exact ⟨iff_of_true hkept ⟨fun h => absurd h hnoLoads, fun _ => rfl⟩,
        fun hne => absurd hkept hne⟩
    · obtain ⟨error, herror⟩ := not_loads_of_namesOtherVersion hversion faults.load
      have hremoved : reclaimUnpreparedAllocation E faults (.directory d) = .ok .absent :=
        reclaim_removed herror (by rw [hfault]; rfl)
      refine ⟨iff_of_false (by simp [hremoved]) ?_, fun _ => hremoved⟩
      rintro ⟨-, hprobe⟩
      cases hprobe hversion

/-- A directory without evidence is removed. -/
theorem reclaim_of_not_evidence {d : Directory} (h : ¬ Evidence E (.directory d)) :
    reclaimUnpreparedAllocation E {} (.directory d) = .ok .absent := by
  rcases hload : loadRecord E none (.directory d) with error | record
  · rcases hprobe : unsupportedLifecycleSchemaVersion E none (.directory d) with _ | version
    · exact reclaim_removed hload hprobe
    · exact absurd (.inr (namesOtherVersion_iff.mpr ⟨version, hprobe⟩)) h
  · exact absurd (.inl ⟨record, hload⟩) h

theorem reclaim_empty (hE : E.ReadsBack) (faults : ReclaimFaults) :
    reclaimUnpreparedAllocation E faults (.directory emptyDirectory) = .ok .absent := by
  obtain ⟨error, herror⟩ := loadRecord_empty hE faults.load
  exact reclaim_removed herror (unsupported_empty hE faults.probe)

/-! ### The course of a call -/

/-- The failure of `prepare`. -/
def prepareFailure : StoreError := .executorFailure (Text.lit "prepare the run record")

/-- The run that `prepare` returns. -/
def preparedRun (E : StoreCodec R) (record : PreparedRecord R) : RecordedRun R :=
  ⟨record.declaration.executionId,
    recordReferenceForJob E record.declaration.executionId.jobId, record.header, record.declaration⟩

theorem allocate_kept {faults : PrepareFaults} {d : Directory}
    (h : reclaimUnpreparedAllocation E faults.reclaim (.directory d) = .ok (.directory d)) :
    allocate E faults (.directory d) = (.error prepareFailure, .directory d) := by
  unfold allocate
  by_cases hmkdir : faults.mkdir = true
  · rw [if_pos hmkdir]
    rfl
  · rw [if_neg hmkdir]
    simp only [h]
    rfl

theorem allocate_absent {faults : PrepareFaults} (hmkdir : faults.mkdir = false)
    (hopen : faults.openDirectory = false) :
    allocate E faults .absent = (.ok (), .directory emptyDirectory) := by
  simp [allocate, openAllocated, hmkdir, hopen]

theorem allocate_removed {faults : PrepareFaults} {d : Directory} (hmkdir : faults.mkdir = false)
    (h : reclaimUnpreparedAllocation E faults.reclaim (.directory d) = .ok .absent)
    (hagain : faults.mkdirAgain = false) (hopen : faults.openDirectory = false) :
    allocate E faults (.directory d) = (.ok (), .directory emptyDirectory) := by
  simp [allocate, openAllocated, h, hmkdir, hagain, hopen]

section Allocated

variable {faults : PrepareFaults} {record : PreparedRecord R} {entry : Entry}

theorem prepareEntry_of_error {error : StoreError} {left : Entry}
    (h : allocate E faults entry = (.error error, left)) :
    prepareEntry E faults record entry = (.error error, left) := by
  simp only [prepareEntry, h]

theorem prepareEntry_published {bytes : Bytes}
    (h : allocate E faults entry = (.ok (), .directory emptyDirectory))
    (hfault : faults.publish = none)
    (hpublish : E.publishManifest (manifestPayload (.prepared record)) = .ok bytes) :
    prepareEntry E faults record entry =
      (.ok (preparedRun E record), .directory (emptyDirectory.withManifest bytes)) := by
  simp only [prepareEntry, h, publish, hfault, hpublish]
  rfl

/-- A publication that left the manifest as it was is cleaned up. -/
theorem prepareEntry_unpublished (hE : E.ReadsBack) {e : DocumentDirectoryError}
    (h : allocate E faults entry = (.ok (), .directory emptyDirectory))
    (hpublish : publish E faults.publish (manifestPayload (.prepared record))
      (.directory emptyDirectory) = (.error e, .directory emptyDirectory)) :
    prepareEntry E faults record entry = (.error prepareFailure, .absent) := by
  simp only [prepareEntry, h, hpublish, reclaim_empty hE]
  rfl

/-- A publication that failed after it replaced the manifest leaves the manifest, if that is evidence,
and nothing otherwise. -/
theorem prepareEntry_replaced {bytes : Bytes} {e : DocumentDirectoryError}
    (h : allocate E faults entry = (.ok (), .directory emptyDirectory))
    (hfault : faults.publish = some (.after e))
    (hpublish : E.publishManifest (manifestPayload (.prepared record)) = .ok bytes)
    (hcleanup : faults.cleanup = {}) :
    (Evidence E (.directory (emptyDirectory.withManifest bytes)) →
        prepareEntry E faults record entry =
          (.error prepareFailure, .directory (emptyDirectory.withManifest bytes))) ∧
      (¬ Evidence E (.directory (emptyDirectory.withManifest bytes)) →
        prepareEntry E faults record entry = (.error prepareFailure, .absent)) := by
  constructor
  · intro hevidence
    have hkept := (reclaim_evidence_iff {} hevidence).1.mpr ⟨fun _ => rfl, fun _ => rfl⟩
    simp only [prepareEntry, h, publish, hfault, hpublish, hcleanup, hkept]
    rfl
  · intro hevidence
    simp only [prepareEntry, h, publish, hfault, hpublish, hcleanup, reclaim_of_not_evidence hevidence]
    rfl

end Allocated

/-! ### Without failures -/

/-- `load` finds a prepared record where its manifest was published, if it holds no surrogate. -/
theorem load_published (hE : E.ReadsBack) {record : PreparedRecord R} {bytes : Bytes}
    (hscalar : (manifestPayload (.prepared record)).scalar = true)
    (hpublish : E.publishManifest (manifestPayload (.prepared record)) = .ok bytes) (d : Directory)
    {root : Root} {reference : RunRecordReference}
    (hroot : root reference.recordId = .directory (d.withManifest bytes)) :
    load E {} root reference = .ok (.prepared record) := by
  have hload := loadRecord_published hE hscalar hpublish d
  simp only [load, resolve, hroot, bind, Except.bind, hload]
  rfl

/-- Without failures a call returns a run where there is no evidence. -/
theorem prepareEntry_of_not_evidence {record : PreparedRecord R} {bytes : Bytes} {entry : Entry}
    (hreal : entry ≠ .other) (hevidence : ¬ Evidence E entry)
    (hpublish : E.publishManifest (manifestPayload (.prepared record)) = .ok bytes) :
    prepareEntry E {} record entry =
      (.ok (preparedRun E record), .directory (emptyDirectory.withManifest bytes)) := by
  refine prepareEntry_published ?_ rfl hpublish
  rcases entry with _ | d | _
  · exact allocate_absent rfl rfl
  · exact allocate_removed rfl (reclaim_of_not_evidence hevidence) rfl rfl
  · exact absurd rfl hreal

/-- A manifest that was loaded was read without a failure. -/
theorem loadRecord_none {fault : Option DocumentDirectoryError} {entry : Entry} {record : RunRecord R}
    (h : loadRecord E fault entry = .ok record) : loadRecord E none entry = .ok record := by
  cases fault with
  | none => exact h
  | some e =>
    obtain ⟨error, herror⟩ := loadRecord_fault (E := E) e entry
    cases h.symm.trans herror

theorem ok_bind {ε α β : Type} (a : α) (f : α → Except ε β) :
    ((.ok a : Except ε α) >>= f) = f a := rfl

theorem bind_ok {ε α β : Type} {x : Except ε α} {f : α → Except ε β} {b : β}
    (h : x >>= f = .ok b) : ∃ a, x = .ok a ∧ f a = .ok b := by
  cases x with
  | error e => cases h
  | ok a => exact ⟨a, rfl, h⟩

theorem pure_of_bind {ε α β : Type} {x : Except ε α} {b b' : β}
    (h : (x >>= fun _ => pure b) = .ok b') : (.ok b : Except ε β) = .ok b' := by
  obtain ⟨-, -, h⟩ := bind_ok h
  exact h

/-- What `load` returns is what the manifest loads as. -/
theorem loadRecord_of_load {faults : LoadFaults} {root : Root} {reference : RunRecordReference}
    {record : RunRecord R} (h : load E faults root reference = .ok record) :
    ∃ d, resolve root reference = .ok d ∧ loadRecord E none (.directory d) = .ok record := by
  obtain ⟨d, hd, h⟩ := bind_ok h
  obtain ⟨found, hfound, h⟩ := bind_ok h
  refine ⟨d, hd, loadRecord_none (hfound.trans ?_)⟩
  rcases found with r | r | r
  · exact h
  · exact h
  · exact pure_of_bind h

/-- A record that `load` finds holds no surrogate. -/
theorem scalar_of_load (hE : E.ReadsBack) {faults : LoadFaults} {root : Root}
    {reference : RunRecordReference} {record : RunRecord R}
    (h : load E faults root reference = .ok record) : (manifestPayload record).scalar = true := by
  obtain ⟨d, -, hload⟩ := loadRecord_of_load h
  exact scalar_of_loadRecord hE hload

variable (E) in
/-- What a `prepare` without failures is to do. Where the directory holds a lifecycle record or names
another schema version, it fails and changes nothing. Otherwise it returns a run, the directory then
holds the manifest alone, and that loads as the record. No other record changes. -/
structure PrepareEffect (record : PreparedRecord R) (root : Root) (bytes : Bytes)
    (reference : RunRecordReference) : Prop where
  kept : Evidence E (root reference.recordId) →
    prepare E {} record root = (.error prepareFailure, root)
  returned : ¬ Evidence E (root reference.recordId) →
    (prepare E {} record root).1 = .ok (preparedRun E record) ∧
      (preparedRun E record).reference = reference ∧
      (prepare E {} record root).2 reference.recordId =
        .directory (emptyDirectory.withManifest bytes)
  loaded : ¬ Evidence E (root reference.recordId) →
    load E {} (prepare E {} record root).2 reference = .ok (.prepared record)
  others : ∀ recordId, recordId ≠ reference.recordId →
    (prepare E {} record root).2 recordId = root recordId

/-- **When `prepare` has its effect**, its record published and nothing failing: exactly when it has
to keep what is there, or the record holds no lone surrogate. A record that holds one is published
all the same, and then it is not the record that is loaded. -/
theorem prepare_effect_iff (hE : E.ReadsBack) (record : PreparedRecord R) (root : Root)
    (bytes : Bytes) (hpublish : E.publishManifest (manifestPayload (.prepared record)) = .ok bytes)
    (reference : RunRecordReference)
    (hreference : reference = recordReferenceForJob E record.declaration.executionId.jobId)
    (hreal : root reference.recordId ≠ .other) :
    PrepareEffect E record root bytes reference ↔
      Evidence E (root reference.recordId) ∨
        (manifestPayload (.prepared record)).scalar = true := by
  subst hreference
  have hothers : ∀ recordId,
      recordId ≠ (recordReferenceForJob E record.declaration.executionId.jobId).recordId →
        (prepare E {} record root).2 recordId = root recordId :=
    fun recordId hne => Function.update_of_ne hne _ _
  by_cases hevidence : Evidence E
    (root (recordReferenceForJob E record.declaration.executionId.jobId).recordId)
  · refine iff_of_true ⟨fun _ => ?_, fun hnot => absurd hevidence hnot,
      fun hnot => absurd hevidence hnot, hothers⟩ (.inl hevidence)
    rcases hentry : root (recordReferenceForJob E record.declaration.executionId.jobId).recordId
      with _ | d | _
    · rw [hentry] at hevidence
      exact absurd hevidence not_evidence_absent
    · rw [hentry] at hevidence
      have hkept : reclaimUnpreparedAllocation E {} (.directory d) = .ok (.directory d) :=
        (reclaim_evidence_iff {} hevidence).1.mpr ⟨fun _ => rfl, fun _ => rfl⟩
      have hprepare : prepareEntry E {} record (.directory d) =
          (.error prepareFailure, .directory d) := prepareEntry_of_error (allocate_kept hkept)
      simp only [prepare, hentry, hprepare]
      rw [← hentry, Function.update_eq_self]
    · exact absurd hentry hreal
  · have hprepare := prepareEntry_of_not_evidence hreal hevidence hpublish
    have hentry : (prepare E {} record root).2
        (recordReferenceForJob E record.declaration.executionId.jobId).recordId =
          .directory (emptyDirectory.withManifest bytes) := by
      simp only [prepare, hprepare, Function.update_self]
    rw [or_iff_right hevidence]
    constructor
    · exact fun h => scalar_of_load hE (h.loaded hevidence)
    · exact fun hscalar => ⟨fun h => absurd h hevidence,
        fun _ => ⟨by simp only [prepare, hprepare], rfl, hentry⟩,
        fun _ => load_published hE hscalar hpublish emptyDirectory hentry, hothers⟩

theorem leastRecord_publishes :
    plainStore.publishManifest (manifestPayload (.prepared leastRecord)) =
      .ok (dumps (manifestPayload (.prepared leastRecord))) :=
  plainStore_publishes leastRecord_within

/-- Where there is no directory, `leastRecord` is prepared. -/
theorem prepare_effect_absent :
    PrepareEffect plainStore leastRecord (fun _ => .absent)
      (dumps (manifestPayload (.prepared leastRecord))) ⟨recordIdNamespace⟩ :=
  (prepare_effect_iff plainStore_readsBack leastRecord (fun _ => .absent) _ leastRecord_publishes
    ⟨recordIdNamespace⟩ rfl (fun h => by cases h)).mpr (.inr leastRecord_scalar)

/-- **A job whose workspace is spelled with a lone surrogate is prepared, and its record does not
load.** -/
theorem undecodable_notLoaded :
    (prepare plainStore {} undecodablePrepared (fun _ => .absent)).1 =
        .ok (preparedRun plainStore undecodablePrepared) ∧
      load plainStore {} (prepare plainStore {} undecodablePrepared (fun _ => .absent)).2
        ⟨recordIdNamespace⟩ ≠ .ok (.prepared undecodablePrepared) := by
  have hpublish : plainStore.publishManifest (manifestPayload (.prepared undecodablePrepared)) =
      .ok (dumps (manifestPayload (.prepared undecodablePrepared))) :=
    plainStore_publishes (by decide +kernel)
  have hprepare : prepareEntry plainStore {} undecodablePrepared .absent = _ :=
    prepareEntry_of_not_evidence (fun h => by cases h) not_evidence_absent hpublish
  refine ⟨by simp only [prepare, hprepare], fun hload => ?_⟩
  exact absurd (scalar_of_load plainStore_readsBack hload) (by decide +kernel)

/-! ### Failing reads -/

/-- The call removes a directory that was at the record's path. -/
def RemovesDirectory (E : StoreCodec R) (faults : PrepareFaults) (entry : Entry) : Prop :=
  faults.mkdir = false ∧ ∃ d, entry = .directory d ∧
    reclaimUnpreparedAllocation E faults.reclaim entry = .ok .absent

/-- **When evidence survives.** Whatever reads of the manifest fail, `prepare` leaves a directory
that holds a lifecycle record or names another version exactly when the read that recognises it does
not fail: the one of `_load_record` for a record, the second one for another version. It then fails
and changes nothing. -/
theorem evidence_kept_iff (record : PreparedRecord R) (reads cleanup : ReclaimFaults) (root : Root)
    (d : Directory) (reference : RunRecordReference)
    (hreference : reference = recordReferenceForJob E record.declaration.executionId.jobId)
    (hentry : root reference.recordId = .directory d) (hevidence : Evidence E (.directory d)) :
    (¬ RemovesDirectory E { reclaim := reads, cleanup := cleanup } (root reference.recordId) ↔
        (Loads E (.directory d) → reads.load = none) ∧
          (NamesOtherVersion E (.directory d) → reads.probe = none)) ∧
      (¬ RemovesDirectory E { reclaim := reads, cleanup := cleanup } (root reference.recordId) →
        prepare E { reclaim := reads, cleanup := cleanup } record root =
          (.error prepareFailure, root)) := by
  subst hreference
  obtain ⟨hiff, hremoved⟩ := reclaim_evidence_iff reads hevidence
  have hkeeps : ¬ RemovesDirectory E { reclaim := reads, cleanup := cleanup } (.directory d) ↔
      reclaimUnpreparedAllocation E reads (.directory d) = .ok (.directory d) := by
    constructor
    · intro hnot
      by_contra hne
      exact hnot ⟨rfl, d, rfl, hremoved hne⟩
    · rintro hkept ⟨-, d', -, habsent⟩
      cases hkept.symm.trans habsent
  rw [hentry]
  refine ⟨hkeeps.trans hiff, fun hnot => ?_⟩
  have hprepare : prepareEntry E { reclaim := reads, cleanup := cleanup } record (.directory d) =
      (.error prepareFailure, .directory d) :=
    prepareEntry_of_error (allocate_kept (hkeeps.mp hnot))
  simp only [prepare, hentry, hprepare]
  rw [← hentry, Function.update_eq_self]

/-- Where the first read fails, a record is replaced by the one that is prepared. -/
theorem replaced_of_failedRead (hE : E.ReadsBack) {record : PreparedRecord R} {bytes : Bytes}
    {root : Root} {d : Directory} {reference : RunRecordReference}
    (hreference : reference = recordReferenceForJob E record.declaration.executionId.jobId)
    (hentry : root reference.recordId = .directory d) (hloads : Loads E (.directory d))
    (hscalar : (manifestPayload (.prepared record)).scalar = true)
    (hpublish : E.publishManifest (manifestPayload (.prepared record)) = .ok bytes)
    (e : DocumentDirectoryError) :
    RemovesDirectory E { reclaim := { load := some e } } (root reference.recordId) ∧
      (prepare E { reclaim := { load := some e } } record root).1 = .ok (preparedRun E record) ∧
      load E {} (prepare E { reclaim := { load := some e } } record root).2 reference =
        .ok (.prepared record) := by
  obtain ⟨error, herror⟩ := loadRecord_fault (E := E) e (.directory d)
  have hremoved : reclaimUnpreparedAllocation E { load := some e } (.directory d) = .ok .absent :=
    reclaim_removed herror (hloads.version none)
  have hprepare : prepareEntry E { reclaim := { load := some e } } record (.directory d) =
      (.ok (preparedRun E record), .directory (emptyDirectory.withManifest bytes)) :=
    prepareEntry_published (allocate_removed rfl hremoved rfl rfl) rfl hpublish
  subst hreference
  refine ⟨?_, by simp only [prepare, hentry, hprepare],
    load_published hE hscalar hpublish emptyDirectory (by simp only [prepare, hentry, hprepare,
      Function.update_self])⟩
  rw [hentry]
  exact ⟨rfl, d, rfl, hremoved⟩

/-- A manifest that cannot be read for once. -/
def readFailure : DocumentDirectoryError where
  typeName := Text.lit "DocumentDirectoryError"
  errno := some 5

/-- A run of `leastDeclaration`. -/
def leastRunning : RunningRecord plainRecords := ⟨leastHeader, leastDeclaration, ⟨1, epoch⟩⟩

/-- The directory of a record, at every path. -/
def rootOf (record : RunRecord plainRecords) : Root := fun _ =>
  .directory (emptyDirectory.withManifest (dumps (manifestPayload record)))

theorem leastRunning_publishes :
    plainStore.publishManifest (manifestPayload (.running leastRunning)) =
      .ok (dumps (manifestPayload (.running leastRunning))) :=
  plainStore_publishes (by decide +kernel)

theorem leastRunning_scalar : (manifestPayload (.running leastRunning)).scalar = true := by
  decide +kernel

theorem leastRunning_loads (recordId : Uuid) :
    Loads plainStore (rootOf (.running leastRunning) recordId) :=
  ⟨_, loadRecord_published plainStore_readsBack leastRunning_scalar leastRunning_publishes
    emptyDirectory⟩

/-- **One failing read destroys the record of a run**: the call returns a run, and a prepared record
is loaded where the running one was. -/
theorem failedRead_destroys :
    Loads plainStore (rootOf (.running leastRunning) recordIdNamespace) ∧
      RemovesDirectory plainStore { reclaim := { load := some readFailure } }
        (rootOf (.running leastRunning) recordIdNamespace) ∧
      (prepare plainStore { reclaim := { load := some readFailure } } leastRecord
        (rootOf (.running leastRunning))).1 = .ok (preparedRun plainStore leastRecord) ∧
      load plainStore {} (prepare plainStore { reclaim := { load := some readFailure } } leastRecord
        (rootOf (.running leastRunning))).2 ⟨recordIdNamespace⟩ = .ok (.prepared leastRecord) :=
  have hloads := leastRunning_loads recordIdNamespace
  ⟨hloads, replaced_of_failedRead plainStore_readsBack rfl rfl hloads leastRecord_scalar
    leastRecord_publishes readFailure⟩

/-- The record of a run is kept where the read that loads it does not fail. -/
theorem evidence_kept_of_load :
    prepare plainStore { reclaim := { probe := some readFailure } } leastRecord
        (rootOf (.running leastRunning)) =
      (.error prepareFailure, rootOf (.running leastRunning)) :=
  have hloads := leastRunning_loads recordIdNamespace
  have h := evidence_kept_iff leastRecord { probe := some readFailure } {}
    (rootOf (.running leastRunning)) _ ⟨recordIdNamespace⟩ rfl rfl (.inl hloads)
  h.2 (h.1.mpr ⟨fun _ => rfl, fun hother => absurd hloads (not_loads hother)⟩)

/-! ### Failing calls -/

variable (E) in
/-- What a failed call leaves of a job that can be retried: no record is loaded, and a call without
failures succeeds. -/
structure Retryable (jobId : Uuid) (root : Root) : Prop where
  not_loaded : ∀ record, load E {} root (recordReferenceForJob E jobId) ≠ .ok record
  prepares : ∀ record : PreparedRecord R, record.declaration.executionId.jobId = jobId →
    (∃ bytes, E.publishManifest (manifestPayload (.prepared record)) = .ok bytes) →
      ∃ run, (prepare E {} record root).1 = .ok run

/-- Nothing but absence or a directory without evidence is retryable. -/
theorem retryable_of_entry {jobId : Uuid} {root : Root} {entry : Entry}
    (hentry : root (recordReferenceForJob E jobId).recordId = entry) (hreal : entry ≠ .other)
    (hevidence : ¬ Evidence E entry) : Retryable E jobId root where
  not_loaded record hload := by
    rcases entry with _ | d | _
    · simp [load, resolve, hentry, bind, Except.bind] at hload
    · rcases hrecord : loadRecord E none (.directory d) with error | loaded
      · simp [load, resolve, hentry, bind, Except.bind, hrecord] at hload
      · exact hevidence (.inl ⟨loaded, hrecord⟩)
    · exact hreal rfl
  prepares record hjob hbytes := by
    obtain ⟨bytes, hpublish⟩ := hbytes
    have hprepare := prepareEntry_of_not_evidence hreal hevidence hpublish
    subst hjob
    exact ⟨preparedRun E record, by simp only [prepare, hentry, hprepare]⟩

theorem not_evidence_empty (hE : E.ReadsBack) : ¬ Evidence E (.directory emptyDirectory) := by
  rintro (⟨record, h⟩ | h)
  · obtain ⟨error, herror⟩ := loadRecord_empty hE none
    cases herror.symm.trans h
  · obtain ⟨version, hversion⟩ := namesOtherVersion_iff.mp h
    cases (unsupported_empty hE none).symm.trans hversion

/-- The call comes to publish, and the publication raises after it replaced the manifest by one that
is evidence. -/
def RaisesAfterReplacing (E : StoreCodec R) (faults : PrepareFaults) (record : PreparedRecord R)
    (entry : Entry) : Prop :=
  faults.mkdir = false ∧ (entry ≠ .absent → faults.mkdirAgain = false) ∧
    faults.openDirectory = false ∧ (∃ e, faults.publish = some (.after e)) ∧
      ∃ bytes, E.publishManifest (manifestPayload (.prepared record)) = .ok bytes ∧
        Evidence E (.directory (emptyDirectory.withManifest bytes))

/-- Allocating without failing reads opens a new directory, or fails and leaves no evidence. -/
theorem allocate_cases (hE : E.ReadsBack) {faults : PrepareFaults} {entry : Entry}
    (hreads : faults.reclaim = {}) (hreal : entry ≠ .other) (hevidence : ¬ Evidence E entry) :
    (allocate E faults entry = (.ok (), .directory emptyDirectory) ∧ faults.mkdir = false ∧
        (entry ≠ .absent → faults.mkdirAgain = false) ∧ faults.openDirectory = false) ∨
      ∃ error left, allocate E faults entry = (.error error, left) ∧ left ≠ .other ∧
        ¬ Evidence E left ∧ ¬ (faults.mkdir = false ∧
          (entry ≠ .absent → faults.mkdirAgain = false) ∧ faults.openDirectory = false) := by
  rcases hmkdir : faults.mkdir with _ | _
  swap
  · exact .inr ⟨prepareFailure, entry, if_pos hmkdir, hreal, hevidence, by simp⟩
  rcases hopen : faults.openDirectory with _ | _
  · rcases entry with _ | d | _
    · exact .inl ⟨allocate_absent hmkdir hopen, rfl, fun h => absurd rfl h, rfl⟩
    · have hremoved : reclaimUnpreparedAllocation E faults.reclaim (.directory d) = .ok .absent :=
        hreads ▸ reclaim_of_not_evidence hevidence
      rcases hagain : faults.mkdirAgain with _ | _
      · exact .inl ⟨allocate_removed hmkdir hremoved hagain hopen, rfl, fun _ => rfl, rfl⟩
      · refine .inr ⟨prepareFailure, .absent, ?_, nofun, not_evidence_absent, by simp⟩
        simp [allocate, hmkdir, hremoved, hagain, prepareFailure]
    · exact absurd rfl hreal
  · rcases entry with _ | d | _
    · refine .inr ⟨prepareFailure, .directory emptyDirectory, ?_, nofun, not_evidence_empty hE,
        by simp⟩
      simp [allocate, openAllocated, hmkdir, hopen, prepareFailure]
    · have hremoved : reclaimUnpreparedAllocation E faults.reclaim (.directory d) = .ok .absent :=
        hreads ▸ reclaim_of_not_evidence hevidence
      rcases hagain : faults.mkdirAgain with _ | _
      · refine .inr ⟨prepareFailure, .directory emptyDirectory, ?_, nofun, not_evidence_empty hE,
          by simp⟩
        simp [allocate, openAllocated, hmkdir, hremoved, hagain, hopen, prepareFailure]
      · refine .inr ⟨prepareFailure, .absent, ?_, nofun, not_evidence_absent, by simp⟩
        simp [allocate, hmkdir, hremoved, hagain, prepareFailure]
    · exact absurd rfl hreal

/-- How publishing into a new directory ends. -/
theorem publish_cases (fault : Option PublishFault) (payload : Json) :
    (∃ e, publish E fault payload (.directory emptyDirectory) =
        (.error e, .directory emptyDirectory) ∧
          ¬ ((∃ e, fault = some (.after e)) ∧ ∃ bytes, E.publishManifest payload = .ok bytes)) ∨
      ∃ bytes, E.publishManifest payload = .ok bytes ∧
        (fault = none ∨ ∃ e, fault = some (.after e)) := by
  rcases hpublish : E.publishManifest payload with refusal | bytes
  · rcases fault with _ | e | e
    · exact .inl ⟨refusal, by simp [publish, hpublish]⟩
    · exact .inl ⟨e, by simp [publish]⟩
    · exact .inl ⟨refusal, by simp [publish, hpublish]⟩
  · rcases fault with _ | e | e
    · exact .inr ⟨bytes, rfl, .inl rfl⟩
    · exact .inl ⟨e, by simp [publish]⟩
    · exact .inr ⟨bytes, rfl, .inr ⟨e, rfl⟩⟩

/-- **When a failed `prepare` leaves the job retryable**, where there was no evidence and every read
succeeds: exactly when its publication did not raise after it had replaced the manifest, unless by
one that is no evidence, which the cleanup removes. -/
theorem retryable_iff (hE : E.ReadsBack) (record : PreparedRecord R) (faults : PrepareFaults)
    (hreclaim : faults.reclaim = {}) (hcleanup : faults.cleanup = {}) (root : Root)
    (reference : RunRecordReference)
    (hreference : reference = recordReferenceForJob E record.declaration.executionId.jobId)
    (hreal : root reference.recordId ≠ .other)
    (hevidence : ¬ Evidence E (root reference.recordId)) :
    ((∃ error, (prepare E faults record root).1 = .error error) →
        Retryable E record.declaration.executionId.jobId (prepare E faults record root).2) ↔
      ¬ RaisesAfterReplacing E faults record (root reference.recordId) := by
  subst hreference
  generalize hid : (recordReferenceForJob E record.declaration.executionId.jobId).recordId = id
    at hreal hevidence ⊢
  generalize hentry : root id = entry at hreal hevidence ⊢
  have hresult : ∀ result left, prepareEntry E faults record entry = (result, left) →
      (prepare E faults record root).1 = result ∧ (prepare E faults record root).2 id = left := by
    intro result left h
    simp only [prepare, hid, hentry, h, Function.update_self, and_self]
  have hretryable : ∀ error left, prepareEntry E faults record entry = (.error error, left) →
      left ≠ .other → ¬ Evidence E left →
      Retryable E record.declaration.executionId.jobId (prepare E faults record root).2 :=
    fun error left h hleft hnone =>
      retryable_of_entry (hid ▸ (hresult _ left h).2) hleft hnone
  rcases allocate_cases hE hreclaim hreal hevidence with
    ⟨hallocate, hmkdir, hagain, hopen⟩ | ⟨error, left, hallocate, hleft, hnone, hnot⟩
  · rcases publish_cases (E := E) faults.publish (manifestPayload (.prepared record)) with
      ⟨e, hpublish, hnot⟩ | ⟨bytes, hpublish, hfault | ⟨e, hfault⟩⟩
    · -- the new directory is removed again
      refine iff_of_true (fun _ => hretryable _ _ (prepareEntry_unpublished hE hallocate hpublish)
        nofun not_evidence_absent) ?_
      rintro ⟨-, -, -, hafter, bytes, hbytes, -⟩
      exact hnot ⟨hafter, bytes, hbytes⟩
    · refine iff_of_true ?_ ?_
      · rintro ⟨error, herror⟩
        have hok := (hresult _ _ (prepareEntry_published hallocate hfault hpublish)).1
        cases hok.symm.trans herror
      · rintro ⟨-, -, -, ⟨e, hafter⟩, -⟩
        cases hfault.symm.trans hafter
    · obtain ⟨hkeeps, hremoves⟩ := prepareEntry_replaced hallocate hfault hpublish hcleanup
      by_cases hnew : Evidence E (.directory (emptyDirectory.withManifest bytes))
      · -- the cleanup keeps the manifest that was published, and so does every later call
        obtain ⟨hfailed, hleft⟩ := hresult _ _ (hkeeps hnew)
        refine iff_of_false (fun h => ?_)
          (not_not.mpr ⟨hmkdir, hagain, hopen, ⟨e, hfault⟩, bytes, hpublish, hnew⟩)
        obtain ⟨run, hrun⟩ := (h ⟨_, hfailed⟩).prepares record rfl ⟨bytes, hpublish⟩
        have hkept : prepareEntry E {} record (.directory (emptyDirectory.withManifest bytes)) =
            (.error prepareFailure, .directory (emptyDirectory.withManifest bytes)) :=
          prepareEntry_of_error (allocate_kept
            ((reclaim_evidence_iff {} hnew).1.mpr ⟨fun _ => rfl, fun _ => rfl⟩))
        rw [prepare, hid, hleft, hkept] at hrun
        cases hrun
      · refine iff_of_true (fun _ => hretryable _ _ (hremoves hnew) (fun h => by cases h)
          not_evidence_absent) ?_
        rintro ⟨-, -, -, -, bytes', hbytes', hevidence'⟩
        obtain rfl := Except.ok.inj (hpublish.symm.trans hbytes')
        exact hnew hevidence'
  · refine iff_of_true (fun _ => hretryable _ _ (prepareEntry_of_error hallocate) hleft hnone) ?_
    exact fun h => hnot ⟨h.1, h.2.1, h.2.2.1⟩

/-- A call whose publication raises after the replacement fails, and its record is loaded. -/
theorem prepare_replaced (hE : E.ReadsBack) {record : PreparedRecord R} {bytes : Bytes}
    {root : Root} {reference : RunRecordReference}
    (hreference : reference = recordReferenceForJob E record.declaration.executionId.jobId)
    (hentry : root reference.recordId = .absent)
    (hscalar : (manifestPayload (.prepared record)).scalar = true)
    (hpublish : E.publishManifest (manifestPayload (.prepared record)) = .ok bytes)
    (e : DocumentDirectoryError) :
    (prepare E { publish := some (.after e) } record root).1 = .error prepareFailure ∧
      load E {} (prepare E { publish := some (.after e) } record root).2 reference =
        .ok (.prepared record) := by
  subst hreference
  have hprepare : prepareEntry E { publish := some (.after e) } record .absent =
      (.error prepareFailure, .directory (emptyDirectory.withManifest bytes)) :=
    (prepareEntry_replaced (allocate_absent rfl rfl) rfl hpublish rfl).1
      (.inl ⟨_, loadRecord_published hE hscalar hpublish emptyDirectory⟩)
  refine ⟨by simp only [prepare, hentry, hprepare], ?_⟩
  exact load_published hE hscalar hpublish emptyDirectory
    (by simp only [prepare, hentry, hprepare, Function.update_self])

/-- **A publication that raises too late costs the job its retry**: the call fails, and the record
it was given is loaded. -/
theorem lateRaise_blocks :
    (prepare plainStore { publish := some (.after readFailure) } leastRecord (fun _ => .absent)).1 =
        .error prepareFailure ∧
      load plainStore {} (prepare plainStore { publish := some (.after readFailure) } leastRecord
        (fun _ => .absent)).2 ⟨recordIdNamespace⟩ = .ok (.prepared leastRecord) :=
  prepare_replaced plainStore_readsBack rfl rfl leastRecord_scalar leastRecord_publishes readFailure

/-- A publication that raises before the replacement leaves the job retryable. -/
theorem retryable_of_before :
    Retryable plainStore nilUuid (prepare plainStore { publish := some (.before readFailure) }
      leastRecord (fun _ => .absent)).2 :=
  (retryable_iff plainStore_readsBack leastRecord { publish := some (.before readFailure) } rfl rfl
    (fun _ => .absent) ⟨recordIdNamespace⟩ rfl nofun not_evidence_absent).mpr
      (by rintro ⟨-, -, -, ⟨e, he⟩, -⟩; cases he) ⟨prepareFailure, rfl⟩

end DrExec.Recording.Store
