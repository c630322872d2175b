import DrExec.Recording.Models

/-! # The form of a run record

How `model_dump(mode="json")` writes a lifecycle record and `validate_json(.., strict=True)` reads
it: one form for each model of `recording/models.py`, every validator where the code runs it. A form
reads back what it writes, so a record does (`runRecord`). -/

namespace DrExec.Recording.Records

open DrExec.Core.Identity DrExec.Core.Model DrExec.Core.Scalars DrExec.Declarations.Models
open DrExec.Declarations.Records DrExec.Declarations.Validation DrExec.Lib DrExec.Lib.Json
open DrExec.Recording.Identity DrExec.Recording.Models DrExec.Recording.Outcomes
open DrExec.Runtime.Protocol DrExec.Runtime.Wire

variable (C : Codec) (R : RecordCodec)

/-! ### The header and the declaration -/

/-- `schema_version: Literal[2] = 2` -/
def schemaVersion : Form Unit :=
  .refine .int (fun n => if n = 2 then some () else none) (fun _ => 2) (fun _ => if_pos rfl)
    (fun _ _ h => (Option.ite_none_right_eq_some.mp h).1.symm)

def runRecordHeader : Form (RunRecordHeader C) :=
  (Form.object <|
    (Fields.withDefault "schema_version" () schemaVersion).and <|
    (Fields.field "executor_identity" (identityDocument C)).and <|
    (Fields.field "executor_config_identity" (identityDocument C)).and <|
    (Fields.field "prepared_at" utcDatetime)).refine
    (fun (_, executorIdentity, executorConfigIdentity, preparedAt) =>
      if h : validateExecutorIdentity executorIdentity = true ∧
          validateExecutorConfigIdentity executorConfigIdentity = true then
        some ⟨executorIdentity, executorConfigIdentity, preparedAt, h.1, h.2⟩
      else none)
    (fun header => ((), header.executorIdentity, header.executorConfigIdentity, header.preparedAt))
    (fun header => dif_pos
      ⟨header.validated_executor_identity, header.validated_executor_config_identity⟩)
    (fun _ _ h => by
      obtain ⟨_, rfl⟩ := eq_of_dite_some h
      rfl)

def runtimeRecord : Form (RuntimeRecord C) :=
  (Form.object <|
    (Fields.field "kind" (literal "isolated_host_python")).and <|
    (Fields.field "resolved_executable" path).and <|
    (Fields.field "id_doc" (identityDocument C))).refine
    (fun (_, resolvedExecutable, idDoc) =>
      if h : MatchesIdentity resolvedExecutable idDoc then some ⟨resolvedExecutable, idDoc, h⟩
      else none)
    (fun runtime => ((), runtime.resolvedExecutable, runtime.idDoc))
    (fun runtime => dif_pos runtime.fields_must_match_identity)
    (fun _ _ h => by
      obtain ⟨_, rfl⟩ := eq_of_dite_some h
      rfl)

def containmentProfile : Form ContainmentProfile :=
  .enum [.processBoundaryOnly] (fun _ => "process_boundary_only") (by rintro ⟨⟩; simp)

/-- The fields of a command target. -/
def commandTarget : Fields ["canonical_declaration_sha256"] (Sha256Digest C) :=
  .field "canonical_declaration_sha256" (sha256Digest C)

/-- The fields of a Python target, its containment profile aside. -/
def pythonTarget : Fields ["canonical_declaration_sha256", "request_id_sha256", "runtime"]
    (Sha256Digest C × Sha256Digest C × RuntimeRecord C) :=
  (Fields.field "canonical_declaration_sha256" (sha256Digest C)).and <|
  (Fields.field "request_id_sha256" (sha256Digest C)).and <|
  .field "runtime" (runtimeRecord C)

/-- The field of an untrusted target. -/
def profileField : Fields ["containment_profile"] ContainmentProfile :=
  .field "containment_profile" containmentProfile

def executionTargetRecord : Form (ExecutionTargetRecord C) :=
  ((.one "trusted_command" (commandTarget C) : Variants "kind" _ _).or <|
    (Variants.one "trusted_python" (pythonTarget C)).or <|
    (Variants.one "untrusted_command" ((commandTarget C).and profileField)).or <|
    .one "untrusted_python" ((pythonTarget C).and profileField)).form.refine
    (fun
      | .inl digest => some (.trustedCommand digest)
      | .inr (.inl (digest, requestId, runtime)) => some (.trustedPython digest requestId runtime)
      | .inr (.inr (.inl (digest, profile))) => some (.untrustedCommand digest profile)
      | .inr (.inr (.inr ((digest, requestId, runtime), profile))) =>
        some (.untrustedPython digest requestId profile runtime))
    (fun
      | .trustedCommand digest => .inl digest
      | .trustedPython digest requestId runtime => .inr (.inl (digest, requestId, runtime))
      | .untrustedCommand digest profile => .inr (.inr (.inl (digest, profile)))
      | .untrustedPython digest requestId profile runtime =>
        .inr (.inr (.inr ((digest, requestId, runtime), profile))))
    (by rintro (_ | _ | _ | _) <;> rfl)
    (by rintro (_ | _ | _ | _) _ h <;> exact Option.some.inj h ▸ rfl)

/-- `WorkingDirectoryGrantKind` -/
def workingDirectoryGrantKind : Form Bool :=
  .enum [true, false]
    (fun
      | true => "caller"
      | false => "scratch")
    (by rintro (_ | _) <;> simp)

/-- `WorkingDirectoryGrantRecord`, a path left out where there is none. -/
def workingDirectoryGrantRecord : Form WorkingDirectoryGrantRecord :=
  (Form.object <|
    (Fields.field "kind" workingDirectoryGrantKind).and (.omitted "path" textForm nofun)).refine
    (fun
      | (false, none) => some .scratch
      | (true, some path) =>
        if h : persistedCallerWorkspacePathShapeError path.value = none then
          some (.caller ⟨path, h⟩)
        else none
      | _ => none)
    (fun
      | .scratch => (false, none)
      | .caller path => (true, some path))
    (by
      rintro (_ | path)
      · rfl
      · exact dif_pos path.2)
    (by
      rintro ⟨_ | _, _ | _⟩ _ h
      · exact Option.some.inj h ▸ rfl
      · cases h
      · cases h
      · obtain ⟨_, rfl⟩ := eq_of_dite_some h
        rfl)

def executionId : Form ExecutionId :=
  (Form.object ((Fields.field "job_id" canonicalUuid).and (.field "attempt_id" canonicalUuid))).refine
    (fun (jobId, attemptId) => some ⟨jobId, attemptId⟩) (fun id => (id.jobId, id.attemptId))
    (fun _ => rfl)
    (fun _ _ h => Option.some.inj h ▸ rfl)

def runDeclaration : Form (RunDeclaration R) :=
  (Form.object <|
    (Fields.field "execution_id" executionId).and <|
    (Fields.field "target" (executionTargetRecord R.toCodec)).and <|
    (Fields.field "env" (envGrantRecord R)).and <|
    (Fields.field "budgets" budgets).and <|
    (Fields.withDefault "workspace" .scratch workingDirectoryGrantRecord)).refine
    (fun (executionId, target, env, budgets, workspace) =>
      some ⟨executionId, target, env, budgets, workspace⟩)
    (fun d => (d.executionId, d.target, d.env, d.budgets, d.workspace)) (fun _ => rfl)
    (fun _ _ h => Option.some.inj h ▸ rfl)

def processRecord : Form ProcessRecord :=
  (Form.object ((Fields.field "pid" .pos).and (.field "started_at" utcDatetime))).refine
    (fun (pid, startedAt) => some ⟨pid, startedAt⟩) (fun p => (p.pid, p.startedAt)) (fun _ => rfl)
    (fun _ _ h => Option.some.inj h ▸ rfl)

/-! ### Outputs -/

/-- `spelling_must_be_normalized_relative` -/
def spellingNormalizedRelative (s : Str) : Bool :=
  s.head? ≠ some slash && (s.splitOn slash).all fun part => part ∉ [[], [dot], dotDot]

theorem splitOn_asPosix {path : PurePosixPath} (h : NormalizedRelative path) :
    path.asPosix.splitOn slash = path.parts := by
  have hspell : path.asPosix = [slash].intercalate path.parts := by
    unfold PurePosixPath.asPosix spellPath
    rw [if_neg fun hdot => h.2.1 hdot.2, h.1]
    rfl
  rw [hspell]
  exact List.splitOn_intercalate slash (fun part hpart => (path.valid part hpart).2.2) h.2.1

theorem spellingNormalizedRelative_asPosix {path : PurePosixPath} (h : NormalizedRelative path) :
    spellingNormalizedRelative path.asPosix = true := by
  have hroot := pathRoot_asPosix path
  rw [h.1] at hroot
  rw [spellingNormalizedRelative, splitOn_asPosix h, Bool.and_eq_true, List.all_eq_true]
  refine ⟨decide_eq_true fun hslash => ?_, fun part hpart => decide_eq_true ?_⟩
  · obtain ⟨rest, hrest⟩ : ∃ rest, path.asPosix = slash :: rest := List.head?_eq_some_iff.mp hslash
    rw [hrest] at hroot
    unfold pathRoot at hroot
    split at hroot
    next hlength => simp at hlength
    · cases hroot
    · cases hroot
  · obtain ⟨hempty, hdot, -⟩ := path.valid part hpart
    have hdotDot : part ≠ dotDot := fun heq => h.2.2 (heq ▸ hpart)
    simp [hempty, hdot, hdotDot]

/-- `relative_path` -/
def relativePath : Form {path : PurePosixPath // NormalizedRelative path} :=
  .spelled (fun path => path.1.asPosix)
    (fun s =>
      if spellingNormalizedRelative s = true then
        if h : NormalizedRelative (.ofStr s) then some ⟨.ofStr s, h⟩ else none
      else none)
    (fun s path hs h => by
      obtain ⟨-, h⟩ := Option.ite_none_right_eq_some.mp h
      obtain ⟨_, rfl⟩ := eq_of_dite_some h
      exact PurePosixPath.isScalar_ofStr hs)
    (fun path => by
      rw [if_pos (spellingNormalizedRelative_asPosix path.2)]
      simp only [path.1.ofStr_asPosix, dif_pos path.2])

def outputArtifactRecord : Form (OutputArtifactRecord C) :=
  (Form.object <|
    (Fields.field "relative_path" relativePath).and <|
    (Fields.field "size_bytes" .nat).and <|
    (Fields.field "sha256" (sha256Digest C))).refine
    (fun (relativePath, sizeBytes, sha256) => some ⟨relativePath, sizeBytes, sha256⟩)
    (fun a => (a.relativePath, a.sizeBytes, a.sha256)) (fun _ => rfl)
    (fun _ _ h => Option.some.inj h ▸ rfl)

def outputArtifactRecords : Form (OutputArtifactRecords C) :=
  (Form.object <|
    (Fields.field "stdout" (outputArtifactRecord C)).and
      (Fields.field "stderr" (outputArtifactRecord C)) stdout_notMem).refine
    (fun (stdout, stderr) => some ⟨stdout, stderr⟩) (fun a => (a.stdout, a.stderr)) (fun _ => rfl)
    (fun _ _ h => Option.some.inj h ▸ rfl)

def retainedPayloadStreamRecord : Form RetainedPayloadStreamRecord :=
  (Form.object <|
    (Fields.field "head_bytes" .nat).and <|
    (Fields.field "tail_bytes" .nat).and <|
    (Fields.field "produced_bytes" .nat).and <|
    (Fields.field "dropped_bytes" .nat)).refine
    (fun (head, tail, produced, dropped) =>
      if h : head + tail + dropped = produced then some ⟨head, tail, produced, dropped, h⟩
      else none)
    (fun s => (s.headBytes, s.tailBytes, s.producedBytes, s.droppedBytes))
    (fun s => dif_pos s.retained_and_dropped_bytes_must_equal_produced_bytes)
    (fun _ _ h => by
      obtain ⟨_, rfl⟩ := eq_of_dite_some h
      rfl)

def payloadOutputRecords : Form PayloadOutputRecords :=
  (Form.object <|
    (Fields.field "stdout" retainedPayloadStreamRecord).and
      (Fields.field "stderr" retainedPayloadStreamRecord) stdout_notMem).refine
    (fun (stdout, stderr) => some ⟨stdout, stderr⟩) (fun o => (o.stdout, o.stderr)) (fun _ => rfl)
    (fun _ _ h => Option.some.inj h ▸ rfl)

/-! ### Results -/

def budgetAxis : Form BudgetAxis :=
  .enum [.wallTime, .inputBytes, .payloadOutput, .memoryBytes, .cpuTime, .processCount,
      .fileSizeBytes, .openFileCount, .diskBytes]
    (fun
      | .wallTime => "wall_time"
      | .inputBytes => "input_bytes"
      | .payloadOutput => "payload_output"
      | .memoryBytes => "memory_bytes"
      | .cpuTime => "cpu_time"
      | .processCount => "process_count"
      | .fileSizeBytes => "file_size_bytes"
      | .openFileCount => "open_file_count"
      | .diskBytes => "disk_bytes")
    (by rintro (_ | _) <;> simp)

def protocolFailureCode : Form ProtocolFailureCode :=
  .enum [.malformedFrame, .oversizedFrame, .unexpectedFrame, .idMismatch, .duplicateOutput,
      .incompleteStream]
    (fun
      | .malformedFrame => "malformed_frame"
      | .oversizedFrame => "oversized_frame"
      | .unexpectedFrame => "unexpected_frame"
      | .idMismatch => "id_mismatch"
      | .duplicateOutput => "duplicate_output"
      | .incompleteStream => "incomplete_stream")
    (by rintro (_ | _) <;> simp)

def failureOwner : Form FailureOwner :=
  .enum [.none, .payload, .executor, .machine]
    (fun
      | .none => "none"
      | .payload => "payload"
      | .executor => "executor"
      | .machine => "machine")
    (by rintro (_ | _) <;> simp)

def executionOutcome : Form ExecutionOutcome :=
  ((.one "exited" (.field "exit_code" .int) : Variants "kind" _ _).or <|
    (Variants.one "signaled" (.field "signal_number" .pos)).or <|
    (Variants.one "spawn_absent" (.field "executable" textForm)).or <|
    (Variants.one "spawn_failed"
      ((Fields.field "errno" .int).and (.field "error_message" textForm))).or <|
    (Variants.one "budget_exceeded" (.field "axis" budgetAxis)).or <|
    (Variants.one "protocol_failed"
      ((Fields.field "failure_code" protocolFailureCode).and <|
      (Fields.field "failure_detail" textForm).and <|
      (.field "accepted_output_count" .nat))).or <|
    .one "cancelled" (.field "started" .bool)).form.refine
    (fun
      | .inl exitCode => some (.exited exitCode)
      | .inr (.inl signalNumber) => some (.signaled signalNumber)
      | .inr (.inr (.inl executable)) => some (.spawnAbsent executable)
      | .inr (.inr (.inr (.inl (errno, message)))) => some (.spawnFailed errno message)
      | .inr (.inr (.inr (.inr (.inl axis)))) => some (.budgetExceeded axis)
      | .inr (.inr (.inr (.inr (.inr (.inl (code, detail, count)))))) =>
        some (.protocolFailed code detail count)
      | .inr (.inr (.inr (.inr (.inr (.inr started))))) => some (.cancelled started))
    (fun
      | .exited exitCode => .inl exitCode
      | .signaled signalNumber => .inr (.inl signalNumber)
      | .spawnAbsent executable => .inr (.inr (.inl executable))
      | .spawnFailed errno message => .inr (.inr (.inr (.inl (errno, message))))
      | .budgetExceeded axis => .inr (.inr (.inr (.inr (.inl axis))))
      | .protocolFailed code detail count =>
        .inr (.inr (.inr (.inr (.inr (.inl (code, detail, count))))))
      | .cancelled started => .inr (.inr (.inr (.inr (.inr (.inr started))))))
    (by rintro (_ | _) <;> rfl)
    (by rintro (_ | _ | _ | _ | _ | _ | _) _ h <;> exact Option.some.inj h ▸ rfl)

def executionAttribution : Form ExecutionAttribution :=
  (Form.object <|
    (Fields.field "owner" failureOwner).and <|
    (Fields.withDefault "detail" none (textForm.nullable nofun))).refine
    (fun (owner, detail) => some ⟨owner, detail⟩) (fun a => (a.owner, a.detail)) (fun _ => rfl)
    (fun _ _ h => Option.some.inj h ▸ rfl)

def executionMeasurements : Form ExecutionMeasurements :=
  (Form.object <|
    (Fields.field "started_at" utcDatetime).and <|
    (Fields.field "finished_at" utcDatetime).and <|
    (Fields.field "duration_ns" .nat).and <|
    (Fields.field "teardown_duration_ns" .nat).and <|
    (Fields.field "input_bytes" .nat).and <|
    (Fields.field "protocol_bytes_received" .nat)).refine
    (fun (startedAt, finishedAt, duration, teardown, inputBytes, protocolBytes) =>
      if h : finishedAt.before startedAt = false then
        some ⟨startedAt, finishedAt, duration, teardown, inputBytes, protocolBytes, h⟩
      else none)
    (fun m => (m.startedAt, m.finishedAt, m.durationNs, m.teardownDurationNs, m.inputBytes,
      m.protocolBytesReceived))
    (fun m => dif_pos m.finished_must_not_precede_started)
    (fun _ _ h => by
      obtain ⟨_, rfl⟩ := eq_of_dite_some h
      rfl)

def executionResultRecord : Form (ExecutionResultRecord C) :=
  (Form.object <|
    (Fields.field "execution_id" executionId).and <|
    (Fields.field "outcome" executionOutcome).and <|
    (Fields.field "attribution" executionAttribution).and <|
    (Fields.field "protocol_outputs" (.list (identityDocument C))).and <|
    (Fields.field "payload_outputs" payloadOutputRecords).and <|
    (Fields.field "measurements" executionMeasurements)).refine
    (fun (executionId, outcome, attribution, outputs, payloadOutputs, measurements) =>
      if h : OutputCountMatches outcome outputs then
        some ⟨executionId, outcome, attribution, outputs, payloadOutputs, measurements, h⟩
      else none)
    (fun r => (r.executionId, r.outcome, r.attribution, r.protocolOutputs, r.payloadOutputs,
      r.measurements))
    (fun r => dif_pos r.protocol_output_count_must_match_outcome)
    (fun _ _ h => by
      obtain ⟨_, rfl⟩ := eq_of_dite_some h
      rfl)

/-! ### Lifecycle records -/

/-- The fields of a `PreparedRecord`, which every record has. -/
def preparedFields : Fields ["header", "declaration"]
    (RunRecordHeader R.toCodec × RunDeclaration R) :=
  (Fields.field "header" (runRecordHeader R.toCodec)).and (.field "declaration" (runDeclaration R))

/-- The further fields of a `FinalizedRecord`. -/
def finalizedFields : Fields ["result", "outputs"]
    (ExecutionResultRecord R.toCodec × OutputArtifactRecords R.toCodec) :=
  (Fields.field "result" (executionResultRecord R.toCodec)).and
    (.field "outputs" (outputArtifactRecords R.toCodec))

/-- `RunRecord`, its models told apart by `state`. -/
def runRecord : Form (RunRecord R) :=
  ((.one "prepared" (preparedFields R) : Variants "state" _ _).or <|
    (Variants.one "running" ((preparedFields R).and (.field "process" processRecord))).or <|
    .one "finalized" ((preparedFields R).and (finalizedFields R))).form.refine
    (fun
      | .inl (header, declaration) => some (.prepared ⟨header, declaration⟩)
      | .inr (.inl ((header, declaration), process)) =>
        some (.running ⟨header, declaration, process⟩)
      | .inr (.inr ((header, declaration), result, outputs)) =>
        if h : declaration.executionId = result.executionId then
          some (.finalized ⟨header, declaration, result, outputs, h⟩)
        else none)
    (fun
      | .prepared r => .inl (r.header, r.declaration)
      | .running r => .inr (.inl ((r.header, r.declaration), r.process))
      | .finalized r => .inr (.inr ((r.header, r.declaration), r.result, r.outputs)))
    (by
      rintro (_ | _ | r)
      · rfl
      · rfl
      · exact dif_pos r.execution_ids_must_match)
    (by
      rintro (_ | _ | _) _ h
      · exact Option.some.inj h ▸ rfl
      · exact Option.some.inj h ▸ rfl
      · obtain ⟨_, rfl⟩ := eq_of_dite_some h
        rfl)

end DrExec.Recording.Records
