import DrExec.Core.Scalars
import DrExec.Declarations.Records
import DrExec.Runtime.PlainCodec

/-! # Executor and runtime identities

The payloads that a record's identity documents carry: those of `recording/identity.py` for the
executor and its configuration, and that of `runtime/identity.py` for the interpreter. A document is
validated by reading its payload, and one that was built from a payload is valid
(`validatePayload_build`). -/

namespace DrExec.Recording.Identity

open DrExec.Core.Identity DrExec.Core.Model DrExec.Core.Scalars DrExec.Declarations.Records
open DrExec.Lib DrExec.Lib.Json DrExec.Runtime.Protocol DrExec.Runtime.Wire

/-- A document whose payload has this form under the schema. -/
def validatePayload {α : Type} (schema : String) (payload : Form α) (document : IdentityDocument) :
    Option α :=
  (requireIdentityRole document schema).bind payload.decode

/-- `build_identity_document` of a payload. -/
def buildIdentityDocument {α : Type} (schema : String) (payload : Form α) (a : α) :
    IdentityDocument where
  schema := Text.lit schema
  schemaVersion := identitySchemaVersion
  payload := (payload.encode a).normalize
  normal := normal_normalize _

/-- **A document built from a payload is read as it.** -/
theorem validatePayload_build {α : Type} (schema : String) {payload : Form α} {a : α}
    {members : List (Str × Json)} (hmembers : payload.encode a = .obj members) :
    validatePayload schema payload (buildIdentityDocument schema payload a) = some a := by
  have hpayload : (payload.encode a).normalize =
      .obj (mapValues Json.normalize (sortKeys members)) := by
    rw [hmembers, normalize_obj]
  have hrole : requireIdentityRole (buildIdentityDocument schema payload a) schema =
      some (payload.encode a).normalize := by
    unfold requireIdentityRole buildIdentityDocument
    rw [if_neg (by simp [Text.lit]), if_neg (by simp)]
    simp only [hpayload]
  rw [validatePayload, hrole, Option.bind_some, payload.decode_encode]

/-- Canonical JSON admits every document without surrogates. -/
theorem plainCodec_document {document : IdentityDocument}
    (h : document.toJsonDict.scalar = true) :
    plainCodec.validateIdentityDocument document.toJsonDict = true :=
  Bool.and_eq_true_iff.mpr ⟨h, rfl⟩

/-! ### The executor -/

/-- `is_git_object_id` -/
def isGitObjectId (value : Str) : Bool :=
  (value.length = 40 ∨ value.length = 64) && value.all fun c => (digitValue c).isSome

inductive SourceState
  | clean
  | unknown
  deriving DecidableEq, Repr

def sourceState : Form SourceState :=
  .enum [.clean, .unknown]
    (fun
      | .clean => "clean"
      | .unknown => "unknown")
    (by rintro (_ | _) <;> simp)

/-- A `source_commit` that is there. -/
abbrev GitObjectId := {t : Text // isGitObjectId t.value = true}

def gitObjectId : Form GitObjectId :=
  textForm.checked fun t => isGitObjectId t.value = true

/-- `provenance_must_be_complete` -/
def ProvenanceComplete : SourceState → Option GitObjectId → Option Uuid → Prop
  | .clean, sourceCommit, sessionId => sourceCommit ≠ none ∧ sessionId = none
  | .unknown, _, sessionId => sessionId ≠ none

instance (state : SourceState) (sourceCommit : Option GitObjectId) (sessionId : Option Uuid) :
    Decidable (ProvenanceComplete state sourceCommit sessionId) := by
  cases state <;> unfold ProvenanceComplete <;> infer_instance

/-- `_ExecutorIdentityPayload` -/
structure ExecutorIdentityPayload where
  packageVersion : NonemptyString
  sourceCommit : Option GitObjectId
  sourceState : SourceState
  sessionId : Option Uuid
  provenance : ProvenanceComplete sourceState sourceCommit sessionId

def executorIdentityPayload : Form ExecutorIdentityPayload :=
  (Form.object <|
    (Fields.field "kind" (literal "process_executor")).and <|
    (Fields.field "package_version" nonemptyString).and <|
    (Fields.field "source_commit" (gitObjectId.nullable nofun)).and <|
    (Fields.field "source_state" sourceState).and <|
    (Fields.field "session_id" (canonicalUuid.nullable nofun))).refine
    (fun (_, packageVersion, sourceCommit, sourceState, sessionId) =>
      if h : ProvenanceComplete sourceState sourceCommit sessionId then
        some ⟨packageVersion, sourceCommit, sourceState, sessionId, h⟩
      else none)
    (fun p => ((), p.packageVersion, p.sourceCommit, p.sourceState, p.sessionId))
    (fun p => dif_pos p.provenance)
    (fun _ _ h => by
      obtain ⟨_, rfl⟩ := eq_of_dite_some h
      rfl)

/-- `_ExecutorConfigIdentityPayload` -/
structure ExecutorConfigIdentityPayload where
  protocolFrameBytes : Budget
  protocolTotalBytes : Budget
  protocolOutputCount : Budget
  jsonDepth : Budget
  startupTime : Budget
  terminationTime : Budget
  joinTime : Budget

def executorConfigIdentityPayload : Form ExecutorConfigIdentityPayload :=
  (Form.object <|
    (Fields.field "protocol_frame_bytes" byteBudget).and <|
    (Fields.field "protocol_total_bytes" byteBudget).and <|
    (Fields.field "protocol_output_count" countBudget).and <|
    (Fields.field "json_depth" countBudget).and <|
    (Fields.field "startup_time" durationBudget).and <|
    (Fields.field "termination_time" durationBudget).and <|
    (Fields.field "join_time" durationBudget)).refine
    (fun (frameBytes, totalBytes, outputCount, jsonDepth, startupTime, terminationTime, joinTime) =>
      some ⟨frameBytes, totalBytes, outputCount, jsonDepth, startupTime, terminationTime, joinTime⟩)
    (fun p => (p.protocolFrameBytes, p.protocolTotalBytes, p.protocolOutputCount, p.jsonDepth,
      p.startupTime, p.terminationTime, p.joinTime))
    (fun _ => rfl) (fun _ _ h => Option.some.inj h ▸ rfl)

/-- `validate_executor_identity` -/
def validateExecutorIdentity (document : IdentityDocument) : Bool :=
  (validatePayload "dr_exec.executor" executorIdentityPayload document).isSome

/-- `validate_executor_config_identity` -/
def validateExecutorConfigIdentity (document : IdentityDocument) : Bool :=
  (validatePayload "dr_exec.executor_config" executorConfigIdentityPayload document).isSome

/-- `build_executor_identity` -/
def buildExecutorIdentity : ExecutorIdentityPayload → IdentityDocument :=
  buildIdentityDocument "dr_exec.executor" executorIdentityPayload

/-- `build_executor_config_identity` -/
def buildExecutorConfigIdentity : ExecutorConfigIdentityPayload → IdentityDocument :=
  buildIdentityDocument "dr_exec.executor_config" executorConfigIdentityPayload

theorem validateExecutorIdentity_build (payload : ExecutorIdentityPayload) :
    validateExecutorIdentity (buildExecutorIdentity payload) = true := by
  unfold validateExecutorIdentity buildExecutorIdentity
  rw [validatePayload_build _ rfl]
  rfl

theorem validateExecutorConfigIdentity_build (payload : ExecutorConfigIdentityPayload) :
    validateExecutorConfigIdentity (buildExecutorConfigIdentity payload) = true := by
  unfold validateExecutorConfigIdentity buildExecutorConfigIdentity
  rw [validatePayload_build _ rfl]
  rfl

/-! ### The interpreter -/

/-- The spelling of an absolute path without dots. -/
def NormalizedAbsolute (value : Str) : Prop :=
  pathRoot value ≠ .relative ∧ spellPath (pathRoot value) (pathParts value) = value ∧
    dotDot ∉ pathParts value

instance : DecidablePred NormalizedAbsolute := fun _ => inferInstanceAs (Decidable (_ ∧ _))

/-- `IsolatedHostRuntimeIdentityPayload` -/
structure IsolatedHostRuntimeIdentityPayload where
  resolvedExecutable : {t : Text // NormalizedAbsolute t.value}
  implementation : NonemptyString
  pythonVersion : NonemptyString
  cacheTag : NonemptyString
  platform : NonemptyString

def isolatedHostRuntimeIdentityPayload : Form IsolatedHostRuntimeIdentityPayload :=
  (Form.object <|
    (Fields.field "kind" (literal "isolated_host_python")).and <|
    (Fields.field "resolved_executable" (textForm.checked fun t => NormalizedAbsolute t.value)).and <|
    (Fields.field "implementation" nonemptyString).and <|
    (Fields.field "python_version" nonemptyString).and <|
    (Fields.field "cache_tag" nonemptyString).and <|
    (Fields.field "platform" nonemptyString)).refine
    (fun (_, executable, implementation, pythonVersion, cacheTag, platform) =>
      some ⟨executable, implementation, pythonVersion, cacheTag, platform⟩)
    (fun p => ((), p.resolvedExecutable, p.implementation, p.pythonVersion, p.cacheTag, p.platform))
    (fun _ => rfl) (fun _ _ h => Option.some.inj h ▸ rfl)

/-- `isolated_host_runtime_identity_payload` -/
def isolatedHostPayload : IdentityDocument → Option IsolatedHostRuntimeIdentityPayload :=
  validatePayload "dr_exec.isolated_host_python_runtime" isolatedHostRuntimeIdentityPayload

end DrExec.Recording.Identity
