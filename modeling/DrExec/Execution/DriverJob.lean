import DrExec.Execution.Modes
import DrExec.Runtime.Agreement

/-! # An importable job in a subprocess

The driver that `_driver_source` of `importable_json.py` generates, run by the bootstrap of the
child, and what `parse_importable_json_result` makes of the completion of its attempt. The driver
catches nothing: an entry point that raises, or returns what `emit` refuses, leaves a stream without
its completion frame. The parsed result is the one that the entry point returned, exactly if the
parent accepts the stream of its one document (`driver_result_iff`); with `Modes` that is the result
of the same job in process (`driver_agrees_iff`). -/

namespace DrExec.Execution.DriverJob

open DrExec.Core.Identity DrExec.Core.Model DrExec.Core.Scalars DrExec.Declarations.Models
open DrExec.Lib DrExec.Lib.Json DrExec.Lib.Lines DrExec.Recording.Models DrExec.Recording.Outcomes
open DrExec.Runtime.Bootstrap DrExec.Runtime.Grammar
open DrExec.Runtime.Protocol DrExec.Runtime.Wire
open DrExec.Execution.InProcess (Course Raised dispatch envelopeSchema envelopeSchemaVersion
  isImportableJsonEnvelope)
open DrExec.Execution.Modes (Built Quiet)
open DrExec.Execution.Spawn (Carried exitOutcome)
open DrExec.Execution.WorkerAnswers (Parent parseImportableJsonResult)

/-! ### The driver -/

/-- The interpreter of the child: each step gives what it returns, or raises. A limit of the
interpreter may stop the call of `emit`. -/
structure Child (Module Object : Type) where
  importModule : Str → Option Module
  getattr : Module → Str → Option Object
  callable : Object → Bool
  call : Object → PyValue → Option PyValue
  limited : Option String := none

/-- The document that the driver emits. -/
def envelopeRecord (result : PyValue) : PyValue :=
  PyValue.record [("schema", .str envelopeSchema.value), ("schema_version", .int envelopeSchemaVersion),
    ("payload", result)]

variable {Module Object : Type}

/-- The request names the schema of the envelope; the bootstrap has checked that its version is an
integer. -/
def isEnvelope (members : List (PyValue × PyValue)) : Bool :=
  match PyValue.get members "schema", PyValue.get members "schema_version" with
  | some (.str schema), some (.int version) =>
    schema = envelopeSchema.value && version = envelopeSchemaVersion
  | _, _ => false

/-- `dr_exec_main` up to its call of `emit`, with what the entry point returned; `none` where it
raises. -/
def drExecMain (child : Child Module Object) (entryPoint : ImportableEntryPoint) : PyValue → Option PyValue
  | .dict members =>
    if isEnvelope members then do
      let module ← child.importModule entryPoint.moduleName
      let callableEntry ← child.getattr module entryPoint.attributeName
      if child.callable callableEntry then
        let payload ← PyValue.get members "payload"
        child.call callableEntry payload
      else none
    else none
  | _ => none

/-- What the driver does of a request: it emits what the entry point returned, and returns if `emit`
does. -/
def driverRun (child : Child Module Object) (entryPoint : ImportableEntryPoint) (request : PyValue) :
    DriverRun :=
  match drExecMain child entryPoint request with
  | none => { calls := [], returns := false }
  | some result =>
    let call : EmitCall := { document := envelopeRecord result, limited := child.limited }
    { calls := [call], returns := call.accepted.isSome }

/-! ### The attempt -/

/-- The document of a payload. -/
def envelope (payload : Json) : Json :=
  .obj [(text "payload", payload), (text "schema", .str envelopeSchema.value),
    (text "schema_version", .int envelopeSchemaVersion)]

/-- The completion of an attempt that nothing stopped and whose payload output was within its budget:
its outcome and its outputs are those of the stream that was read. -/
structure Reported {C : Codec} (read : ProtocolStreamResult) (returncode : ℤ)
    (completed : CompletedExecution C) : Prop where
  outcome : ∃ detail, completed.result.outcome = Carried.outcome
    { protocolFailure := read.failure.map fun violation =>
        (violation.code, detail, read.outputs.length)
      returncode }
  outputs : completed.result.protocolOutputs.map (fun document => document.1.toJsonDict) =
    read.outputs

/-- The attempt of a job: the bytes that the child wrote for its request, read to their end. -/
def streamOf (loads : Bytes → Option PyValue) (sha256 : Bytes → Str)
    (child : Child Module Object) (entryPoint : ImportableEntryPoint) (data : Bytes) : Bytes :=
  (bootstrap loads sha256 data (driverRun child entryPoint ((loads data).getD .none))).written

/-! ### The document -/

theorem toJsonDict_eq (document : IdentityDocument) : document.toJsonDict =
    .obj [(text "payload", document.payload), (text "schema", .str document.schema.value),
      (text "schema_version", .int document.schemaVersion)] := rfl

/-- The document of an envelope. -/
theorem toJsonDict_eq_envelope {document : IdentityDocument} {payload : Json} :
    document.toJsonDict = envelope payload ↔
      isImportableJsonEnvelope document = true ∧ document.payload = payload := by
  have hschema : document.schema = envelopeSchema ↔ document.schema.value = envelopeSchema.value :=
    ⟨congrArg Text.value, fun h => by cases hs : document.schema; simp_all [envelopeSchema]⟩
  simp only [toJsonDict_eq, envelope, isImportableJsonEnvelope, Json.obj.injEq, List.cons.injEq,
    Prod.mk.injEq, Json.str.injEq, Json.int.injEq, true_and, and_true, Bool.and_eq_true, beq_iff_eq,
    hschema]
  tauto

/-- The keys of a document are in order. -/
theorem envelope_sorted (payload : Json) : KeysSorted [(text "payload", payload),
    (text "schema", .str envelopeSchema.value),
    (text "schema_version", .int envelopeSchemaVersion)] := by
  have hkeys : [text "payload", text "schema", text "schema_version"].Pairwise (· < ·) := by
    decide +kernel
  exact keysSorted_iff.mpr hkeys

/-- The three fields of the document that the driver emits are found. -/
theorem identity_envelopeRecord (result : PyValue) (origin : String) :
    drExecIdentity (envelopeRecord result) origin = (do
      drExecStrict result (origin ++ ".payload")
      .ok (.str envelopeSchema.value, .int envelopeSchemaVersion, result)) := by
  simp [drExecIdentity, envelopeRecord, PyValue.record, PyValue.get, PyValue.isKey, identityFields,
    text_injective.eq_iff]

theorem toJson_envelopeRecord (result : PyValue) :
    (envelopeRecord result).toJson = result.toJson.map fun p =>
      .obj [(text "schema", .str envelopeSchema.value),
        (text "schema_version", .int envelopeSchemaVersion), (text "payload", p)] := by
  cases h : result.toJson <;>
    simp [envelopeRecord, PyValue.record, PyValue.toJson, PyValue.toJsonMembers, h]

theorem normalize_envelope (p : Json) :
    Json.normalize (.obj [(text "schema", .str envelopeSchema.value),
      (text "schema_version", .int envelopeSchemaVersion), (text "payload", p)]) =
        envelope p.normalize := by
  rfl

/-- What is emitted of a JSON value is its document, in normal form. -/
theorem accepted_iff {result : PyValue} {limited : Option String} {document : Json} :
    EmitCall.accepted { document := envelopeRecord result, limited } = some document ↔
      limited = none ∧ ∃ p, result.toJson = some p ∧ document = envelope p.normalize := by
  have hstrict := strict_iff_toJson result ("output document" ++ ".payload")
  unfold EmitCall.accepted
  dsimp only
  rw [identity_envelopeRecord]
  generalize "output document" ++ ".payload" = path at hstrict ⊢
  rcases hp : result.toJson with _ | p
  · obtain ⟨e, he⟩ := eq_error_of_ne (r := drExecStrict result path)
      (by rw [hstrict, hp]; exact Bool.false_ne_true)
    simp [he, bind, Except.bind]
  · rw [hstrict.mpr (by rw [hp]; rfl)]
    simp only [bind, Except.bind]
    rcases limited with _ | limit
    · have hjson := toJson_envelopeRecord result
      rw [envelopeRecord, hp] at hjson
      simp only [hjson, Option.map_some, normalize_envelope, Option.some.injEq, true_and,
        exists_eq_left', eq_comm]
    · simp

/-! ### The stream -/

section Stream

variable {loads : Bytes → Option PyValue} {sha256 : Bytes → Str} {child : Child Module Object}
  {entryPoint : ImportableEntryPoint} {data : Bytes} {C : Codec} {digest : Str}
  {budgets : ExecutorSelfBudgets}

/-- What the entry point returned, as the child writes it. -/
def Returns (child : Child Module Object) (entryPoint : ImportableEntryPoint) (request : PyValue)
    (p : Json) : Prop :=
  child.limited = none ∧ ∃ result, drExecMain child entryPoint request = some result ∧
    result.toJson = some p

/-- The bytes of a document depend on how its payload is written. -/
theorem dumps_envelope {payload payload' : Json} :
    dumps (envelope payload) = dumps (envelope payload') ↔ dumps payload = dumps payload' := by
  rw [envelope, envelope, dumps_obj, dumps_obj, sortKeys_of_sorted (envelope_sorted _),
    sortKeys_of_sorted (envelope_sorted _)]
  simp [mapValues, commaSeparated, memberText]

theorem dumps_output {document document' : Json} :
    dumps (ProtocolFrame.output 0 document).json = dumps (ProtocolFrame.output 0 document').json ↔
      dumps document = dumps document' := by
  rw [ProtocolFrame.json, ProtocolFrame.json, dumps_obj, dumps_obj,
    sortKeys_of_sorted (ProtocolFrame.keysSorted_members _),
    sortKeys_of_sorted (ProtocolFrame.keysSorted_members _)]
  simp [ProtocolFrame.members, mapValues, commaSeparated, memberText]

/-- **The frames of a job**: those of its one document if the entry point returned a JSON value that
could be emitted, and the prelude alone otherwise. -/
theorem bootstrapFrames_driverRun (digest : Str) (child : Child Module Object) (entryPoint : ImportableEntryPoint)
    (request : PyValue) :
    (∃ p, Returns child entryPoint request p ∧
      (driverRun child entryPoint request).returns = true ∧
      bootstrapFrames digest (driverRun child entryPoint request) =
        protocolFrames digest [envelope p.normalize]) ∨
    (∀ p, ¬ Returns child entryPoint request p) ∧
      bootstrapFrames digest (driverRun child entryPoint request) = [.prelude digest] := by
  rcases hmain : drExecMain child entryPoint request with _ | result
  · refine .inr ⟨?_, ?_⟩
    · rintro p ⟨-, result, hresult, -⟩
      cases hmain.symm.trans hresult
    · rw [driverRun, hmain]
      rfl
  rcases haccepted : EmitCall.accepted
    { document := envelopeRecord result, limited := child.limited } with _ | document
  · refine .inr ⟨?_, ?_⟩
    · rintro p ⟨hlimited, _, hresult, hp⟩
      cases hmain.symm.trans hresult
      cases haccepted.symm.trans (accepted_iff.mpr ⟨hlimited, p, hp, rfl⟩)
    · simp [driverRun, hmain, haccepted, bootstrapFrames, emitted, outputFrames]
  · obtain ⟨hlimited, p, hp, rfl⟩ := accepted_iff.mp haccepted
    refine .inl ⟨p, ⟨hlimited, result, hmain, hp⟩, ?_, ?_⟩
    · simp [driverRun, hmain, haccepted]
    · simp [driverRun, hmain, haccepted, bootstrapFrames, emitted]

theorem frameLines_cons (frame : ProtocolFrame) (frames : List ProtocolFrame) :
    frameLines (frame :: frames) =
      dumps frame.json ++ protocolFrameTerminator :: frameLines frames := by
  simp [frameLines]

/-- The lines of frames one by one. -/
theorem frameLines_inj {frame frame' : ProtocolFrame} {frames frames' : List ProtocolFrame}
    (h : frameLines (frame :: frames) = frameLines (frame' :: frames')) :
    dumps frame.json = dumps frame'.json ∧ frameLines frames = frameLines frames' := by
  rw [frameLines_cons, frameLines_cons] at h
  exact line_inj (lineFeed_not_mem_dumps _) (lineFeed_not_mem_dumps _) h

theorem protocolFrames_one (document : Json) : protocolFrames digest [document] =
    [.prelude digest, .output 0 document, .complete 1] := rfl

theorem frameLines_protocolFrames {document document' : Json} :
    frameLines (protocolFrames digest [document]) = frameLines (protocolFrames digest [document']) ↔
      dumps document = dumps document' := by
  rw [protocolFrames_one, protocolFrames_one]
  constructor
  · intro h
    exact dumps_output.mp (frameLines_inj (frameLines_inj h).2).1
  · intro h
    simp only [frameLines_cons, dumps_output.mpr h]

theorem frameStream_eq_frameLines (hprofile : C.canonicalJsonBytes = dumps)
    (frames : List ProtocolFrame) : frameStream C frames = frameLines frames := by
  rw [DrExec.Runtime.Agreement.frameStream_eq, frameLines]
  simp only [Codec.frameBytes, hprofile]

/-- The parent accepts the stream of one document. -/
def Accepts (C : Codec) (digest : Str) (budgets : ExecutorSelfBudgets) (payload : Json) : Prop :=
  Conforms C digest budgets [envelope payload]
    (frameStream C (protocolFrames digest [envelope payload]))

/-- The stream of a job is accepted with one document of the envelope exactly if the entry point
returned what is written as that document. -/
theorem conforms_streamOf_iff (hprofile : C.canonicalJsonBytes = dumps)
    (hrequest : readRequest loads data = .ok data) {payload : Json} :
    Conforms C (sha256 data) budgets [envelope payload]
        (streamOf loads sha256 child entryPoint data) ↔
      Accepts C (sha256 data) budgets payload ∧
        ∃ p, Returns child entryPoint ((loads data).getD .none) p ∧ dumps payload = dumps p := by
  rw [streamOf, bootstrap_written hrequest (driverRun child entryPoint ((loads data).getD .none))]
  have hlines : frameLines (protocolFrames (sha256 data) [envelope payload]) =
      frameStream C (protocolFrames (sha256 data) [envelope payload]) :=
    (frameStream_eq_frameLines hprofile _).symm
  rcases bootstrapFrames_driverRun (sha256 data) child entryPoint
    ((loads data).getD .none) with ⟨p, hreturns, -, hframes⟩ | ⟨hnot, hframes⟩
  · rw [hframes]
    have hsame : frameLines (protocolFrames (sha256 data) [envelope p.normalize]) =
        frameLines (protocolFrames (sha256 data) [envelope payload]) ↔ dumps payload = dumps p := by
      rw [frameLines_protocolFrames, dumps_envelope, dumps_normalize, eq_comm]
    constructor
    · intro h
      have heq := h.stream_eq
      rw [← hlines] at heq
      refine ⟨?_, p, hreturns, hsame.mp heq⟩
      rw [heq, hlines] at h
      exact h
    · rintro ⟨haccepts, p', ⟨-, result, hresult, hp'⟩, hdumps⟩
      obtain ⟨-, _, hmain, hp⟩ := hreturns
      cases hresult.symm.trans hmain
      cases hp'.symm.trans hp
      rw [hsame.mpr hdumps, hlines]
      exact haccepts
  · -- one line is no stream of the grammar
    refine iff_of_false (fun h => ?_) fun ⟨_, p, hp, _⟩ => hnot p hp
    have heq := h.stream_eq
    rw [hframes, ← hlines] at heq
    have hrest := (frameLines_inj heq).2
    change [] = frameLines (_ :: _) at hrest
    rw [frameLines_cons] at hrest
    exact absurd hrest (by simp)

/-! ### The result -/

variable {cut : ℕ → ℕ} {returncode : ℤ} {parent : Parent C} {completed : CompletedExecution C}

theorem exited_zero_iff {read : ProtocolStreamResult} (h : Reported read returncode completed) :
    completed.result.outcome = .exited 0 ↔ read.failure = none ∧ returncode = 0 := by
  obtain ⟨detail, houtcome⟩ := h.outcome
  rw [houtcome, Carried.outcome]
  rcases hfailure : read.failure with _ | violation
  · simp only [Bool.false_eq_true, if_false, Option.any_none, Option.map_none, true_and, exitOutcome]
    split_ifs with hneg
    · refine iff_of_false (fun h => by cases h) ?_
      rintro rfl
      exact absurd hneg (lt_irrefl 0)
    · simp
  · simp

/-- An identity document holds no lone surrogate. -/
def ScalarDocuments (C : Codec) : Prop :=
  ∀ document, C.validateIdentityDocument document = true → document.scalar = true

theorem scalar_payload (hdocuments : ScalarDocuments C) (document : IdentityDocumentField C) :
    document.1.payload.scalar = true := by
  have hscalar := hdocuments _ document.2
  rw [toJsonDict_eq, scalar, scalarMembers_iff] at hscalar
  exact (hscalar (text "payload", document.1.payload) (List.mem_cons_self ..)).2

/-- **What is parsed of a job in a subprocess.** Whatever the entry point does, however the stream is
cut and whatever the budgets, if a process that wrote its completion frame exits with zero: the
parsed result is `v` exactly if the entry point returned a value that could be emitted, the parent
accepts the stream of a document written like it, and `v` is its payload as strict JSON. -/
theorem driver_result_iff (hC : C.Recogniser) (hprofile : C.canonicalJsonBytes = dumps)
    (hdocuments : ScalarDocuments C) (hrequest : readRequest loads data = .ok data)
    (hreported : Reported (readProtocolStream C
      { unread := streamOf loads sha256 child entryPoint data, cut := cut } (sha256 data) budgets)
      returncode completed)
    (hexit : (driverRun child entryPoint ((loads data).getD .none)).returns = true →
      returncode = 0) (v : Json) :
    parseImportableJsonResult parent completed = .ok v ↔
      ∃ payload, payload.scalar = true ∧ Accepts C (sha256 data) budgets payload ∧
        (∃ p, Returns child entryPoint ((loads data).getD .none) p ∧ dumps payload = dumps p) ∧
        parent.validateStrictJson payload = .ok v := by
  constructor
  · intro h
    unfold parseImportableJsonResult at h
    split_ifs at h with houtcome
    split at h
    swap
    · cases h
    next output houtputs =>
    split_ifs at h with henvelope
    obtain ⟨hnone, -⟩ := (exited_zero_iff hreported).mp (not_not.mp houtcome)
    obtain ⟨documents, hconforms⟩ := conforms_of_accepted hC hnone
    have hone : [output.1.toJsonDict] = documents := by
      have hread := hreported.outputs
      rw [read_of_conforms hC hconforms, houtputs] at hread
      exact hread
    rw [← hone, toJsonDict_eq_envelope.mpr ⟨by simpa using henvelope, rfl⟩] at hconforms
    obtain ⟨haccepts, hreturns⟩ := (conforms_streamOf_iff hprofile hrequest).mp hconforms
    exact ⟨output.1.payload, scalar_payload hdocuments output, haccepts, hreturns, h⟩
  · rintro ⟨payload, -, haccepts, hreturns, hvalid⟩
    have hread : readProtocolStream C { unread := streamOf loads sha256 child entryPoint data, cut }
        (sha256 data) budgets = _ := read_of_conforms hC
      ((conforms_streamOf_iff hprofile hrequest).mpr ⟨haccepts, hreturns⟩)
    have hzero : completed.result.outcome = .exited 0 := by
      refine (exited_zero_iff hreported).mpr ⟨by rw [hread], hexit ?_⟩
      rcases bootstrapFrames_driverRun (sha256 data) child entryPoint
        ((loads data).getD .none) with ⟨-, -, hdone, -⟩ | ⟨hnot, -⟩
      · exact hdone
      · obtain ⟨p, hp, -⟩ := hreturns
        exact absurd hp (hnot p)
    have houtputs := hreported.outputs
    rw [hread] at houtputs
    obtain ⟨output, hone, hdocument⟩ := List.map_eq_singleton_iff.mp houtputs
    obtain ⟨henvelope, rfl⟩ := toJsonDict_eq_envelope.mp hdocument
    rw [parseImportableJsonResult, if_neg (not_not.mpr hzero), hone]
    simp only [henvelope, Bool.not_true, Bool.false_eq_true, if_false, hvalid]

/-! ### The budgets -/

/-- Without budgets, what a document of the envelope has to be to be accepted: a document, nested no
deeper than a frame allows. -/
theorem accepts_unbudgeted_iff (hceiling : 0 < C.canonicalJsonMaxContainerDepth)
    (hdigest : C.isSha256Digest digest = true) {payload : Json} :
    Accepts C digest {} payload ↔
      payload.Normal ∧ C.validateIdentityDocument (envelope payload) = true ∧
        payload.depth + 2 ≤ C.canonicalJsonMaxContainerDepth := by
  have hdepth : (ProtocolFrame.output 0 (envelope payload)).json.depth = payload.depth + 2 := by
    simp [ProtocolFrame.json, ProtocolFrame.members, envelope, depth, depthMembers]
  have hnormal : (envelope payload).Normal ↔ payload.Normal := by
    rw [envelope, normal_obj]
    simp [envelope_sorted, Json.Normal, Json.normalize]
  constructor
  · intro h
    have hsound := h.sound (.output 0 (envelope payload)) (by simp [protocolFrames_one])
    refine ⟨hnormal.mp hsound.admits.2, hsound.admits.1, ?_⟩
    rw [← hdepth]
    exact hsound.ceiling
  · rintro ⟨hpayload, hvalid, hle⟩
    refine ⟨rfl, fun frame hframe => ?_, not_exceeds_none _, not_exceeds_none _⟩
    rw [protocolFrames_one] at hframe
    simp only [List.mem_cons, List.not_mem_nil, or_false] at hframe
    obtain rfl | rfl | rfl := hframe
    · exact ⟨hdigest, hceiling, not_exceeds_none _, not_exceeds_none _⟩
    · exact ⟨⟨hvalid, hnormal.mpr hpayload⟩, hdepth ▸ hle, not_exceeds_none _, not_exceeds_none _⟩
    · exact ⟨trivial, hceiling, not_exceeds_none _, not_exceeds_none _⟩

end Stream

/-! ### Agreement with the job in process -/

variable {C : Codec} {Module' Object' : Type}

/-- The child runs the job of an attempt in process: it calls the same entry point on the same
payload, `value` is what the child sees of an object, and dr_serialize takes the JSON value of it. -/
structure SameDriver (c : Course C Module' Object') (child : Child Module Object) (request : PyValue)
    (callableEntry : Object') (payload : Json) (value : Object' → PyValue) : Prop where
  dispatched : dispatch c.host c.entryPoint c.request = .ok (callableEntry, payload)
  called : drExecMain child c.entryPoint request =
    (c.host.call callableEntry payload).toOption.map value
  unlimited : child.limited = none
  scalar : ∀ object p, c.host.call callableEntry payload = .ok object →
    (value object).toJson = some p → p.scalar = true
  validated : ∀ object result, c.host.validateResult object = .ok result →
    (value object).toJson = some result
  built : ∀ p document, c.host.buildIdentityDocument envelopeSchema envelopeSchemaVersion p =
    .ok document → document.1.toJsonDict = envelope p.normalize
  taken : ∀ object p, (value object).toJson = some p → p.scalar = true →
    C.validateIdentityDocument (envelope p.normalize) = true →
    c.host.validateResult object = .ok p ∧
      ∃ document, c.host.buildIdentityDocument envelopeSchema envelopeSchemaVersion p = .ok document

section Agreement

variable {c : Course C Module' Object'} {child : Child Module Object} {request : PyValue}
  {callableEntry : Object'} {payload : Json} {value : Object' → PyValue} {digest : Str}
  {budgets : ExecutorSelfBudgets}

/-- What the child returns is the JSON value of the object that is returned in process. -/
theorem SameDriver.childReturns_iff (h : SameDriver c child request callableEntry payload value)
    {p : Json} : Returns child c.entryPoint request p ↔
      ∃ object, c.host.call callableEntry payload = .ok object ∧ (value object).toJson = some p := by
  rw [Returns, h.called]
  rcases c.host.call callableEntry payload with error | object
  · simp [Except.toOption]
  · simp [Except.toOption, h.unlimited]

/-- A document that is built of a result is one of the envelope. -/
theorem SameDriver.envelope_of_built (h : SameDriver c child request callableEntry payload value)
    {result : Json} {document : IdentityDocumentField C}
    (hbuilt : Built c callableEntry payload result document) :
    isImportableJsonEnvelope document.1 = true ∧ document.1.payload = result.normalize ∧
      C.validateIdentityDocument (envelope result.normalize) = true := by
  have hdocument := h.built result document hbuilt.built
  obtain ⟨henvelope, hpayload⟩ := toJsonDict_eq_envelope.mp hdocument
  exact ⟨henvelope, hpayload, hdocument ▸ document.2⟩

theorem SameDriver.returns_of_built (h : SameDriver c child request callableEntry payload value)
    {result : Json} {document : IdentityDocumentField C}
    (hbuilt : Built c callableEntry payload result document) :
    Returns child c.entryPoint request result := by
  obtain ⟨object, hcall, hvalid⟩ := hbuilt.returned
  exact h.childReturns_iff.mpr ⟨object, hcall, h.validated object result hvalid⟩

theorem Returns.unique {p p' : Json} {entryPoint : ImportableEntryPoint}
    (h : Returns child entryPoint request p) (h' : Returns child entryPoint request p') : p = p' := by
  obtain ⟨-, result, hresult, hp⟩ := h
  obtain ⟨-, result', hresult', hp'⟩ := h'
  cases hresult.symm.trans hresult'
  exact Option.some.inj (hp.symm.trans hp')

/-- What is accepted and written as a value is that value in normal form. -/
theorem eq_normalize_of_dumps {payload p : Json} (haccepts : Accepts C digest budgets payload)
    (hpayload : payload.scalar = true) (hp : p.scalar = true) (hdumps : dumps payload = dumps p) :
    payload = p.normalize := by
  have hsound := haccepts.sound (.output 0 (envelope payload)) (by simp [protocolFrames_one])
  have hnormal : payload.Normal := by
    have hdocument : (envelope payload).Normal := hsound.admits.2
    rw [envelope, normal_obj] at hdocument
    exact hdocument.2 _ (List.mem_cons_self ..)
  have hreads := loads_dumps hnormal hpayload
  rw [hdumps, ← dumps_normalize p, loads_dumps (normal_normalize p) (scalar_normalize hp)] at hreads
  exact (Option.some.inj hreads).symm

variable {loads : Bytes → Option PyValue} {sha256 : Bytes → Str} {data : Bytes} {cut : ℕ → ℕ}
  {returncode : ℤ} {parent : Parent C} {completed : CompletedExecution C}

/-- **A job in a subprocess agrees with the job in process exactly when its document is accepted.**
With no stop, if a process that wrote its completion frame exits with zero, and whatever the entry
point does but return a lone surrogate: what is parsed of the subprocess is parsed of the attempt in
process, and what is parsed in process is parsed of the subprocess exactly if the reader accepts the
stream of the result. Without budgets it accepts a result two levels below the bound of the codec,
while one level below is enough for a document. -/
theorem driver_agrees_iff (hC : C.Recogniser) (hprofile : C.canonicalJsonBytes = dumps)
    (hdocuments : ScalarDocuments C) (hceiling : 0 < C.canonicalJsonMaxContainerDepth)
    (hdigest : C.isSha256Digest (sha256 data) = true) (hrequest : readRequest loads data = .ok data)
    (h : SameDriver c child ((loads data).getD .none) callableEntry payload value) (hquiet : Quiet c)
    (hreported : Reported (readProtocolStream C
      { unread := streamOf loads sha256 child c.entryPoint data, cut := cut } (sha256 data) budgets)
      returncode completed)
    (hexit : (driverRun child c.entryPoint ((loads data).getD .none)).returns = true →
      returncode = 0) :
    (∀ v, parseImportableJsonResult parent completed = .ok v ↔
      (∃ own, c.runAttempt = some own ∧ parseImportableJsonResult parent own = .ok v) ∧
        ∃ p, Returns child c.entryPoint ((loads data).getD .none) p ∧
          Accepts C (sha256 data) budgets p.normalize) ∧
    (budgets = {} → ∀ result document, Built c callableEntry payload result document →
      (Accepts C (sha256 data) budgets result.normalize ↔
        result.normalize.depth + 2 ≤ C.canonicalJsonMaxContainerDepth)) := by
  refine ⟨fun v => ?_, ?_⟩
  · rw [driver_result_iff hC hprofile hdocuments hrequest hreported hexit v, hquiet.parsed_iff h.dispatched]
    constructor
    · rintro ⟨written, hwritten, haccepts, ⟨p, hreturns, hdumps⟩, hvalid⟩
      obtain ⟨object, hcall, hvalue⟩ := h.childReturns_iff.mp hreturns
      have hp := h.scalar object p hcall hvalue
      obtain rfl := eq_normalize_of_dumps haccepts hwritten hp hdumps
      have hsound := haccepts.sound (.output 0 (envelope p.normalize))
        (by simp [protocolFrames_one])
      obtain ⟨hvalidated, document, hbuild⟩ := h.taken object p hvalue hp hsound.admits.1
      have hbuilt : Built c callableEntry payload p document := ⟨⟨object, hcall, hvalidated⟩, hbuild⟩
      obtain ⟨henvelope, hpayload, -⟩ := h.envelope_of_built hbuilt
      exact ⟨⟨p, document, hbuilt, henvelope, hpayload ▸ hvalid⟩, p, hreturns, haccepts⟩
    · rintro ⟨⟨result, document, hbuilt, -, hvalid⟩, p, hreturns, haccepts⟩
      have hown := h.returns_of_built hbuilt
      obtain rfl := hown.unique hreturns
      obtain ⟨-, hpayload, -⟩ := h.envelope_of_built hbuilt
      refine ⟨result.normalize, ?_, haccepts, ⟨result, hown, dumps_normalize result⟩, hpayload ▸ hvalid⟩
      exact hpayload ▸ scalar_payload hdocuments document
  · rintro rfl result document hbuilt
    rw [accepts_unbudgeted_iff hceiling hdigest]
    obtain ⟨-, -, hvalid⟩ := h.envelope_of_built hbuilt
    exact ⟨fun hall => hall.2.2, fun hle => ⟨normal_normalize result, hvalid, hle⟩⟩

end Agreement

/-! ### An entry point that returns `null` -/

def nullChild : Child Unit Unit where
  importModule _ := some ()
  getattr _ _ := some ()
  callable _ := true
  call _ _ := some .none

/-- The request as the child reads it. -/
def nullRequest : PyValue :=
  PyValue.record [("payload", .none), ("schema", .str envelopeSchema.value),
    ("schema_version", .int envelopeSchemaVersion)]

def nullLoads (bytes : Bytes) : Option PyValue :=
  if bytes = WorkerFrames.nullBytes then some nullRequest else .none

def nullDigest (_ : Bytes) : Str :=
  text "2d0d2a9da7a1076b7c6e841beec955b38de99ffa4c7dfe58931ce617d4c51e8a"

def nullHost : InProcess.Host plainCodec Unit Unit :=
  { InProcess.hostOf (.ok ()) (.ok ()) with
    buildIdentityDocument := fun _ _ payload =>
      match payload with
      | .null => .ok Modes.nullField
      | _ => .error { message := Text.lit "" } }

def nullCourse : Course plainCodec Unit Unit := InProcess.attemptOf nullHost none

theorem nullLoads_eq : (nullLoads WorkerFrames.nullBytes).getD .none = nullRequest := by
  rw [nullLoads, if_pos rfl]
  rfl

theorem drExecMain_null : drExecMain nullChild nullCourse.entryPoint nullRequest = some .none := by
  have hkeys : isEnvelope [(.str (text "payload"), .none), (.str (text "schema"),
      .str envelopeSchema.value), (.str (text "schema_version"), .int envelopeSchemaVersion)] =
        true := by
    decide +kernel
  simp only [drExecMain, nullRequest, PyValue.record, List.map_cons, List.map_nil, hkeys, if_true]
  simp [PyValue.get, PyValue.isKey, nullChild, text_injective.eq_iff]

theorem nullChild_sameDriver : SameDriver nullCourse nullChild
    ((nullLoads WorkerFrames.nullBytes).getD .none) () .null fun _ => .none where
  dispatched := rfl
  called := by
    rw [nullLoads_eq]
    exact drExecMain_null
  unlimited := rfl
  scalar object p _ h := by
    obtain rfl := Option.some.inj h
    rfl
  validated object result h := by
    obtain rfl := Except.ok.inj h
    rfl
  built p document h := by
    cases p with
    | null =>
      obtain rfl := Except.ok.inj h
      rfl
    | bool | int | float | str | arr | obj => cases h
  taken object p h _ _ := by
    obtain rfl := Option.some.inj h
    exact ⟨rfl, Modes.nullField, rfl⟩

/-- In both modes `null` is parsed of the job. -/
theorem nullChild_agrees :
    ∃ own completed, nullCourse.runAttempt = some own ∧
      Reported (readProtocolStream plainCodec
        { unread := streamOf nullLoads nullDigest nullChild nullCourse.entryPoint
            WorkerFrames.nullBytes, cut := fun _ => 100 }
        (nullDigest WorkerFrames.nullBytes) {}) 0 completed ∧
      parseImportableJsonResult Modes.answeringParent own = .ok .null ∧
      parseImportableJsonResult Modes.answeringParent completed = .ok .null := by
  have hquiet : Quiet nullCourse := ⟨rfl, rfl, by decide⟩
  have hbuilt : Built nullCourse () .null .null Modes.nullField := ⟨⟨(), rfl, rfl⟩, rfl⟩
  have hdigest : plainCodec.isSha256Digest (nullDigest WorkerFrames.nullBytes) = true := by
    decide +kernel
  have hrequest : readRequest nullLoads WorkerFrames.nullBytes = .ok WorkerFrames.nullBytes := by
    decide +kernel
  have haccepts : Accepts plainCodec (nullDigest WorkerFrames.nullBytes) {} .null :=
    (accepts_unbudgeted_iff (by decide) hdigest).mpr ⟨rfl, by decide +kernel, by decide⟩
  have hreturns : Returns nullChild nullCourse.entryPoint
      ((nullLoads WorkerFrames.nullBytes).getD .none) .null :=
    nullChild_sameDriver.returns_of_built hbuilt
  obtain ⟨own, hown, hparsed⟩ : ∃ own, nullCourse.runAttempt = some own ∧
      parseImportableJsonResult Modes.answeringParent own = .ok .null :=
    (hquiet.parsed_iff nullChild_sameDriver.dispatched).mpr
      ⟨.null, Modes.nullField, hbuilt, by decide +kernel, rfl⟩
  obtain ⟨completed, -, hzero, -, houtputs⟩ := Modes.gives_completed hquiet.bodySteady
    (show OutputCountMatches (.exited 0) [Modes.nullField] from trivial) none none
  have hread : readProtocolStream plainCodec
      { unread := streamOf nullLoads nullDigest nullChild nullCourse.entryPoint
          WorkerFrames.nullBytes, cut := fun _ => 100 }
      (nullDigest WorkerFrames.nullBytes) {} = _ := read_of_conforms plainCodec_recogniser
    ((conforms_streamOf_iff rfl hrequest).mpr ⟨haccepts, .null, hreturns, rfl⟩)
  have hreported : Reported (readProtocolStream plainCodec
      { unread := streamOf nullLoads nullDigest nullChild nullCourse.entryPoint
          WorkerFrames.nullBytes, cut := fun _ => 100 }
      (nullDigest WorkerFrames.nullBytes) {}) 0 completed := by
    rw [hread]
    exact ⟨⟨Text.lit "", hzero⟩, by rw [houtputs]; rfl⟩
  refine ⟨own, completed, hown, hreported, hparsed, ?_⟩
  have hdocuments : ScalarDocuments plainCodec := fun document h =>
    (Bool.and_eq_true_iff.mp (show isIdentityDocument document = true from h)).1
  refine ((driver_agrees_iff plainCodec_recogniser rfl hdocuments (by decide) hdigest hrequest
    nullChild_sameDriver hquiet hreported fun _ => rfl).1 .null).mpr ⟨⟨own, hown, hparsed⟩, ?_⟩
  exact ⟨.null, hreturns, haccepts⟩

end DrExec.Execution.DriverJob
