import DrExec.Lib.JsonText
import DrExec.Runtime.Grammar

/-! # The child's protocol writer

The wrapper source of `runtime/bootstrap.py` as it runs in the child: the strict check by path, the
identity check, the canonical rendering, the writer that owns descriptor 3, and the bootstrap around
the driver's entry point. A Python object is what the checks can tell of it; a dictionary is the
list of the insertions that built it. What `json.loads` makes of the request and the digest of its
bytes are parameters. -/

namespace DrExec.Runtime.Bootstrap

open DrExec.Lib DrExec.Lib.Json DrExec.Runtime.Wire

/-! ### Python objects -/

/-- A Python object; `other` is one of no JSON type. -/
inductive PyValue
  | none
  | bool (b : Bool)
  | int (n : ℤ)
  | float (x : FloatText)
  | nonFinite
  | str (s : Str)
  | list (items : List PyValue)
  | dict (members : List (PyValue × PyValue))
  | other

namespace PyValue

mutual

/-- The JSON value that `json.dumps` writes of an object, if it is made of JSON types with string
keys and finite numbers. -/
def toJson : PyValue → Option Json
  | none => some .null
  | bool b => some (.bool b)
  | int n => some (.int n)
  | float x => some (.float x)
  | nonFinite => .none
  | str s => some (.str s)
  | list items => (toJsonItems items).map .arr
  | dict members => (toJsonMembers members).map .obj
  | other => .none

def toJsonItems : List PyValue → Option (List Json)
  | [] => some []
  | v :: items => do some ((← toJson v) :: (← toJsonItems items))

def toJsonMembers : List (PyValue × PyValue) → Option (List (Str × Json))
  | [] => some []
  | (str k, v) :: members => do some ((k, ← toJson v) :: (← toJsonMembers members))
  | (_, _) :: _ => .none

end

/-- A dictionary with string keys. -/
def record (members : List (String × PyValue)) : PyValue :=
  dict (members.map fun m => (str (text m.1), m.2))

/-- Whether a key is the string `key`. -/
def isKey (key : String) : PyValue → Bool
  | str s => s = text key
  | _ => false

/-- `document[key]`: the value last inserted under the key. -/
def get (members : List (PyValue × PyValue)) (key : String) : Option PyValue :=
  (members.reverse.find? fun m => m.1.isKey key).map Prod.snd

end PyValue

open PyValue

/-! ### The checks -/

mutual

/-- `_dr_exec_strict`: the path of the first value that is not strict JSON, in the error. -/
def drExecStrict : PyValue → String → Except String Unit
  | .none, _ | .str _, _ | .bool _, _ | .int _, _ | .float _, _ => .ok ()
  | .nonFinite, path => .error ("non-finite number at " ++ path)
  | .list items, path => drExecStrictItems items path 0
  | .dict members, path => drExecStrictMembers members path
  | .other, path => .error ("unsupported value at " ++ path)

def drExecStrictItems : List PyValue → String → ℕ → Except String Unit
  | [], _, _ => .ok ()
  | v :: items, path, index => do
    drExecStrict v (path ++ "[" ++ toString index ++ "]")
    drExecStrictItems items path (index + 1)

def drExecStrictMembers : List (PyValue × PyValue) → String → Except String Unit
  | [], _ => .ok ()
  | (.str key, v) :: members, path => do
    drExecStrict v (path ++ "." ++ String.ofList (key.map fun c => Char.ofNat c.val))
    drExecStrictMembers members path
  | (_, _) :: _, path => .error ("non-string key at " ++ path)

end

/-- `_DR_EXEC_IDENTITY_FIELDS`. -/
def identityFields : List String := ["schema", "schema_version", "payload"]

/-- `_dr_exec_identity`: the three fields of an identity document. -/
def drExecIdentity (document : PyValue) (origin : String) :
    Except String (PyValue × PyValue × PyValue) :=
  match document with
  | .dict members =>
    if (members.all fun m => identityFields.any fun field => m.1.isKey field) ∧
        identityFields.all fun field => members.any fun m => m.1.isKey field then
      match get members "schema", get members "schema_version", get members "payload" with
      | some (.str schema), some (.int version), some payload => do
        drExecStrict payload (origin ++ ".payload")
        .ok (.str schema, .int version, payload)
      | some (.str _), _, _ => .error (origin ++ " schema_version must be an integer")
      | _, _, _ => .error (origin ++ " schema must be a string")
    else .error (origin ++ " must have exactly the identity fields")
  | _ => .error (origin ++ " must be an object")

/-- `_dr_exec_canonical`, of an object that `json.dumps` can write. -/
def drExecCanonical (value : PyValue) : Except String Bytes :=
  match value.toJson with
  | some v => .ok (dumps v)
  | .none => .error "not JSON serializable"

theorem eq_error_of_ne {r : Except String Unit} (h : ¬ r = .ok ()) : ∃ e, r = .error e := by
  cases r with
  | error e => exact ⟨e, rfl⟩
  | ok => exact absurd rfl h

/-- Two checks in a row, each passed exactly by JSON values. -/
theorem bind_iff_isSome {α β γ : Type} {r r' : Except String Unit} {x : Option α} {y : Option β}
    {f : α → β → γ} (h : r = .ok () ↔ x.isSome = true) (h' : r' = .ok () ↔ y.isSome = true) :
    (r.bind fun _ => r') = .ok () ↔ (x.bind fun a => y.bind fun b => some (f a b)).isSome = true := by
  rcases x with _ | a
  · obtain ⟨e, rfl⟩ := eq_error_of_ne (by rw [h]; simp)
    simp [Except.bind]
  · rw [h.mpr rfl]
    refine h'.trans ?_
    rcases y with _ | b <;> simp

mutual

/-- A value passes the strict check exactly if it is a JSON value. -/
theorem strict_iff_toJson : ∀ (v : PyValue) (path : String),
    drExecStrict v path = .ok () ↔ (toJson v).isSome = true
  | .none, _ | .str _, _ | .bool _, _ | .int _, _ | .float _, _ => by simp [drExecStrict, toJson]
  | .nonFinite, _ | .other, _ => by simp [drExecStrict, toJson]
  | .list items, path => by
    rw [drExecStrict, strictItems_iff items path 0, toJson, Option.isSome_map]
  | .dict members, path => by
    rw [drExecStrict, strictMembers_iff members path, toJson, Option.isSome_map]

theorem strictItems_iff : ∀ (items : List PyValue) (path : String) (index : ℕ),
    drExecStrictItems items path index = .ok () ↔ (toJsonItems items).isSome = true
  | [], _, _ => by simp [drExecStrictItems, toJsonItems]
  | v :: items, path, index => by
    rw [drExecStrictItems, toJsonItems]
    exact bind_iff_isSome (strict_iff_toJson v _) (strictItems_iff items path (index + 1))

theorem strictMembers_iff : ∀ (members : List (PyValue × PyValue)) (path : String),
    drExecStrictMembers members path = .ok () ↔ (toJsonMembers members).isSome = true
  | [], _ => by simp [drExecStrictMembers, toJsonMembers]
  | (.str key, v) :: members, path => by
    rw [drExecStrictMembers, toJsonMembers]
    exact bind_iff_isSome (strict_iff_toJson v _) (strictMembers_iff members path)
  | (.none, _) :: _, _ | (.bool _, _) :: _, _ | (.int _, _) :: _, _ | (.float _, _) :: _, _
  | (.nonFinite, _) :: _, _ | (.list _, _) :: _, _ | (.dict _, _) :: _, _ | (.other, _) :: _, _ => by
    simp [drExecStrictMembers, toJsonMembers]

end

/-- What passes the identity check: a string, an integer and a JSON value. -/
theorem identity_ok {document schema version payload : PyValue} {origin : String}
    (h : drExecIdentity document origin = .ok (schema, version, payload)) :
    ∃ s n p, schema = .str s ∧ version = .int n ∧ payload.toJson = some p := by
  unfold drExecIdentity at h
  split at h
  · split_ifs at h
    split at h
    · rename_i s n p _ _ _
      rcases hstrict : drExecStrict p (origin ++ ".payload") with e | u
      · rw [hstrict] at h
        cases h
      · rw [hstrict] at h
        cases h
        obtain ⟨v, hv⟩ := Option.isSome_iff_exists.mp ((strict_iff_toJson _ _).mp hstrict)
        exact ⟨s, n, v, rfl, rfl, hv⟩
    · cases h
    · cases h
  · cases h

/-! ### The writer -/

/-- The frame of `prelude`, its keys in the order of the source. -/
def preludeFrame (digest : Str) : PyValue :=
  record [("version", .int 1), ("kind", .str (text "prelude")), ("request_id_sha256", .str digest)]

/-- The frame of `emit`. -/
def outputFrame (sequence : ℕ) (schema version payload : PyValue) : PyValue :=
  record [("version", .int 1), ("kind", .str (text "output")), ("sequence", .int sequence),
    ("document",
      record [("schema", schema), ("schema_version", version), ("payload", payload)])]

/-- The frame of `complete`. -/
def completeFrame (outputCount : ℕ) : PyValue :=
  record [("version", .int 1), ("kind", .str (text "complete")), ("output_count", .int outputCount)]

/-- `_DrExecProtocolWriter`, with the bytes it has flushed. -/
structure ProtocolWriter where
  written : Bytes := []
  sequence : ℕ := 0
  closed : Bool := false

/-- A call of `emit`: the object, and the exception that a limit of the interpreter raises before
the frame is written, if one does. -/
structure EmitCall where
  document : PyValue
  limited : Option String := none

namespace ProtocolWriter

/-- `_frame`. -/
def frame (w : ProtocolWriter) (frame : PyValue) : Except String ProtocolWriter :=
  if w.closed then .error "the protected stream is already complete"
  else do
    let bytes ← drExecCanonical frame
    .ok { w with written := w.written ++ (bytes ++ [10]) }

/-- `prelude`, given the digest of the request. -/
def prelude (w : ProtocolWriter) (digest : Str) : Except String ProtocolWriter :=
  w.frame (preludeFrame digest)

/-- `emit`. -/
def emit (w : ProtocolWriter) (call : EmitCall) : Except String ProtocolWriter := do
  let (schema, version, payload) ← drExecIdentity call.document "output document"
  if let some limit := call.limited then .error limit
  else
    let w ← w.frame (outputFrame w.sequence schema version payload)
    .ok { w with sequence := w.sequence + 1 }

/-- `complete`. -/
def complete (w : ProtocolWriter) : Except String ProtocolWriter := do
  let w ← w.frame (completeFrame w.sequence)
  .ok { w with closed := true }

/-- Calls of `emit`; the driver catches what they raise. -/
def emitAll (w : ProtocolWriter) (calls : List EmitCall) : ProtocolWriter :=
  calls.foldl (fun w call => (w.emit call).toOption.getD w) w

end ProtocolWriter

/-! ### The bootstrap -/

/-- What a driver does: its calls of `emit`, whether its entry point is found and returns, and calls
of `emit` that it makes afterwards. -/
structure DriverRun where
  calls : List EmitCall
  returns : Bool
  late : List EmitCall := []

/-- `_dr_exec_read_request`, given what `json.loads` makes of the bytes as UTF-8. -/
def readRequest (loads : Bytes → Option PyValue) (data : Bytes) : Except String Bytes :=
  match loads data with
  | .none => .error "request is not strict JSON"
  | some decoded => do
    let _ ← drExecIdentity decoded "request"
    let canonical ← drExecCanonical decoded
    if canonical ≠ data then .error "request bytes are not canonical JSON bytes"
    else .ok data

/-- `_dr_exec_bootstrap`: the writer as the process leaves it. -/
def bootstrap (loads : Bytes → Option PyValue) (sha256 : Bytes → Str) (data : Bytes)
    (run : DriverRun) : ProtocolWriter :=
  match readRequest loads data with
  | .error _ => {}
  | .ok requestBytes =>
    match ProtocolWriter.prelude {} (sha256 requestBytes) with
    | .error _ => {}
    | .ok w =>
      let w := w.emitAll run.calls
      if run.returns then
        match w.complete with
        | .error _ => w
        | .ok w => w.emitAll run.late
      else w

/-! ### What the child means to say -/

/-- The document of a call of `emit` that is accepted. -/
def EmitCall.accepted (call : EmitCall) : Option Json :=
  match drExecIdentity call.document "output document", call.limited with
  | .ok (schema, version, payload), .none =>
    (record [("schema", schema), ("schema_version", version), ("payload", payload)]).toJson.map
      Json.normalize
  | _, _ => .none

/-- The documents that a driver emits. -/
def emitted (calls : List EmitCall) : List Json := calls.filterMap EmitCall.accepted

/-- The frames of a run. -/
def bootstrapFrames (digest : Str) (run : DriverRun) : List ProtocolFrame :=
  if run.returns then Grammar.protocolFrames digest (emitted run.calls)
  else .prelude digest :: Grammar.outputFrames (emitted run.calls)

/-- The bytes of some frames. -/
def frameLines (frames : List ProtocolFrame) : Bytes :=
  frames.flatMap fun frame => dumps frame.json ++ [protocolFrameTerminator]

theorem frameLines_append (frames frames' : List ProtocolFrame) :
    frameLines (frames ++ frames') = frameLines frames ++ frameLines frames' :=
  List.flatMap_append

/-- The canonical bytes of an object are those of its JSON value in normal form. -/
theorem canonical_of_normalize {value : PyValue} {v w : Json} (hjson : value.toJson = some v)
    (hnormal : Json.normalize v = w) : drExecCanonical value = .ok (dumps w) := by
  rw [drExecCanonical, hjson, ← hnormal, dumps_normalize]

theorem canonical_prelude (digest : Str) :
    drExecCanonical (preludeFrame digest) = .ok (dumps (ProtocolFrame.prelude digest).json) := by
  have hjson : (preludeFrame digest).toJson = some (.obj [(text "version", .int 1),
      (text "kind", .str (text "prelude")), (text "request_id_sha256", .str digest)]) := by
    simp [preludeFrame, record, toJson, toJsonMembers]
  exact canonical_of_normalize hjson rfl

theorem canonical_output (sequence : ℕ) {schema version payload : PyValue} {document : Json}
    (h : (record [("schema", schema), ("schema_version", version), ("payload", payload)]).toJson =
      some document) :
    drExecCanonical (outputFrame sequence schema version payload) =
      .ok (dumps (ProtocolFrame.output sequence (Json.normalize document)).json) := by
  rw [outputFrame]
  generalize record [("schema", schema), ("schema_version", version), ("payload", payload)] = d at h
  have hjson : (record [("version", .int 1), ("kind", .str (text "output")),
      ("sequence", .int sequence), ("document", d)]).toJson =
      some (.obj [(text "version", .int 1), (text "kind", .str (text "output")),
        (text "sequence", .int sequence), (text "document", document)]) := by
    simp [record, toJson, toJsonMembers, h]
  exact canonical_of_normalize hjson rfl

theorem canonical_complete (outputCount : ℕ) :
    drExecCanonical (completeFrame outputCount) =
      .ok (dumps (ProtocolFrame.complete outputCount).json) := by
  have hjson : (completeFrame outputCount).toJson = some (.obj [(text "version", .int 1),
      (text "kind", .str (text "complete")), (text "output_count", .int outputCount)]) := by
    simp [completeFrame, record, toJson, toJsonMembers]
  exact canonical_of_normalize hjson rfl

/-! ### What the writer writes -/

namespace ProtocolWriter

variable {w : ProtocolWriter}

/-- A frame on an open stream. -/
theorem frame_open (hopen : w.closed = false) {value : PyValue} {bytes : Bytes}
    (h : drExecCanonical value = .ok bytes) :
    w.frame value = .ok { w with written := w.written ++ (bytes ++ [10]) } := by
  rw [frame, hopen, h]
  rfl

/-- A call that is accepted writes the next output frame. -/
theorem emit_accepted (hopen : w.closed = false) {call : EmitCall} {document : Json}
    (h : call.accepted = some document) :
    w.emit call = .ok
      { w with
        written := w.written ++ frameLines [.output w.sequence document]
        sequence := w.sequence + 1 } := by
  unfold EmitCall.accepted at h
  split at h
  · rename_i schema version payload hidentity hlimited
    obtain ⟨d, hd, rfl⟩ := Option.map_eq_some_iff.mp h
    have hframe := frame_open hopen (canonical_output w.sequence hd)
    simp [emit, hidentity, hlimited, hframe, bind, Except.bind, frameLines,
      protocolFrameTerminator]
  · cases h

/-- A call that is not accepted raises. -/
theorem emit_rejected {call : EmitCall} (h : call.accepted = .none) : ∃ e, w.emit call = .error e := by
  unfold EmitCall.accepted at h
  rcases hidentity : drExecIdentity call.document "output document" with e | ⟨schema, version, payload⟩
  · exact ⟨e, by simp [emit, hidentity, bind, Except.bind]⟩
  rcases hlimited : call.limited with _ | limit
  · obtain ⟨s, n, p, rfl, rfl, hp⟩ := identity_ok hidentity
    simp [hidentity, hlimited, record, toJson, toJsonMembers, hp] at h
  · exact ⟨limit, by simp [emit, hidentity, hlimited, bind, Except.bind]⟩

/-- **Calls on an open stream** write the output frames of the accepted documents, in order. -/
theorem emitAll_open (hopen : w.closed = false) (calls : List EmitCall) :
    w.emitAll calls =
      { w with
        written := w.written ++
          frameLines ((emitted calls).mapIdx fun i document => .output (w.sequence + i) document)
        sequence := w.sequence + (emitted calls).length } := by
  induction calls generalizing w with
  | nil => simp [emitAll, emitted, frameLines]
  | cons call calls ih =>
    rcases haccepted : call.accepted with _ | document
    · obtain ⟨e, he⟩ := w.emit_rejected haccepted
      have hsame : w.emitAll (call :: calls) = w.emitAll calls := by
        simp [emitAll, he, Except.toOption]
      have hemitted : emitted (call :: calls) = emitted calls :=
        List.filterMap_cons_none haccepted
      rw [hsame, ih hopen, hemitted]
    · have hone := emit_accepted hopen haccepted
      have hnext : w.emitAll (call :: calls) = emitAll
          { w with
            written := w.written ++ frameLines [.output w.sequence document]
            sequence := w.sequence + 1 } calls := by
        simp [emitAll, hone, Except.toOption]
      have hemitted : emitted (call :: calls) = document :: emitted calls :=
        List.filterMap_cons_some haccepted
      rw [hnext, ih (by exact hopen), hemitted]
      simp [frameLines, List.mapIdx_cons, Nat.add_assoc, Nat.add_comm 1]

/-- A call on a closed stream raises. -/
theorem emit_closed (hclosed : w.closed = true) (call : EmitCall) :
    ∃ e, w.emit call = .error e := by
  rcases hidentity : drExecIdentity call.document "output document" with e | ⟨schema, version, payload⟩
  · exact ⟨e, by simp [emit, hidentity, bind, Except.bind]⟩
  rcases hlimited : call.limited with _ | limit
  · exact ⟨_, by simp [emit, hidentity, hlimited, frame, hclosed, bind, Except.bind]; rfl⟩
  · exact ⟨limit, by simp [emit, hidentity, hlimited, bind, Except.bind]⟩

/-- Calls on a closed stream leave it. -/
theorem emitAll_closed (hclosed : w.closed = true) (calls : List EmitCall) :
    w.emitAll calls = w := by
  induction calls with
  | nil => rfl
  | cons call calls ih =>
    obtain ⟨e, he⟩ := emit_closed hclosed call
    rw [emitAll, List.foldl_cons, he]
    exact ih

end ProtocolWriter

/-- **What the child writes** for a request that it accepts: the frames of its run. -/
theorem bootstrap_written {loads : Bytes → Option PyValue} {sha256 : Bytes → Str} {data : Bytes}
    (hrequest : readRequest loads data = .ok data) (run : DriverRun) :
    (bootstrap loads sha256 data run).written =
      frameLines (bootstrapFrames (sha256 data) run) := by
  have hprelude : ProtocolWriter.prelude {} (sha256 data) =
      .ok { written := frameLines [.prelude (sha256 data)] } := by
    rw [ProtocolWriter.prelude, ProtocolWriter.frame_open rfl (canonical_prelude _)]
    simp [frameLines, protocolFrameTerminator]
  have hcalls := ProtocolWriter.emitAll_open (w := { written := frameLines [.prelude (sha256 data)] })
    rfl run.calls
  simp only [Nat.zero_add, ← frameLines_append, List.singleton_append] at hcalls
  simp only [bootstrap, hrequest, hprelude, hcalls, bootstrapFrames]
  split_ifs with hreturns
  · rw [ProtocolWriter.complete, ProtocolWriter.frame_open rfl (canonical_complete _)]
    refine (congrArg ProtocolWriter.written (ProtocolWriter.emitAll_closed rfl run.late)).trans ?_
    simp only [Grammar.protocolFrames, frameLines_append]
    simp [frameLines, Grammar.outputFrames, protocolFrameTerminator]
  · rfl

end DrExec.Runtime.Bootstrap
