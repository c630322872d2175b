import DrExec.Lib.Json

/-! # Protocol frames on the wire

The three frames of `runtime/wire.py` and their strict validation. The strict JSON decoder, the
canonical encoder, the identity-document check and pydantic's reading of JSON bytes are not part of
the repository: a `Codec` is any choice of them, and `Codec.Recogniser` is what the repository
relies on. Validation inverts the JSON of a frame (`validateFrame_eq_iff`). -/

namespace DrExec.Runtime.Wire

open DrExec.Lib DrExec.Lib.Json

/-! ### Frames -/

/-- `PROTOCOL_FRAME_TERMINATOR`, a line feed. -/
def protocolFrameTerminator : UInt8 := 10

/-- `ProtocolFrame`: the fields of the three wire models beside `version` and `kind`. -/
inductive ProtocolFrame
  | prelude (requestIdSha256 : Str)
  | output (sequence : ℕ) (document : Json)
  | complete (outputCount : ℕ)

/-- The JSON members of a frame, with its defaults, by ascending key. -/
def ProtocolFrame.members : ProtocolFrame → List (Str × Json)
  | prelude requestIdSha256 => [(text "kind", .str (text "prelude")),
      (text "request_id_sha256", .str requestIdSha256), (text "version", .int 1)]
  | output sequence document => [(text "document", document),
      (text "kind", .str (text "output")), (text "sequence", .int sequence),
      (text "version", .int 1)]
  | complete outputCount => [(text "kind", .str (text "complete")),
      (text "output_count", .int outputCount), (text "version", .int 1)]

/-- The JSON object of a frame. -/
def ProtocolFrame.json (frame : ProtocolFrame) : Json := .obj frame.members

theorem ProtocolFrame.keysSorted_members (frame : ProtocolFrame) : KeysSorted frame.members := by
  rw [keysSorted_iff]
  cases frame with
  | prelude =>
    show [text "kind", text "request_id_sha256", text "version"].Pairwise (· < ·)
    decide +kernel
  | output =>
    show [text "document", text "kind", text "sequence", text "version"].Pairwise (· < ·)
    decide +kernel
  | complete =>
    show [text "kind", text "output_count", text "version"].Pairwise (· < ·)
    decide +kernel

theorem ProtocolFrame.lookup_members {frame : ProtocolFrame} {m : Str × Json}
    (h : m ∈ frame.members) : frame.members.lookup m.1 = some m.2 :=
  frame.keysSorted_members.lookup h

/-! ### What the repository is given -/

/-- How the strict decoder refuses: `JsonDepthLimitError`, or another error by its type's name. -/
inductive StrictJsonDecodeError
  | depthLimit
  | other (typeName : String)

/-- The functions of dr_serialize and pydantic that the protocol uses: `decode_strict_json_bytes`
with its byte and depth bounds, `canonical_json_bytes`, `validate_identity_document`, the check of
`Sha256Digest`, pydantic's own reading of JSON bytes, and `CANONICAL_JSON_MAX_CONTAINER_DEPTH`. -/
structure Codec where
  decodeStrictJsonBytes : Bytes → ℕ → ℕ → Except StrictJsonDecodeError Json
  canonicalJsonBytes : Json → Bytes
  validateIdentityDocument : Json → Bool
  isSha256Digest : Str → Bool
  readJson : Bytes → Option Json
  canonicalJsonMaxContainerDepth : ℕ

namespace Codec

variable (C : Codec)

/-- The values the wire models admit: a digest, or an identity document. -/
def Admits : ProtocolFrame → Prop
  | .prelude requestIdSha256 => C.isSha256Digest requestIdSha256 = true
  | .output _ document => C.validateIdentityDocument document = true ∧ document.Normal
  | .complete _ => True

/-- The bytes of a frame, its terminator left out. -/
def frameBytes (frame : ProtocolFrame) : Bytes := C.canonicalJsonBytes frame.json

/-- The decoder, the encoder and pydantic's reader recognise canonical frames: what decodes and
encodes to the same bytes lists its keys in order, keeps the depth bound and is what pydantic reads;
the bytes of an admissible frame within the bounds decode to it and are read as it; and canonical
bytes are one line. -/
structure Recogniser : Prop where
  decoded : ∀ bytes maxBytes maxDepth v, C.decodeStrictJsonBytes bytes maxBytes maxDepth = .ok v →
    C.canonicalJsonBytes v = bytes → v.Normal ∧ v.depth ≤ maxDepth
  reread : ∀ bytes maxBytes maxDepth v w, C.decodeStrictJsonBytes bytes maxBytes maxDepth = .ok v →
    C.canonicalJsonBytes v = bytes → C.readJson bytes = some w → w = v
  frame_decoded : ∀ frame maxBytes maxDepth, C.Admits frame →
    (C.frameBytes frame).length ≤ maxBytes → frame.json.depth ≤ maxDepth →
    C.decodeStrictJsonBytes (C.frameBytes frame) maxBytes maxDepth = .ok frame.json
  frame_reread : ∀ frame, C.Admits frame → frame.json.depth ≤ C.canonicalJsonMaxContainerDepth →
    C.readJson (C.frameBytes frame) = some frame.json
  one_line : ∀ v, protocolFrameTerminator ∉ C.canonicalJsonBytes v

/-! ### Validation -/

/-- A validated frame, and whether `version` is among its `model_fields_set`. -/
structure Validated where
  frame : ProtocolFrame
  versionSet : Bool

/-- `extra="forbid"`: every member is a field of the model. -/
def onlyFields (fields : List String) (members : List (Str × Json)) : Bool :=
  members.all fun m => m.1 ∈ fields.map text

/-- `version: Literal[1] = 1`, and whether it is set. -/
def validateVersion (members : List (Str × Json)) : Option Bool :=
  match members.lookup (text "version") with
  | none => some false
  | some (.int 1) => some true
  | some _ => none

/-- A strict `NonNegativeInt`. -/
def validateNonNegativeInt : Json → Option ℕ
  | .int (.ofNat n) => some n
  | _ => none

/-- A strict `Sha256Digest`. -/
def validateSha256Digest : Json → Option Str
  | .str s => if C.isSha256Digest s then some s else none
  | _ => none

/-- A wire model: no field but its own, the version, and the payload `frame` built from the rest. -/
def validateModel (fields : List String) (members : List (Str × Json))
    (frame : Option ProtocolFrame) : Option Validated := do
  if onlyFields fields members then
    let versionSet ← validateVersion members
    some ⟨← frame, versionSet⟩
  else none

def validatePrelude (members : List (Str × Json)) : Option Validated :=
  validateModel ["version", "kind", "request_id_sha256"] members do
    let digest ← members.lookup (text "request_id_sha256")
    some (.prelude (← C.validateSha256Digest digest))

def validateOutput (members : List (Str × Json)) : Option Validated :=
  validateModel ["version", "kind", "sequence", "document"] members do
    let sequence ← members.lookup (text "sequence")
    let document ← members.lookup (text "document")
    if C.validateIdentityDocument document then
      some (.output (← validateNonNegativeInt sequence) document)
    else none

def validateComplete (members : List (Str × Json)) : Option Validated :=
  validateModel ["version", "kind", "output_count"] members do
    let outputCount ← members.lookup (text "output_count")
    some (.complete (← validateNonNegativeInt outputCount))

/-- The model that the discriminator `kind` selects, validated strictly. -/
def validateFrame : Json → Option Validated
  | .obj members =>
    match members.lookup (text "kind") with
    | some (.str kind) =>
      if kind = text "prelude" then C.validatePrelude members
      else if kind = text "output" then C.validateOutput members
      else if kind = text "complete" then validateComplete members
      else none
    | _ => none
  | _ => none

theorem validateVersion_eq {members : List (Str × Json)} :
    validateVersion members = some true ↔ members.lookup (text "version") = some (.int 1) := by
  unfold validateVersion
  split
  · rename_i h
    simp [h]
  · rename_i h
    simp [h]
  · rename_i v hv h
    simp only [reduceCtorEq, false_iff, h]
    exact fun hv' => hv (Option.some.inj hv')

theorem validateNonNegativeInt_eq {v : Json} {n : ℕ} :
    validateNonNegativeInt v = some n ↔ v = .int n := by
  unfold validateNonNegativeInt
  split
  · rename_i m
    rw [Option.some.injEq, Json.int.injEq]
    exact Int.natCast_inj.symm
  · rename_i h
    simp only [reduceCtorEq, false_iff]
    exact fun hv => h n hv

theorem validateSha256Digest_eq {v : Json} {digest : Str} :
    C.validateSha256Digest v = some digest ↔ v = .str digest ∧ C.isSha256Digest digest = true := by
  unfold validateSha256Digest
  split
  · rename_i s
    split_ifs with h <;> simp only [Option.some.injEq, Json.str.injEq, false_iff]
    · exact ⟨fun hs => ⟨hs, hs ▸ h⟩, fun hs => hs.1⟩
    · exact fun hs => h (hs.1 ▸ hs.2)
  · rename_i h
    simp only [reduceCtorEq, false_iff]
    exact fun hv => h digest hv.1

theorem validateModel_eq {fields : List String} {members : List (Str × Json)}
    {payload : Option ProtocolFrame} {frame : ProtocolFrame} :
    validateModel fields members payload = some ⟨frame, true⟩ ↔
      onlyFields fields members = true ∧ members.lookup (text "version") = some (.int 1) ∧
        payload = some frame := by
  unfold validateModel
  split_ifs with h
  · simp only [Option.bind_eq_bind, Option.bind_eq_some_iff, Option.some.injEq, Validated.mk.injEq,
      h, true_and, ← validateVersion_eq]
    constructor
    · rintro ⟨_, hversion, f, hf, rfl, rfl⟩
      exact ⟨hversion, hf⟩
    · rintro ⟨hversion, hf⟩
      exact ⟨true, hversion, frame, hf, rfl, rfl⟩
  · simp [h]

/-- Sorted members with only the fields of a frame, and its values under them, are the frame's. -/
theorem members_eq {fields : List String} {members : List (Str × Json)} (frame : ProtocolFrame)
    (hsorted : KeysSorted members) (honly : onlyFields fields members = true)
    (hfields : ∀ field ∈ fields, text field ∈ frame.members.map Prod.fst)
    (hfound : ∀ m ∈ frame.members, members.lookup m.1 = some m.2) : members = frame.members := by
  refine hsorted.eq_of_lookup frame.keysSorted_members (fun m hm => ?_) hfound
  have hmem := List.all_eq_true.mp honly m hm
  obtain ⟨field, hfield, hkey⟩ := List.mem_map.mp (of_decide_eq_true hmem)
  exact hkey ▸ hfields field hfield

theorem validatePrelude_eq {members : List (Str × Json)} {frame : ProtocolFrame}
    (hsorted : KeysSorted members)
    (hkind : members.lookup (text "kind") = some (.str (text "prelude")))
    (h : C.validatePrelude members = some ⟨frame, true⟩) :
    members = frame.members ∧ C.Admits frame := by
  obtain ⟨honly, hversion, hframe⟩ := validateModel_eq.mp h
  simp only [Option.bind_eq_bind, Option.bind_eq_some_iff, Option.some.injEq] at hframe
  obtain ⟨v, hv, digest, hdigest, rfl⟩ := hframe
  obtain ⟨rfl, hvalid⟩ := C.validateSha256Digest_eq.mp hdigest
  refine ⟨members_eq (.prelude digest) hsorted honly ?_ ?_, hvalid⟩
  · simp [ProtocolFrame.members]
  · simp [ProtocolFrame.members, hkind, hversion, hv]

theorem validateOutput_eq {members : List (Str × Json)} {frame : ProtocolFrame}
    (hnormal : (Json.obj members).Normal)
    (hkind : members.lookup (text "kind") = some (.str (text "output")))
    (h : C.validateOutput members = some ⟨frame, true⟩) :
    members = frame.members ∧ C.Admits frame := by
  obtain ⟨hsorted, hvalues⟩ := normal_obj.mp hnormal
  obtain ⟨honly, hversion, hframe⟩ := validateModel_eq.mp h
  simp only [Option.bind_eq_bind, Option.bind_eq_some_iff] at hframe
  obtain ⟨v, hv, document, hdocument, hframe⟩ := hframe
  split_ifs at hframe with hvalid
  · obtain ⟨sequence, hsequence, hframe⟩ := Option.bind_eq_some_iff.mp hframe
    cases hframe
    obtain rfl := validateNonNegativeInt_eq.mp hsequence
    refine ⟨members_eq (.output sequence document) hsorted honly ?_ ?_, hvalid, ?_⟩
    · simp [ProtocolFrame.members]
    · simp [ProtocolFrame.members, hkind, hversion, hv, hdocument]
    · exact hvalues _ (mem_of_lookup hdocument)

theorem validateComplete_eq {members : List (Str × Json)} {frame : ProtocolFrame}
    (hsorted : KeysSorted members)
    (hkind : members.lookup (text "kind") = some (.str (text "complete")))
    (h : validateComplete members = some ⟨frame, true⟩) :
    members = frame.members ∧ C.Admits frame := by
  obtain ⟨honly, hversion, hframe⟩ := validateModel_eq.mp h
  simp only [Option.bind_eq_bind, Option.bind_eq_some_iff, Option.some.injEq] at hframe
  obtain ⟨v, hv, outputCount, hcount, rfl⟩ := hframe
  obtain rfl := validateNonNegativeInt_eq.mp hcount
  refine ⟨members_eq (.complete outputCount) hsorted honly ?_ ?_, trivial⟩
  · simp [ProtocolFrame.members]
  · simp [ProtocolFrame.members, hkind, hversion, hv]

/-- An admissible frame is valid, with its version set. -/
theorem validateFrame_json {frame : ProtocolFrame} (h : C.Admits frame) :
    C.validateFrame frame.json = some ⟨frame, true⟩ := by
  have hfound : ∀ m ∈ frame.members, frame.members.lookup m.1 = some m.2 :=
    fun _ => ProtocolFrame.lookup_members
  unfold validateFrame ProtocolFrame.json
  cases frame with
  | prelude digest =>
    simp only [ProtocolFrame.members, List.mem_cons, List.not_mem_nil, or_false, forall_eq_or_imp,
      forall_eq] at hfound ⊢
    obtain ⟨hkind, hdigest, hversion⟩ := hfound
    simp only [hkind, if_true]
    refine validateModel_eq.mpr ⟨by simp [onlyFields], hversion, ?_⟩
    simp [hdigest, C.validateSha256Digest_eq.mpr ⟨rfl, h⟩]
  | output sequence document =>
    simp only [ProtocolFrame.members, List.mem_cons, List.not_mem_nil, or_false, forall_eq_or_imp,
      forall_eq] at hfound ⊢
    obtain ⟨hdocument, hkind, hsequence, hversion⟩ := hfound
    have hne : text "output" ≠ text "prelude" := by decide +kernel
    simp only [hkind, if_true, hne, if_false]
    refine validateModel_eq.mpr ⟨by simp [onlyFields], hversion, ?_⟩
    simp [hdocument, hsequence, h.1, validateNonNegativeInt_eq.mpr rfl]
  | complete outputCount =>
    simp only [ProtocolFrame.members, List.mem_cons, List.not_mem_nil, or_false, forall_eq_or_imp,
      forall_eq] at hfound ⊢
    obtain ⟨hkind, hcount, hversion⟩ := hfound
    have hne : text "complete" ≠ text "prelude" := by decide +kernel
    have hne' : text "complete" ≠ text "output" := by decide +kernel
    simp only [hkind, if_true, hne, hne', if_false]
    refine validateModel_eq.mpr ⟨by simp [onlyFields], hversion, ?_⟩
    simp [hcount, validateNonNegativeInt_eq.mpr rfl]

/-- **Validation is the inverse of a frame's JSON** on values with their keys in order. -/
theorem validateFrame_eq_iff {v : Json} (hv : v.Normal) {frame : ProtocolFrame} :
    C.validateFrame v = some ⟨frame, true⟩ ↔ v = frame.json ∧ C.Admits frame := by
  constructor
  · intro h
    unfold validateFrame at h
    split at h
    · rename_i members
      have hsorted := (normal_obj.mp hv).1
      split at h
      · rename_i kind hkind
        split_ifs at h with hprelude houtput hcomplete
        · obtain ⟨hm, hf⟩ := C.validatePrelude_eq hsorted (hprelude ▸ hkind) h
          exact ⟨congrArg Json.obj hm, hf⟩
        · obtain ⟨hm, hf⟩ := C.validateOutput_eq hv (houtput ▸ hkind) h
          exact ⟨congrArg Json.obj hm, hf⟩
        · obtain ⟨hm, hf⟩ := C.validateComplete_eq hsorted (hcomplete ▸ hkind) h
          exact ⟨congrArg Json.obj hm, hf⟩
      · cases h
    · cases h
  · rintro ⟨rfl, h⟩
    exact C.validateFrame_json h

end Codec

end DrExec.Runtime.Wire
