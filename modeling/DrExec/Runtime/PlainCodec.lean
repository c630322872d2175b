import DrExec.Lib.JsonText
import DrExec.Runtime.Wire

/-! # A codec

The canonical JSON of the library makes a `Codec` that recognises its frames: strict decoding reads
canonical text, an identity document has its three fields and no lone surrogate, and a digest is 64
lower-case hexadecimal digits. -/

namespace DrExec.Runtime.Wire

open DrExec.Lib DrExec.Lib.Json

/-- The shape of an identity document, free of lone surrogates. -/
def isIdentityDocument (v : Json) : Bool :=
  v.scalar &&
  match v with
  | .obj [(payload, _), (schema, .str _), (schemaVersion, .int _)] =>
    payload = text "payload" && schema = text "schema" && schemaVersion = text "schema_version"
  | _ => false

/-- 64 lower-case hexadecimal digits. -/
def isHexDigest (s : Str) : Bool :=
  s.length = 64 && s.all fun c => (48 ≤ c.val && c.val ≤ 57) || (97 ≤ c.val && c.val ≤ 102)

/-- Canonical JSON, as a codec. -/
def plainCodec : Codec where
  decodeStrictJsonBytes bytes maxBytes maxDepth :=
    if maxBytes < bytes.length then .error (.other "StrictJsonDecodeError")
    else
      match loads bytes with
      | none => .error (.other "StrictJsonDecodeError")
      | some v =>
        if v.scalar = false then .error (.other "StrictJsonDecodeError")
        else if maxDepth < v.depth then .error .depthLimit
        else .ok v
  canonicalJsonBytes := dumps
  validateIdentityDocument := isIdentityDocument
  isSha256Digest := isHexDigest
  readJson bytes := (loads bytes).filter Json.scalar
  canonicalJsonMaxContainerDepth := 200

theorem plainCodec_decode {bytes : Bytes} {maxBytes maxDepth : ℕ} {v : Json} :
    plainCodec.decodeStrictJsonBytes bytes maxBytes maxDepth = .ok v ↔
      bytes.length ≤ maxBytes ∧ loads bytes = some v ∧ v.scalar = true ∧ v.depth ≤ maxDepth := by
  simp only [plainCodec]
  by_cases hlen : maxBytes < bytes.length
  · simp [hlen]
  rw [if_neg hlen]
  rcases hloads : loads bytes with _ | w
  · simp
  · dsimp only
    split_ifs with hscalar hdepth
    · simp only [Option.some.injEq, false_iff]
      rintro ⟨-, rfl, h, -⟩
      simp [h] at hscalar
    · simp only [Option.some.injEq, false_iff]
      rintro ⟨-, rfl, -, h⟩
      omega
    · simp only [Except.ok.injEq, Option.some.injEq]
      constructor
      · rintro rfl
        exact ⟨by omega, rfl, by simpa using hscalar, by omega⟩
      · exact fun h => h.2.1

theorem isScalar_of_hexDigest {digest : Str} (h : isHexDigest digest = true) :
    (digest.all fun c => IsScalar c) = true := by
  unfold isHexDigest at h
  simp only [Bool.and_eq_true, List.all_eq_true, Bool.or_eq_true, decide_eq_true_eq] at h ⊢
  intro c hc
  rcases h.2 c hc with h | h
  · exact .inl (by omega)
  · exact .inl (by omega)

/-- The strings that are the same in every frame are free of surrogates. -/
theorem scalar_fields :
    ["kind", "version", "request_id_sha256", "sequence", "document", "output_count", "prelude",
      "output", "complete"].all (fun s => (text s).all fun c => IsScalar c) = true := by
  decide +kernel

/-- An admissible frame lists its keys in order and is free of surrogates. -/
theorem plainCodec_frame {frame : ProtocolFrame} (h : plainCodec.Admits frame) :
    frame.json.Normal ∧ frame.json.scalar = true := by
  have hfields := scalar_fields
  simp only [List.all_cons, List.all_nil, Bool.and_true, Bool.and_eq_true] at hfields
  unfold ProtocolFrame.json
  rw [normal_obj]
  refine ⟨⟨frame.keysSorted_members, ?_⟩, ?_⟩
  · cases frame with
    | prelude digest => simp [ProtocolFrame.members, Json.Normal, Json.normalize]
    | output sequence document =>
      simpa [ProtocolFrame.members, Json.Normal, Json.normalize] using h.2
    | complete count => simp [ProtocolFrame.members, Json.Normal, Json.normalize]
  · cases frame with
    | prelude digest =>
      have hdigest := isScalar_of_hexDigest h
      simp only [ProtocolFrame.members, scalar, scalarMembers, hfields, hdigest, Bool.and_self]
    | output sequence document =>
      have hdocument : document.scalar = true := by
        have hvalid : isIdentityDocument document = true := h.1
        unfold isIdentityDocument at hvalid
        exact (Bool.and_eq_true_iff.mp hvalid).1
      simp only [ProtocolFrame.members, scalar, scalarMembers, hfields, hdocument, Bool.and_self]
    | complete count => simp only [ProtocolFrame.members, scalar, scalarMembers, hfields, Bool.and_self]

/-- **The codec of canonical JSON recognises its frames.** -/
theorem plainCodec_recogniser : plainCodec.Recogniser where
  decoded bytes maxBytes maxDepth v hdecode hcanonical := by
    obtain ⟨-, hloads, hscalar, hdepth⟩ := plainCodec_decode.mp hdecode
    have hnormal := loads_dumps (normal_normalize v) (scalar_normalize hscalar)
    rw [dumps_normalize, show dumps v = bytes from hcanonical, hloads] at hnormal
    exact ⟨(Option.some.inj hnormal).symm, hdepth⟩
  reread bytes maxBytes maxDepth v w hdecode _ hread := by
    obtain ⟨-, hloads, -, -⟩ := plainCodec_decode.mp hdecode
    exact Option.some.inj ((Option.filter_eq_some_iff.mp hread).1.symm.trans hloads)
  frame_decoded frame maxBytes maxDepth hadmits hbytes hdepth := by
    obtain ⟨hnormal, hscalar⟩ := plainCodec_frame hadmits
    exact plainCodec_decode.mpr ⟨hbytes, loads_dumps hnormal hscalar, hscalar, hdepth⟩
  frame_reread frame hadmits _ := by
    obtain ⟨hnormal, hscalar⟩ := plainCodec_frame hadmits
    exact Option.filter_eq_some_iff.mpr ⟨loads_dumps hnormal hscalar, hscalar⟩
  one_line v := lineFeed_not_mem_dumps v

end DrExec.Runtime.Wire
