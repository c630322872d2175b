import DrExec.Core.Scalars
import DrExec.Runtime.Wire

/-! # Identity documents

A document of dr_serialize names the schema of its payload. Which documents it admits is its own
business (`Codec.validateIdentityDocument`); `core/identity.py` checks the schema that a role asks
for. -/

namespace DrExec.Core.Identity

open DrExec.Core.Model DrExec.Lib DrExec.Lib.Json DrExec.Runtime.Wire

/-- An identity document; its payload with keys in order, since a dictionary has none. -/
structure IdentityDocument where
  schema : Text
  schemaVersion : ℤ
  payload : Json
  normal : payload.Normal

/-- Any JSON value. -/
def anyJson : Form {v : Json // v.Normal} where
  encode v := v.1
  decode v := some ⟨v.normalize, normal_normalize v⟩
  decode_encode v := by
    have hnormal : v.1.normalize = v.1 := v.2
    simp only [hnormal]
  scalar_decode v a hv h := by
    obtain rfl : (⟨v.normalize, normal_normalize v⟩ : {v : Json // v.Normal}) = a :=
      Option.some.inj h
    exact scalar_normalize hv

/-- The dictionary of a document. -/
def IdentityDocument.form : Form IdentityDocument :=
  (Form.object <|
    (Fields.field "payload" anyJson).and
      ((Fields.field "schema" textForm).and (.field "schema_version" .int))).refine
    (fun d => some ⟨d.2.1, d.2.2, d.1.1, d.1.2⟩)
    (fun d => (⟨d.payload, d.normal⟩, d.schema, d.schemaVersion)) (fun _ => rfl)
    (fun _ _ h => Option.some.inj h ▸ rfl)

/-- `to_json_dict` -/
def IdentityDocument.toJsonDict (document : IdentityDocument) : Json :=
  IdentityDocument.form.encode document

/-- A document that dr_serialize admits. -/
abbrev IdentityDocumentField (C : Codec) :=
  {document : IdentityDocument // C.validateIdentityDocument document.toJsonDict = true}

/-- `IdentityDocumentField`, as a field. -/
def identityDocument (C : Codec) : Form (IdentityDocumentField C) :=
  IdentityDocument.form.refine
    (fun d => if h : C.validateIdentityDocument d.toJsonDict = true then some ⟨d, h⟩ else none)
    Subtype.val (fun d => dif_pos d.2)
    (fun _ _ h => by
      obtain ⟨_, rfl⟩ := eq_of_dite_some h
      rfl)

def identitySchemaVersion : ℤ := 1

/-- `require_identity_role`: the payload of a document of this schema; `none` is its error. -/
def requireIdentityRole (document : IdentityDocument) (schema : String) : Option Json :=
  if document.schema.value ≠ text schema then none
  else if document.schemaVersion ≠ identitySchemaVersion then none
  else
    match document.payload with
    | .obj members => some (.obj members)
    | _ => none

/-- A `NonemptyString`; the check of its length refuses a surrogate. -/
abbrev NonemptyString := {t : Text // t.value ≠ [] ∧ t.Scalar}

/-- `NonemptyString`, as a field. -/
def nonemptyString : Form NonemptyString := textForm.checked fun t => t.value ≠ [] ∧ t.Scalar

/-- A field that has one value. -/
def literal (value : String) : Form Unit :=
  .spelled (fun _ => text value) (fun s => if s = text value then some () else none)
    (fun _ _ _ _ _ h => isScalar_of_mem_text h) (fun _ => if_pos rfl)

/-- A `Sha256Digest`. -/
abbrev Sha256Digest (C : Codec) := {t : Text // C.isSha256Digest t.value = true}

/-- `Sha256Digest`, as a field. -/
def sha256Digest (C : Codec) : Form (Sha256Digest C) :=
  textForm.checked fun t => C.isSha256Digest t.value = true

end DrExec.Core.Identity
