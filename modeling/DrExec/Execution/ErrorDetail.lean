import DrExec.Lib.JsonForm
import DrExec.Lib.Utf8

/-! # The detail of a payload's error

`format_payload_error_detail` of `importable_json.py`, which `worker_pool_worker.py` repeats. It
renders an exception of the payload's own making: the type's names, `str(error)` and the traceback
are read through hooks that may raise anything and return anything. A rendering is a function of
what the hooks do, each at the place where the formatter runs into it.

The names are checked with `isinstance` outside any guard, and `isinstance` asks an object that is
no `str` for its `__class__`. So the two copies agree and give a text exactly when these checks
answer (`rendering_total_iff`). Given the parts, the text is bounded by bytes without splitting a
character (`detail_bounded`). -/

namespace DrExec.Execution.ErrorDetail

open DrExec.Lib DrExec.Lib.Json

variable {E : Type*}

/-! ### What the payload hands over -/

/-- What `str(..)` can return: a `str`, or an instance of a subclass with these characters. -/
inductive Rendered
  | exact (s : Str)
  | subclass (s : Str)

/-- An object of the payload's. One that is no `str` is asked for its `__class__` at each
`isinstance`, which may claim anything or raise, and for its `__str__`. -/
inductive PyObject (E : Type*)
  | exact (s : Str)
  | subclass (s : Str)
  | other (claimsStr : ℕ → Except E Bool) (str : Except E Rendered)

namespace PyObject

/-- `isinstance(value, str)`, made for the `check`-th time. -/
def isinstanceStr (check : ℕ) : PyObject E → Except E Bool
  | exact _ | subclass _ => .ok true
  | other claimsStr _ => claimsStr check

/-- `str.__str__(value)`, which refuses what only claims to be a `str`. -/
def strStr : PyObject E → Option Rendered
  | exact s | subclass s => some (.exact s)
  | other _ _ => none

/-- `str(value)` -/
def str : PyObject E → Option Rendered
  | exact s => some (.exact s)
  | subclass s => some (.subclass s)
  | other _ str => str.toOption

end PyObject

/-- The object that `str(error)` returned. -/
def Rendered.object : Rendered → PyObject E
  | exact s => .exact s
  | subclass s => .subclass s

/-- Reading `__module__` and `__qualname__` of a type, which its metaclass answers. -/
structure TypeNames (E : Type*) where
  module : Except E (PyObject E)
  qualname : Except E (PyObject E)

/-- What `str(error)` raised: the names of the error's type, read again, and those of its own. -/
structure StrFailure (E : Type*) where
  again : TypeNames E
  names : TypeNames E

/-- An exception of the payload's, by what each step of its rendering meets. The traceback is asked
for with a frame limit. -/
structure PayloadError (E : Type*) where
  names : TypeNames E
  str : Except (StrFailure E) Rendered
  traceback : ℤ → Except E (List (PyObject E))

/-! ### The formatter -/

/-- The constants of one copy. -/
structure Constants where
  detailMaxBytes : ℕ
  detailTruncationMarker : Str
  tracebackFrameLimit : ℕ
  raisedDetailPrefix : Str
  unprintablePlaceholder : Str
  tracebackOmittedMarker : Str

namespace Constants

variable (k : Constants)

/-- `_exact_str`, at the `check`-th `isinstance` of the object. -/
def exactStr (check : ℕ) (value : PyObject E) : Str :=
  match value with
  | .exact s => s
  | value =>
    match (value.isinstanceStr check).toOption.bind fun is =>
      if is then value.strStr else value.str with
    | some (.exact reduced) => reduced
    | _ => k.unprintablePlaceholder

/-- `_safe_type_names` -/
def safeTypeNames (type : TypeNames E) : Except E (Str × Str) :=
  match do return (← type.module, ← type.qualname) with
  | .error _ => .ok (k.unprintablePlaceholder, k.unprintablePlaceholder)
  | .ok (moduleName, qualifiedName) => do
    -- these two checks stand outside the guard
    if !(← moduleName.isinstanceStr 0) then
      return (k.unprintablePlaceholder, k.unprintablePlaceholder)
    if !(← qualifiedName.isinstanceStr 0) then
      return (k.unprintablePlaceholder, k.unprintablePlaceholder)
    return (k.exactStr 1 moduleName, k.exactStr 1 qualifiedName)

/-- `_unprintable_message` -/
def unprintableMessage (failure : StrFailure E) : Except E Str := do
  let (_, raised) ← k.safeTypeNames failure.again
  let (_, by') ← k.safeTypeNames failure.names
  if k.unprintablePlaceholder ∈ [raised, by'] then return k.unprintablePlaceholder
  return text "<unprintable " ++ raised ++ text ": __str__ raised " ++ by' ++ text ">"

/-- `_safe_message` -/
def safeMessage (error : PayloadError E) : Except E Str :=
  match error.str with
  | .error failure => k.unprintableMessage failure
  | .ok message => .ok (k.exactStr 0 (message.object : PyObject E))

/-- `_safe_traceback_lines` -/
def safeTracebackLines (error : PayloadError E) : List Str :=
  match error.traceback (-k.tracebackFrameLimit) with
  | .ok lines => lines.map (k.exactStr 0)
  | .error _ => [k.tracebackOmittedMarker ++ text "\n"]

/-- `_truncate_utf8` -/
def truncateUtf8 (s : Str) : Str :=
  let encoded := Utf8.encode s
  if encoded.length ≤ k.detailMaxBytes then Utf8.decode Utf8.replace encoded
  else
    let budget := k.detailMaxBytes - (Utf8.encode k.detailTruncationMarker).length
    Utf8.decode Utf8.ignore (encoded.take budget) ++ k.detailTruncationMarker

/-- `_format_payload_error_detail` -/
def formatDetail (moduleName qualifiedName message : Str) (tracebackLines : List Str) : Str :=
  let qualified :=
    if moduleName = text "builtins" then qualifiedName
    else moduleName ++ text "." ++ qualifiedName
  let headline := k.raisedDetailPrefix ++ text ": " ++ qualified ++ text ": " ++ message
  k.truncateUtf8 (headline ++ text "\n" ++ tracebackLines.flatten)

/-- `format_payload_error_detail` -/
def formatPayloadErrorDetail (error : PayloadError E) : Except E Str := do
  let (moduleName, qualifiedName) ← k.safeTypeNames error.names
  let message ← k.safeMessage error
  return k.formatDetail moduleName qualifiedName message (k.safeTracebackLines error)

end Constants

/-- The constants of `importable_json.py`. -/
def ownedConstants : Constants where
  detailMaxBytes := 8192
  detailTruncationMarker := text "... [truncated]"
  tracebackFrameLimit := 20
  raisedDetailPrefix := text "the importable JSON entry point raised"
  unprintablePlaceholder := text "<unprintable>"
  tracebackOmittedMarker := text "<traceback unavailable>"

/-- The constants of `worker_pool_worker.py`. -/
def repeatedConstants : Constants where
  detailMaxBytes := 8192
  detailTruncationMarker := text "... [truncated]"
  tracebackFrameLimit := 20
  raisedDetailPrefix := text "the importable JSON entry point raised"
  unprintablePlaceholder := text "<unprintable>"
  tracebackOmittedMarker := text "<traceback unavailable>"

/-- `format_payload_error_detail` of `importable_json.py`. -/
def ownedDetail (error : PayloadError E) : Except E Str :=
  ownedConstants.formatPayloadErrorDetail error

/-- `format_payload_error_detail` of `worker_pool_worker.py`. -/
def repeatedDetail (error : PayloadError E) : Except E Str :=
  repeatedConstants.formatPayloadErrorDetail error

/-! ### When it gives a text -/

/-- The checks of a type's names answer, as far as they are made. -/
def TypeNames.Answer (type : TypeNames E) : Prop :=
  ∀ module, type.module = .ok module → ∀ qualname, type.qualname = .ok qualname →
    ∃ is, module.isinstanceStr 0 = .ok is ∧
      (is = true → ∃ is, qualname.isinstanceStr 0 = .ok is)

/-- The checks of every name that is read answer. -/
structure PayloadError.Answers (error : PayloadError E) : Prop where
  names : error.names.Answer
  failure : ∀ failure, error.str = .error failure → failure.again.Answer ∧ failure.names.Answer

namespace Constants

variable (k : Constants)

/-- The names are read without an escape exactly when their checks answer. -/
theorem safeTypeNames_ok_iff {type : TypeNames E} :
    (∃ names, k.safeTypeNames type = .ok names) ↔ type.Answer := by
  unfold safeTypeNames TypeNames.Answer
  rcases type with ⟨module | module, qualname | qualname⟩
  · exact iff_of_true ⟨_, rfl⟩ (by simp)
  · exact iff_of_true ⟨_, rfl⟩ (by simp)
  · exact iff_of_true ⟨_, rfl⟩ (by simp)
  · have hread : (do return (← Except.ok module, ← Except.ok qualname) :
        Except E (PyObject E × PyObject E)) = .ok (module, qualname) := rfl
    simp only [hread, Except.ok.injEq, forall_eq']
    rcases hmodule : module.isinstanceStr 0 with e | is
    · refine iff_of_false ?_ ?_
      · rintro ⟨names, h⟩
        cases h
      · rintro ⟨is, h, -⟩
        cases h
    rcases is with _ | _
    · exact iff_of_true ⟨_, rfl⟩ ⟨false, rfl, nofun⟩
    rcases hqualname : qualname.isinstanceStr 0 with e | is
    · refine iff_of_false ?_ ?_
      · rintro ⟨names, h⟩
        cases h
      · rintro ⟨is, h, hq⟩
        obtain ⟨is', h'⟩ := hq (Except.ok.inj h).symm
        cases h'
    · refine iff_of_true ?_ ⟨true, rfl, fun _ => ⟨is, rfl⟩⟩
      cases is <;> exact ⟨_, rfl⟩

theorem unprintableMessage_ok_iff {failure : StrFailure E} :
    (∃ message, k.unprintableMessage failure = .ok message) ↔
      failure.again.Answer ∧ failure.names.Answer := by
  rw [← k.safeTypeNames_ok_iff, ← k.safeTypeNames_ok_iff]
  unfold unprintableMessage
  rcases k.safeTypeNames failure.again with e | raised
  · exact iff_of_false (fun ⟨_, h⟩ => nomatch h) (fun ⟨⟨_, h⟩, _⟩ => nomatch h)
  rcases k.safeTypeNames failure.names with e | by'
  · exact iff_of_false (fun ⟨_, h⟩ => nomatch h) (fun ⟨_, _, h⟩ => nomatch h)
  · refine iff_of_true ?_ ⟨⟨_, rfl⟩, _, rfl⟩
    simp only [bind, Except.bind]
    split_ifs
    · exact ⟨_, rfl⟩
    · exact ⟨_, rfl⟩

theorem safeMessage_ok_iff {error : PayloadError E} :
    (∃ message, k.safeMessage error = .ok message) ↔
      ∀ failure, error.str = .error failure → failure.again.Answer ∧ failure.names.Answer := by
  unfold safeMessage
  rcases error.str with failure | message
  · simp only [Except.error.injEq, forall_eq']
    exact k.unprintableMessage_ok_iff
  · exact iff_of_true ⟨_, rfl⟩ fun _ h => nomatch h

/-- A copy gives a text exactly when the checks answer. -/
theorem formatPayloadErrorDetail_ok_iff {error : PayloadError E} :
    (∃ detail, k.formatPayloadErrorDetail error = .ok detail) ↔ error.Answers := by
  have hsplit : error.Answers ↔
      (∃ names, k.safeTypeNames error.names = .ok names) ∧
        ∃ message, k.safeMessage error = .ok message := by
    rw [k.safeTypeNames_ok_iff, k.safeMessage_ok_iff]
    exact ⟨fun h => ⟨h.names, h.failure⟩, fun h => ⟨h.1, h.2⟩⟩
  rw [hsplit]
  unfold formatPayloadErrorDetail
  rcases k.safeTypeNames error.names with e | names
  · exact iff_of_false (fun ⟨_, h⟩ => nomatch h) (fun ⟨⟨_, h⟩, _⟩ => nomatch h)
  rcases k.safeMessage error with e | message
  · exact iff_of_false (fun ⟨_, h⟩ => nomatch h) (fun ⟨_, _, h⟩ => nomatch h)
  · exact iff_of_true ⟨_, rfl⟩ ⟨⟨_, rfl⟩, _, rfl⟩

end Constants

/-- **The two copies give one and the same text exactly when every `isinstance` check that stands
outside the guards answers**: those of the error's type's names, and where `str(error)` raises,
those of the names read for the placeholder. -/
theorem rendering_total_iff (error : PayloadError E) :
    (∃ detail, ownedDetail error = .ok detail ∧ repeatedDetail error = .ok detail) ↔
      error.Answers := by
  have hcopies : repeatedDetail error = ownedDetail error := rfl
  simp only [hcopies, and_self]
  exact Constants.formatPayloadErrorDetail_ok_iff _

/-- An exception whose metaclass gives a `__module__` that raises when asked for its `__class__`. -/
def classlessModule : PayloadError String where
  names :=
    { module := .ok (.other (fun _ => .error "KeyboardInterrupt") (.ok (.exact [])))
      qualname := .ok (.exact (text "Error")) }
  str := .ok (.exact (text "message"))
  traceback _ := .ok []

/-- **Rendering it raises in both copies.** -/
theorem classlessModule_escapes :
    (∃ e, ownedDetail classlessModule = .error e ∧ repeatedDetail classlessModule = .error e) ∧
      ¬ ∃ detail, ownedDetail classlessModule = .ok detail := by
  refine ⟨⟨"KeyboardInterrupt", rfl, rfl⟩, ?_⟩
  rintro ⟨detail, h⟩
  cases h

/-! ### Its bound -/

namespace Constants

/-- The text before it is bounded. -/
def fullText (k : Constants) (moduleName qualifiedName message : Str)
    (tracebackLines : List Str) : Str :=
  k.raisedDetailPrefix ++ text ": " ++
    (if moduleName = text "builtins" then qualifiedName
      else moduleName ++ text "." ++ qualifiedName) ++
    text ": " ++ message ++ text "\n" ++ tracebackLines.flatten

/-- What the bounded text is of a full one. -/
structure Bounded (k : Constants) (full detail : Str) : Prop where
  strict : ∃ bytes, Utf8.encodeStrict detail = some bytes ∧ bytes.length ≤ k.detailMaxBytes
  whole : (Utf8.encode (Utf8.escapeSurrogates full)).length ≤ k.detailMaxBytes →
    detail = Utf8.escapeSurrogates full
  cut : k.detailMaxBytes < (Utf8.encode (Utf8.escapeSurrogates full)).length →
    ∃ kept, Utf8.LongestWithin (k.detailMaxBytes - (Utf8.encode k.detailTruncationMarker).length)
        (Utf8.escapeSurrogates full) kept ∧
      detail = kept ++ k.detailTruncationMarker

/-- The marker has a place within the bound. -/
structure Fits (k : Constants) : Prop where
  scalar : ∀ c ∈ k.detailTruncationMarker, IsScalar c
  within : (Utf8.encode k.detailTruncationMarker).length ≤ k.detailMaxBytes

theorem truncateUtf8_bounded {k : Constants} (hk : k.Fits) (full : Str) :
    k.Bounded full (k.truncateUtf8 full) := by
  have hscalar := Utf8.isScalar_of_mem_escapeSurrogates (s := full)
  have hencode := Utf8.encode_escapeSurrogates full
  simp only [truncateUtf8, ← hencode]
  rcases Nat.lt_or_ge k.detailMaxBytes (Utf8.encode (Utf8.escapeSurrogates full)).length
    with hlt | hle
  · rw [if_neg (Nat.not_le.mpr hlt)]
    have hkept := Utf8.decode_take_encode hscalar
      (k.detailMaxBytes - (Utf8.encode k.detailTruncationMarker).length)
    generalize Utf8.decode Utf8.ignore _ = kept at hkept ⊢
    have hdetail : ∀ c ∈ kept ++ k.detailTruncationMarker, IsScalar c := by
      intro c hc
      rcases List.mem_append.mp hc with hc | hc
      · exact hscalar c (hkept.isPrefix.subset hc)
      · exact hk.scalar c hc
    refine ⟨⟨_, Utf8.encodeStrict_eq hdetail, ?_⟩, fun h => absurd h (Nat.not_le.mpr hlt),
      fun _ => ⟨_, hkept, rfl⟩⟩
    rw [Utf8.encode_append, List.length_append]
    have hwithin := hkept.within
    have hmarker := hk.within
    omega
  · rw [if_pos hle, Utf8.decode_encode hscalar]
    exact ⟨⟨_, Utf8.encodeStrict_eq hscalar, hle⟩, fun _ => rfl,
      fun h => absurd hle (Nat.not_le.mpr h)⟩

end Constants

theorem ownedConstants_fits : ownedConstants.Fits :=
  ⟨fun _ => isScalar_of_mem_text, by decide⟩

theorem repeatedConstants_fits : repeatedConstants.Fits :=
  ⟨fun _ => isScalar_of_mem_text, by decide⟩

/-- **The text of either copy is strict UTF-8 of at most 8192 bytes: the escaped full text where
that fits, and otherwise its longest prefix of whole characters that leaves room for the marker, and
the marker.** -/
theorem detail_bounded (moduleName qualifiedName message : Str) (tracebackLines : List Str) :
    ownedConstants.Bounded
        (ownedConstants.fullText moduleName qualifiedName message tracebackLines)
        (ownedConstants.formatDetail moduleName qualifiedName message tracebackLines) ∧
      repeatedConstants.Bounded
        (repeatedConstants.fullText moduleName qualifiedName message tracebackLines)
        (repeatedConstants.formatDetail moduleName qualifiedName message tracebackLines) ∧
      ownedConstants.detailMaxBytes = 8192 ∧ repeatedConstants.detailMaxBytes = 8192 :=
  ⟨Constants.truncateUtf8_bounded ownedConstants_fits _,
    Constants.truncateUtf8_bounded repeatedConstants_fits _, rfl, rfl⟩

end DrExec.Execution.ErrorDetail
