import Mathlib.Data.PNat.Defs
import DrExec.Lib.Lines
import DrExec.Lib.Loop
import DrExec.Runtime.Wire

/-! # The protocol reader

`runtime/protocol.py`: `decode_frame`, the frame acquisition with its byte buffer, the stream state
and `read_protocol_stream`. A method that may raise returns its object with the violation it raises,
if any, since an object that raises keeps what it changed. A reader is its unread bytes with the
lengths at which it cuts them: the call of number `i` returns at least one byte until the end, and
at most `cut i`. -/

namespace DrExec.Runtime.Protocol

open DrExec.Lib DrExec.Lib.Lines DrExec.Runtime.Wire

/-! ### Violations and budgets -/

inductive ProtocolFailureCode
  | malformedFrame
  | oversizedFrame
  | unexpectedFrame
  | idMismatch
  | duplicateOutput
  | incompleteStream
  deriving DecidableEq

/-- `ProtocolViolation`, and the `ProtocolFailure` made of it. -/
structure ProtocolViolation where
  code : ProtocolFailureCode
  detail : String
  deriving DecidableEq

/-- A byte or count budget. -/
inductive Budget
  | unbudgeted
  | finite (max : ℕ+)

/-- The `limit` property of a budget. -/
def Budget.limit : Budget → Option ℕ
  | unbudgeted => none
  | finite max => some max

/-- The budgets of `ExecutorSelfBudgets` that the reader uses. -/
structure ExecutorSelfBudgets where
  protocolFrameBytes : Budget := .unbudgeted
  protocolTotalBytes : Budget := .unbudgeted
  protocolOutputCount : Budget := .unbudgeted
  jsonDepth : Budget := .unbudgeted

/-! ### Decoding a frame -/

/-- What `require_canonical_json_bytes` raises. -/
inductive CanonicalBytesError
  | strict (error : StrictJsonDecodeError)
  | nonCanonical

section Decoding

variable (C : Codec)

def requireCanonicalJsonBytes (data : Bytes) (maxBytes maxDepth : ℕ) :
    Except CanonicalBytesError Unit :=
  match C.decodeStrictJsonBytes data maxBytes maxDepth with
  | .error error => .error (.strict error)
  | .ok decoded => if C.canonicalJsonBytes decoded ≠ data then .error .nonCanonical else .ok ()

/-- `decode_frame`. -/
def decodeFrame (frameBytes : Bytes) (maxDepth : ℕ) : Except ProtocolViolation ProtocolFrame :=
  match requireCanonicalJsonBytes C frameBytes frameBytes.length maxDepth with
  | .error (.strict .depthLimit) =>
    .error ⟨.oversizedFrame, "frame exceeded its structural depth budget"⟩
  | .error .nonCanonical => .error ⟨.malformedFrame, "frame bytes are not canonical JSON bytes"⟩
  | .error (.strict (.other typeName)) =>
    .error ⟨.malformedFrame, s!"frame is not strict JSON: {typeName}"⟩
  | .ok () =>
    match (C.readJson frameBytes).bind C.validateFrame with
    | none => .error ⟨.malformedFrame, "frame is not a valid protocol frame"⟩
    | some ⟨frame, versionSet⟩ =>
      if versionSet = false then
        .error ⟨.malformedFrame, "frame does not contain an explicit protocol version"⟩
      else .ok frame

/-- `_effective_depth`. -/
def effectiveDepth : Option ℕ → ℕ
  | none => C.canonicalJsonMaxContainerDepth
  | some maxDepth => min maxDepth C.canonicalJsonMaxContainerDepth

theorem effectiveDepth_le (limit : Option ℕ) :
    effectiveDepth C limit ≤ C.canonicalJsonMaxContainerDepth := by
  cases limit with
  | none => exact le_rfl
  | some maxDepth => exact min_le_right _ _

theorem requireCanonicalJsonBytes_eq_ok {data : Bytes} {maxBytes maxDepth : ℕ} :
    requireCanonicalJsonBytes C data maxBytes maxDepth = .ok () ↔
      ∃ v, C.decodeStrictJsonBytes data maxBytes maxDepth = .ok v ∧
        C.canonicalJsonBytes v = data := by
  unfold requireCanonicalJsonBytes
  split <;> rename_i hv
  · simp [hv]
  · split_ifs with h <;> simp_all

variable {C}

/-- **Decoding accepts exactly the canonical bytes of an admissible frame within the depth
bound**, which is within the ceiling. -/
theorem decodeFrame_eq_ok_iff (hC : C.Recogniser) {bytes : Bytes} {maxDepth : ℕ}
    (hceiling : maxDepth ≤ C.canonicalJsonMaxContainerDepth) {frame : ProtocolFrame} :
    decodeFrame C bytes maxDepth = .ok frame ↔
      bytes = C.frameBytes frame ∧ C.Admits frame ∧ frame.json.depth ≤ maxDepth := by
  constructor
  · intro h
    unfold decodeFrame at h
    split at h <;> try cases h
    rename_i hok
    obtain ⟨v, hv, hcanonical⟩ := (requireCanonicalJsonBytes_eq_ok C).mp hok
    obtain ⟨hnormal, hdepth⟩ := hC.decoded _ _ _ _ hv hcanonical
    split at h <;> try cases h
    rename_i f versionSet hvalid
    obtain ⟨w, hw, hframe⟩ := Option.bind_eq_some_iff.mp hvalid
    obtain rfl := hC.reread _ _ _ _ _ hv hcanonical hw
    cases versionSet with
    | false => cases h
    | true =>
      cases h
      obtain ⟨rfl, hadmits⟩ := (C.validateFrame_eq_iff hnormal).mp hframe
      exact ⟨hcanonical.symm, hadmits, hdepth⟩
  · rintro ⟨rfl, hadmits, hdepth⟩
    have hok : requireCanonicalJsonBytes C (C.frameBytes frame) (C.frameBytes frame).length
        maxDepth = .ok () :=
      (requireCanonicalJsonBytes_eq_ok C).mpr
        ⟨_, hC.frame_decoded frame _ _ hadmits le_rfl hdepth, rfl⟩
    simp only [decodeFrame, hok, hC.frame_reread frame hadmits (hdepth.trans hceiling), Option.bind_some,
      C.validateFrame_json hadmits]
    rfl

end Decoding

/-! ### Acquiring frames -/

/-- `_CHUNK_BYTES`. -/
def chunkBytes : ℕ := 65536

/-- A byte reader, with the number of reads made so far. -/
structure Reader where
  unread : Bytes
  cut : ℕ → ℕ
  calls : ℕ := 0

/-- `reader.read(n)`: between one and `n` bytes, none at the end. -/
def Reader.read (r : Reader) (n : ℕ) : Bytes × Reader :=
  let size := min (max 1 (min (r.cut r.calls) n)) r.unread.length
  (r.unread.take size, { r with unread := r.unread.drop size, calls := r.calls + 1 })

/-- The violation of the frame budget. -/
def frameBudgetExceeded : ProtocolViolation :=
  ⟨.oversizedFrame, "protocol frame exceeded its byte budget"⟩

/-- The violation of the total budget. -/
def totalBudgetExceeded : ProtocolViolation :=
  ⟨.oversizedFrame, "protocol stream exceeded its total byte budget"⟩

/-- The violation of a stream that goes on after its completion frame. -/
def bytesAfterCompletion : ProtocolViolation :=
  ⟨.unexpectedFrame, "bytes arrived after the completion frame"⟩

/-- `_FrameAcquisition`. -/
structure FrameAcquisition where
  reader : Reader
  maxFrameBytes : Option ℕ
  maxTotalBytes : Option ℕ
  buffer : Bytes := []
  atEof : Bool := false
  bytesReceived : ℕ := 0

/-- How much a read may ask for: a chunk, and no more than one byte above each finite budget, of
which `buffered` and `received` bytes are used up. -/
def roomFor (maxFrameBytes maxTotalBytes : Option ℕ) (buffered received : ℕ) : ℕ :=
  let frameRoom := maxFrameBytes.map fun limit : ℕ => (limit : ℤ) + 1 - buffered
  let totalRoom := maxTotalBytes.map fun limit : ℕ => (limit : ℤ) + 1 - received
  (max 1 ((frameRoom.toList ++ totalRoom.toList).foldl min (chunkBytes : ℤ))).toNat

/-- The reads that are never asked to stop short. -/
theorem le_roomFor_iff {maxFrameBytes maxTotalBytes : Option ℕ} {buffered received n : ℕ}
    (hframe : ¬ Exceeds maxFrameBytes buffered) (htotal : ¬ Exceeds maxTotalBytes received) :
    n ≤ roomFor maxFrameBytes maxTotalBytes buffered received ↔
      n ≤ chunkBytes ∧ (∀ limit, maxFrameBytes = some limit → n + buffered ≤ limit + 1) ∧
        ∀ limit, maxTotalBytes = some limit → n + received ≤ limit + 1 := by
  unfold roomFor chunkBytes
  rcases maxFrameBytes with _ | frame <;> rcases maxTotalBytes with _ | total <;>
    simp at hframe htotal ⊢ <;> omega

namespace FrameAcquisition

/-- `_read_size`. -/
def readSize (a : FrameAcquisition) : ℕ :=
  roomFor a.maxFrameBytes a.maxTotalBytes a.buffer.length a.bytesReceived

/-- `_check_frame_budget`. -/
def checkFrameBudget (a : FrameAcquisition) (length : ℕ) : Option ProtocolViolation :=
  if Exceeds a.maxFrameBytes length then some frameBudgetExceeded else none

/-- `_fill`. -/
def fill (a : FrameAcquisition) : FrameAcquisition × Option ProtocolViolation :=
  let (chunk, reader) := a.reader.read a.readSize
  let a := { a with reader := reader }
  if chunk = [] then ({ a with atEof := true }, none)
  else
    let a := { a with bytesReceived := a.bytesReceived + chunk.length }
    if Exceeds a.maxTotalBytes a.bytesReceived then (a, some totalBudgetExceeded)
    else ({ a with buffer := a.buffer ++ chunk }, none)

/-- The violation of a last line without its terminator. -/
def unterminated (afterCompletion : Bool) : ProtocolViolation :=
  if afterCompletion then bytesAfterCompletion
  else ⟨.incompleteStream, "stream ended without a terminating LF"⟩

/-- One pass through the loop of `next_frame`. -/
def nextFramePass (afterCompletion : Bool) (a : FrameAcquisition) :
    (FrameAcquisition × Except ProtocolViolation (Option Bytes)) ⊕ FrameAcquisition :=
  match a.buffer.idxOf? protocolFrameTerminator with
  | some terminator =>
    let frame := a.buffer.take terminator
    let a := { a with buffer := a.buffer.drop (terminator + 1) }
    match a.checkFrameBudget frame.length with
    | some violation => .inl (a, .error violation)
    | none => .inl (a, .ok (some frame))
  | none =>
    match a.checkFrameBudget a.buffer.length with
    | some violation => .inl (a, .error violation)
    | none =>
      if a.atEof then
        if a.buffer ≠ [] then .inl (a, .error (unterminated afterCompletion))
        else .inl (a, .ok none)
      else
        match a.fill with
        | (a, some violation) => .inl (a, .error violation)
        | (a, none) => .inr a

/-- How many bytes the next read returns before the end. -/
def fillSize (a : FrameAcquisition) : ℕ :=
  min (max 1 (min (a.reader.cut a.reader.calls) a.readSize)) a.reader.unread.length

/-- The acquisition after that read, the bytes not yet in its buffer. -/
def afterRead (a : FrameAcquisition) : FrameAcquisition :=
  { a with
    reader := { a.reader with
      unread := a.reader.unread.drop a.fillSize, calls := a.reader.calls + 1 }
    bytesReceived := a.bytesReceived + a.fillSize }

theorem fill_of_end {a : FrameAcquisition} (h : a.reader.unread = []) :
    a.fill = ({ a with reader := { a.reader with calls := a.reader.calls + 1 }, atEof := true },
      none) := by
  simp [fill, Reader.read, h]

theorem fillSize_pos {a : FrameAcquisition} (h : a.reader.unread ≠ []) : 0 < a.fillSize := by
  have hlen := List.length_pos_of_ne_nil h
  unfold fillSize
  omega

theorem fill_of_unread {a : FrameAcquisition} (h : a.reader.unread ≠ []) :
    a.fill =
      if Exceeds a.maxTotalBytes (a.bytesReceived + a.fillSize) then
        (a.afterRead, some totalBudgetExceeded)
      else
        ({ a.afterRead with buffer := a.buffer ++ a.reader.unread.take a.fillSize }, none) := by
  have hne : a.reader.unread.take a.fillSize ≠ [] := by
    have hpos := fillSize_pos h
    simp only [ne_eq, List.take_eq_nil_iff, h, or_false]
    omega
  have hlen : (a.reader.unread.take a.fillSize).length = a.fillSize := by
    simp [fillSize]
  have hsize : min (max 1 (min (a.reader.cut a.reader.calls) a.readSize)) a.reader.unread.length =
      a.fillSize := rfl
  simp only [fill, Reader.read, hsize, if_neg hne, hlen]
  rfl

/-- How `next_frame` is left. -/
inductive Leaves (afterCompletion : Bool) (a : FrameAcquisition) :
    FrameAcquisition × Except ProtocolViolation (Option Bytes) → Prop
  | frame (line rest : Bytes) : a.buffer = line ++ protocolFrameTerminator :: rest →
      protocolFrameTerminator ∉ line → ¬ Exceeds a.maxFrameBytes line.length →
      Leaves afterCompletion a ({ a with buffer := rest }, .ok (some line))
  | longFrame (line rest : Bytes) : a.buffer = line ++ protocolFrameTerminator :: rest →
      protocolFrameTerminator ∉ line → Exceeds a.maxFrameBytes line.length →
      Leaves afterCompletion a ({ a with buffer := rest }, .error frameBudgetExceeded)
  | longBuffer : protocolFrameTerminator ∉ a.buffer → Exceeds a.maxFrameBytes a.buffer.length →
      Leaves afterCompletion a (a, .error frameBudgetExceeded)
  | unterminated : protocolFrameTerminator ∉ a.buffer → ¬ Exceeds a.maxFrameBytes a.buffer.length →
      a.atEof = true → a.buffer ≠ [] →
      Leaves afterCompletion a (a, .error (unterminated afterCompletion))
  | atEnd : a.atEof = true → a.buffer = [] → Leaves afterCompletion a (a, .ok none)
  | total : protocolFrameTerminator ∉ a.buffer → ¬ Exceeds a.maxFrameBytes a.buffer.length →
      a.atEof = false → a.reader.unread ≠ [] →
      Exceeds a.maxTotalBytes (a.bytesReceived + a.fillSize) →
      Leaves afterCompletion a (a.afterRead, .error totalBudgetExceeded)

/-- How the loop of `next_frame` goes on. -/
inductive Goes (a : FrameAcquisition) : FrameAcquisition → Prop
  | atEnd : a.atEof = false → a.reader.unread = [] →
      Goes a { a with reader := { a.reader with calls := a.reader.calls + 1 }, atEof := true }
  | filled : protocolFrameTerminator ∉ a.buffer → ¬ Exceeds a.maxFrameBytes a.buffer.length →
      a.atEof = false → a.reader.unread ≠ [] →
      ¬ Exceeds a.maxTotalBytes (a.bytesReceived + a.fillSize) →
      Goes a { a.afterRead with buffer := a.buffer ++ a.reader.unread.take a.fillSize }

/-- **One pass through `next_frame`.** -/
theorem nextFramePass_cases (afterCompletion : Bool) (a : FrameAcquisition) :
    (∃ r, a.nextFramePass afterCompletion = .inl r ∧ Leaves afterCompletion a r) ∨
      ∃ a', a.nextFramePass afterCompletion = .inr a' ∧ Goes a a' := by
  by_cases hbuffer : protocolFrameTerminator ∈ a.buffer
  · obtain ⟨line, rest, hsplit, hline⟩ := List.eq_append_cons_of_mem hbuffer
    have htake : (line ++ protocolFrameTerminator :: rest).take line.length = line :=
      List.take_left
    have hdrop : (line ++ protocolFrameTerminator :: rest).drop (line.length + 1) = rest := by
      simp
    simp only [nextFramePass, hsplit, idxOf?_line hline, htake, hdrop, checkFrameBudget]
    by_cases hlong : Exceeds a.maxFrameBytes line.length
    · rw [if_pos hlong]
      exact .inl ⟨_, rfl, .longFrame line rest hsplit hline hlong⟩
    · rw [if_neg hlong]
      exact .inl ⟨_, rfl, .frame line rest hsplit hline hlong⟩
  simp only [nextFramePass, List.idxOf?_eq_none_iff.mpr hbuffer, checkFrameBudget]
  by_cases hlong : Exceeds a.maxFrameBytes a.buffer.length
  · rw [if_pos hlong]
    exact .inl ⟨_, rfl, .longBuffer hbuffer hlong⟩
  rw [if_neg hlong]
  by_cases heof : a.atEof = true
  · by_cases hne : a.buffer ≠ []
    · exact .inl ⟨_, by simp [heof, hne], .unterminated hbuffer hlong heof hne⟩
    · exact .inl ⟨_, by simp [heof, hne], .atEnd heof (not_not.mp hne)⟩
  rw [Bool.not_eq_true] at heof
  by_cases hend : a.reader.unread = []
  · exact .inr ⟨_, by simp [heof, fill_of_end hend], .atEnd heof hend⟩
  by_cases htotal : Exceeds a.maxTotalBytes (a.bytesReceived + a.fillSize)
  · exact .inl ⟨_, by simp [heof, fill_of_unread hend, htotal],
      .total hbuffer hlong heof hend htotal⟩
  · exact .inr ⟨_, by simp [heof, fill_of_unread hend, htotal],
      .filled hbuffer hlong heof hend htotal⟩

theorem nextFramePass_leaves {afterCompletion : Bool} {a : FrameAcquisition}
    {r : FrameAcquisition × Except ProtocolViolation (Option Bytes)}
    (h : a.nextFramePass afterCompletion = .inl r) : Leaves afterCompletion a r := by
  rcases nextFramePass_cases afterCompletion a with ⟨r', hr', hleaves⟩ | ⟨a', ha', -⟩
  · exact Sum.inl.inj (hr'.symm.trans h) ▸ hleaves
  · exact absurd (ha'.symm.trans h) (by simp)

theorem nextFramePass_goes {afterCompletion : Bool} {a a' : FrameAcquisition}
    (h : a.nextFramePass afterCompletion = .inr a') : Goes a a' := by
  rcases nextFramePass_cases afterCompletion a with ⟨r, hr, -⟩ | ⟨b, hb, hgoes⟩
  · exact absurd (hr.symm.trans h) (by simp)
  · exact Sum.inr.inj (hb.symm.trans h) ▸ hgoes

/-- What is left to read, the end of the stream included. -/
def remaining (a : FrameAcquisition) : ℕ := a.reader.unread.length + if a.atEof then 0 else 1

theorem Goes.remaining_lt {a a' : FrameAcquisition} (h : Goes a a') :
    a'.remaining < a.remaining := by
  cases h with
  | atEnd heof hend => simp [remaining, hend, heof]
  | filled _ _ heof hend _ =>
    have hpos := fillSize_pos hend
    have hlen := List.length_pos_of_ne_nil hend
    simp only [remaining, afterRead, List.length_drop, heof]
    omega

/-- The loop of `next_frame`. -/
def nextFrameLoop (afterCompletion : Bool) :
    Loop FrameAcquisition (FrameAcquisition × Except ProtocolViolation (Option Bytes)) where
  body := nextFramePass afterCompletion
  variant := remaining
  decreases := fun _ _ h => (nextFramePass_goes h).remaining_lt

/-- `next_frame`: the next frame without its terminator, or none at the end. -/
def nextFrame (a : FrameAcquisition) (afterCompletion : Bool) :
    FrameAcquisition × Except ProtocolViolation (Option Bytes) :=
  (nextFrameLoop afterCompletion).run a

/-- **The rule for `next_frame`.** What every fill keeps holds where it is left. -/
theorem nextFrame_rule {I : FrameAcquisition → Prop} {afterCompletion : Bool}
    {Q : FrameAcquisition × Except ProtocolViolation (Option Bytes) → Prop} {a : FrameAcquisition}
    (h0 : I a) (hleave : ∀ ⦃b r⦄, I b → Leaves afterCompletion b r → Q r)
    (hgo : ∀ ⦃b b'⦄, I b → Goes b b' → I b') : Q (a.nextFrame afterCompletion) :=
  Loop.run_rule _ h0 (fun _ _ hb h => hleave hb (nextFramePass_leaves h))
    fun _ _ hb h => hgo hb (nextFramePass_goes h)

/-- How many bytes no frame has been made of yet. -/
def pending (a : FrameAcquisition) : ℕ := a.buffer.length + a.reader.unread.length

/-- A frame uses up bytes. -/
theorem pending_lt {a a' : FrameAcquisition} {afterCompletion : Bool} {frame : Bytes}
    (h : a.nextFrame afterCompletion = (a', .ok (some frame))) : a'.pending < a.pending := by
  have key : ∀ b line, a.nextFrame afterCompletion = (b, .ok (some line)) →
      b.pending < a.pending := by
    refine nextFrame_rule (I := fun b => b.pending ≤ a.pending)
      (Q := fun r => ∀ b line, r = (b, .ok (some line)) → b.pending < a.pending) le_rfl ?_ ?_
    · rintro b r hb hleaves _ _ rfl
      cases hleaves with
      | frame line rest hbuffer _ _ =>
        simp only [pending, hbuffer, List.length_append, List.length_cons] at hb ⊢
        omega
    · intro b b' hb hgoes
      refine le_trans ?_ hb
      cases hgoes with
      | atEnd => exact le_rfl
      | filled =>
        simp only [pending, afterRead, List.length_append, List.length_take, List.length_drop]
        omega
  exact key a' frame h

end FrameAcquisition

/-! ### The stream state -/

/-- `_StreamState`. -/
structure StreamState where
  requestIdSha256 : Str
  maxOutputCount : Option ℕ
  outputs : List Json := []
  preludeSeen : Bool := false
  completed : Bool := false

namespace StreamState

/-- `finish`. -/
def finish (s : StreamState) : Option ProtocolViolation :=
  if s.completed = false then
    some ⟨.incompleteStream, "stream ended before its completion frame"⟩
  else none

/-- `_require_open`. -/
def requireOpen (s : StreamState) (name : String) : Option ProtocolViolation :=
  if s.preludeSeen = false then
    some ⟨.unexpectedFrame, s!"{name} frame arrived before the prelude"⟩
  else if s.completed then
    some ⟨.unexpectedFrame, s!"{name} frame arrived after completion"⟩
  else none

/-- `_accept_prelude`. -/
def acceptPrelude (s : StreamState) (requestIdSha256 : Str) :
    StreamState × Option ProtocolViolation :=
  if s.preludeSeen then
    (s, some ⟨.unexpectedFrame, "prelude must appear exactly once, first"⟩)
  else
    let s := { s with preludeSeen := true }
    if requestIdSha256 ≠ s.requestIdSha256 then
      (s, some ⟨.idMismatch, "prelude does not bind this request identity"⟩)
    else (s, none)

/-- `_accept_output`. -/
def acceptOutput (s : StreamState) (sequence : ℕ) (document : Json) :
    StreamState × Option ProtocolViolation :=
  match s.requireOpen "output" with
  | some violation => (s, some violation)
  | none =>
    if sequence < s.outputs.length then
      (s, some ⟨.duplicateOutput, s!"output sequence {sequence} was already accepted"⟩)
    else if sequence ≠ s.outputs.length then
      (s, some ⟨.unexpectedFrame, s!"output sequence {sequence} is not consecutive"⟩)
    else if Exceeds s.maxOutputCount (s.outputs.length + 1) then
      (s, some ⟨.oversizedFrame, "protocol stream exceeded its output-count budget"⟩)
    else ({ s with outputs := s.outputs ++ [document] }, none)

/-- `_accept_complete`. -/
def acceptComplete (s : StreamState) (outputCount : ℕ) : StreamState × Option ProtocolViolation :=
  match s.requireOpen "completion" with
  | some violation => (s, some violation)
  | none =>
    if outputCount ≠ s.outputs.length then
      (s, some ⟨.incompleteStream, "completion count does not match the accepted outputs"⟩)
    else ({ s with completed := true }, none)

/-- `accept`. -/
def accept (s : StreamState) : ProtocolFrame → StreamState × Option ProtocolViolation
  | .prelude requestIdSha256 => s.acceptPrelude requestIdSha256
  | .output sequence document => s.acceptOutput sequence document
  | .complete outputCount => s.acceptComplete outputCount

variable {s s' : StreamState}

theorem requireOpen_eq_none (name : String) :
    s.requireOpen name = none ↔ s.preludeSeen = true ∧ s.completed = false := by
  unfold requireOpen
  split_ifs with hprelude hcompleted <;> simp_all

theorem accept_prelude_eq {digest : Str} :
    s.accept (.prelude digest) = (s', none) ↔
      s.preludeSeen = false ∧ digest = s.requestIdSha256 ∧ s' = { s with preludeSeen := true } := by
  show s.acceptPrelude digest = (s', none) ↔ _
  unfold acceptPrelude
  by_cases hprelude : s.preludeSeen = true
  · simp [hprelude]
  rw [if_neg hprelude]
  by_cases hdigest : digest = s.requestIdSha256
  · simp only [hdigest, ne_eq, not_true_eq_false, if_false, Prod.mk.injEq, and_true]
    exact ⟨fun h => ⟨by simpa using hprelude, trivial, h.symm⟩, fun h => h.2.2.symm⟩
  · simp [hdigest]

theorem accept_output_eq {sequence : ℕ} {document : Json} :
    s.accept (.output sequence document) = (s', none) ↔
      s.preludeSeen = true ∧ s.completed = false ∧ sequence = s.outputs.length ∧
        ¬ Exceeds s.maxOutputCount (s.outputs.length + 1) ∧
        s' = { s with outputs := s.outputs ++ [document] } := by
  show s.acceptOutput sequence document = (s', none) ↔ _
  unfold acceptOutput
  rw [← and_assoc, ← requireOpen_eq_none "output"]
  split
  · rename_i h
    simp [h]
  · rename_i h
    split_ifs with hlt hne hcount
    · simp [hlt.ne]
    · simp [hne]
    · simp [hcount]
    · simp [h, hcount, not_not.mp hne, eq_comm]

theorem accept_complete_eq {outputCount : ℕ} :
    s.accept (.complete outputCount) = (s', none) ↔
      s.preludeSeen = true ∧ s.completed = false ∧ outputCount = s.outputs.length ∧
        s' = { s with completed := true } := by
  show s.acceptComplete outputCount = (s', none) ↔ _
  unfold acceptComplete
  rw [← and_assoc, ← requireOpen_eq_none "completion"]
  split
  · rename_i h
    simp [h]
  · rename_i h
    split_ifs with hcount
    · simp [hcount]
    · simp [h, not_not.mp hcount, eq_comm]

/-- A frame that is refused adds no output. -/
theorem outputs_of_refused {frame : ProtocolFrame} {violation : ProtocolViolation}
    (h : s.accept frame = (s', some violation)) : s'.outputs = s.outputs := by
  cases frame with
  | prelude digest =>
    simp only [accept, acceptPrelude] at h
    split_ifs at h <;> simp only [Prod.mk.injEq, reduceCtorEq, and_false] at h <;> rw [← h.1]
  | output sequence document =>
    simp only [accept, acceptOutput] at h
    split at h
    · cases h; rfl
    · split_ifs at h <;> simp only [Prod.mk.injEq, reduceCtorEq, and_false] at h <;> rw [← h.1]
  | complete outputCount =>
    simp only [accept, acceptComplete] at h
    split at h
    · cases h; rfl
    · split_ifs at h <;> simp only [Prod.mk.injEq, reduceCtorEq, and_false] at h
      rw [← h.1]

end StreamState

/-! ### Reading the stream -/

/-- `ProtocolStreamResult`. -/
structure ProtocolStreamResult where
  outputs : List Json
  bytesReceived : ℕ
  failure : Option ProtocolViolation

/-- One pass through the loop of `read_protocol_stream`. -/
def readPass (C : Codec) (maxDepth : Option ℕ) :
    FrameAcquisition × StreamState → ProtocolStreamResult ⊕ (FrameAcquisition × StreamState)
  | (acquisition, state) =>
    match acquisition.nextFrame state.completed with
    | (acquisition, .error violation) =>
      .inl ⟨state.outputs, acquisition.bytesReceived, some violation⟩
    | (acquisition, .ok none) =>
      .inl ⟨state.outputs, acquisition.bytesReceived, state.finish⟩
    | (acquisition, .ok (some frameBytes)) =>
      if state.completed then
        .inl ⟨state.outputs, acquisition.bytesReceived, some bytesAfterCompletion⟩
      else
        match decodeFrame C frameBytes (effectiveDepth C maxDepth) with
        | .error violation => .inl ⟨state.outputs, acquisition.bytesReceived, some violation⟩
        | .ok frame =>
          match state.accept frame with
          | (state, some violation) =>
            .inl ⟨state.outputs, acquisition.bytesReceived, some violation⟩
          | (state, none) => .inr (acquisition, state)

/-- Going on takes a frame. -/
theorem readPass_goes {C : Codec} {maxDepth : Option ℕ} {x y : FrameAcquisition × StreamState}
    (h : readPass C maxDepth x = .inr y) :
    ∃ frameBytes, x.1.nextFrame x.2.completed = (y.1, .ok (some frameBytes)) := by
  obtain ⟨acquisition, state⟩ := x
  simp only [readPass] at h
  split at h
  · cases h
  · cases h
  · rename_i frameBytes hnext
    refine ⟨frameBytes, hnext.trans ?_⟩
    split_ifs at h
    split at h
    · cases h
    · split at h <;> cases h
      rfl

/-- The loop of `read_protocol_stream`. -/
def readLoop (C : Codec) (maxDepth : Option ℕ) :
    Loop (FrameAcquisition × StreamState) ProtocolStreamResult where
  body := readPass C maxDepth
  variant := fun x => x.1.pending
  decreases := fun _ _ h =>
    let ⟨_, hnext⟩ := readPass_goes h
    FrameAcquisition.pending_lt hnext

/-- `read_protocol_stream`. -/
def readProtocolStream (C : Codec) (reader : Reader) (requestIdSha256 : Str)
    (selfBudgets : ExecutorSelfBudgets) : ProtocolStreamResult :=
  (readLoop C selfBudgets.jsonDepth.limit).run
    ({ reader := reader
       maxFrameBytes := selfBudgets.protocolFrameBytes.limit
       maxTotalBytes := selfBudgets.protocolTotalBytes.limit },
     { requestIdSha256 := requestIdSha256
       maxOutputCount := selfBudgets.protocolOutputCount.limit })

end DrExec.Runtime.Protocol
