import DrExec.Runtime.Protocol

/-! # What the reader makes of the bytes that have arrived

The reader seen from the stream: a reading stands at a position of the stream, all bytes before it
have been scanned frame by frame, and one read moves it on. `arrivals` is the loop over positions;
`readProtocolStream_eq` is the refinement: the buffer, the search for the terminator and the two
nested loops of the source compute it. -/

namespace DrExec.Runtime.Arrival

open DrExec.Lib DrExec.Lib.Lines DrExec.Runtime.Wire DrExec.Runtime.Protocol

variable (C : Codec) (requestIdSha256 : Str) (budgets : ExecutorSelfBudgets)

/-! ### Scanning frames -/

/-- The state of a stream of which nothing has arrived. -/
def initial : StreamState :=
  { requestIdSha256 := requestIdSha256, maxOutputCount := budgets.protocolOutputCount.limit }

/-- What a complete frame does to the stream state. -/
def takeFrame (s : StreamState) (frameBytes : Bytes) : StreamState × Option ProtocolViolation :=
  if s.completed then (s, some bytesAfterCompletion)
  else
    match decodeFrame C frameBytes (effectiveDepth C budgets.jsonDepth.limit) with
    | .error violation => (s, some violation)
    | .ok frame => s.accept frame

/-- The scanner of a protocol stream. -/
def frames : Scanner UInt8 StreamState ProtocolViolation where
  terminator := protocolFrameTerminator
  limit := budgets.protocolFrameBytes.limit
  tooLong := frameBudgetExceeded
  accept := takeFrame C budgets

/-- What the first `n` bytes of a stream come to. -/
def arrived (stream : Bytes) (n : ℕ) : Scan UInt8 StreamState ProtocolViolation :=
  (frames C budgets).scan (.reading (initial requestIdSha256 budgets) []) (stream.take n)

theorem arrived_zero (stream : Bytes) :
    arrived C requestIdSha256 budgets stream 0 =
      .reading (initial requestIdSha256 budgets) [] := rfl

theorem arrived_add (stream : Bytes) (n m : ℕ) :
    arrived C requestIdSha256 budgets stream (n + m) =
      (frames C budgets).scan (arrived C requestIdSha256 budgets stream n)
        ((stream.drop n).take m) := by
  rw [arrived, arrived, List.take_add, Scanner.scan_append]

/-! ### Positions -/

/-- Where a reading stands: the reads made, and the bytes they returned. -/
structure Position where
  calls : ℕ := 0
  received : ℕ := 0

/-- How many bytes the next read returns, when `buffered` of the bytes received are an unfinished
line. -/
def readLength (cut : ℕ → ℕ) (stream : Bytes) (p : Position) (buffered : ℕ) : ℕ :=
  min (max 1 (min (cut p.calls)
    (roomFor budgets.protocolFrameBytes.limit budgets.protocolTotalBytes.limit buffered
      p.received))) (stream.length - p.received)

/-- The verdict at the end of a stream with an unfinished line. -/
def ending (s : StreamState) (line : Bytes) : Option ProtocolViolation :=
  if line ≠ [] then some (FrameAcquisition.unterminated s.completed) else s.finish

/-- One read. -/
def arrivalPass (cut : ℕ → ℕ) (stream : Bytes) (p : Position) :
    ProtocolStreamResult ⊕ Position :=
  match arrived C requestIdSha256 budgets stream p.received with
  | .refused s violation => .inl ⟨s.outputs, p.received, some violation⟩
  | .reading s line =>
    if stream.length ≤ p.received then .inl ⟨s.outputs, p.received, ending s line⟩
    else
      let received := p.received + readLength budgets cut stream p line.length
      if Exceeds budgets.protocolTotalBytes.limit received then
        .inl ⟨s.outputs, received, some totalBudgetExceeded⟩
      else .inr ⟨p.calls + 1, received⟩

theorem readLength_pos {cut : ℕ → ℕ} {stream : Bytes} {p : Position} {buffered : ℕ}
    (h : p.received < stream.length) : 0 < readLength budgets cut stream p buffered := by
  unfold readLength
  omega

/-- How a read goes on. -/
theorem arrivalPass_goes {cut : ℕ → ℕ} {stream : Bytes} {p q : Position}
    (h : arrivalPass C requestIdSha256 budgets cut stream p = .inr q) :
    ∃ s line, arrived C requestIdSha256 budgets stream p.received = .reading s line ∧
      p.received < stream.length ∧
      q = ⟨p.calls + 1, p.received + readLength budgets cut stream p line.length⟩ ∧
      ¬ Exceeds budgets.protocolTotalBytes.limit q.received := by
  unfold arrivalPass at h
  split at h
  · cases h
  · rename_i s line hs
    dsimp only at h
    split_ifs at h with hend htotal
    cases h
    exact ⟨s, line, hs, by omega, rfl, htotal⟩

/-- A reading, as a loop over its positions. -/
def arrivals (cut : ℕ → ℕ) (stream : Bytes) : Loop Position ProtocolStreamResult where
  body := arrivalPass C requestIdSha256 budgets cut stream
  variant := fun p => stream.length - p.received
  decreases := by
    intro p q h
    obtain ⟨s, line, -, hlt, rfl, -⟩ := arrivalPass_goes C requestIdSha256 budgets h
    have hpos : 0 < readLength budgets cut stream p line.length := readLength_pos budgets hlt
    dsimp only
    omega

/-- How a reading ends: at a refusal, at the end of the stream, or at a read beyond the total
budget. -/
inductive Ends (cut : ℕ → ℕ) (stream : Bytes) : ProtocolStreamResult → Prop
  | refused (n : ℕ) (s : StreamState) (violation : ProtocolViolation) : n ≤ stream.length →
      ¬ Exceeds budgets.protocolTotalBytes.limit n →
      arrived C requestIdSha256 budgets stream n = .refused s violation →
      Ends cut stream ⟨s.outputs, n, some violation⟩
  | ended (s : StreamState) (line : Bytes) :
      ¬ Exceeds budgets.protocolTotalBytes.limit stream.length →
      arrived C requestIdSha256 budgets stream stream.length = .reading s line →
      Ends cut stream ⟨s.outputs, stream.length, ending s line⟩
  | total (p : Position) (s : StreamState) (line : Bytes) : p.received < stream.length →
      ¬ Exceeds budgets.protocolTotalBytes.limit p.received →
      arrived C requestIdSha256 budgets stream p.received = .reading s line →
      Exceeds budgets.protocolTotalBytes.limit
        (p.received + readLength budgets cut stream p line.length) →
      Ends cut stream ⟨s.outputs, p.received + readLength budgets cut stream p line.length,
        some totalBudgetExceeded⟩

/-- **Every reading ends in one of these ways.** -/
theorem ends (cut : ℕ → ℕ) (stream : Bytes) :
    Ends C requestIdSha256 budgets cut stream
      ((arrivals C requestIdSha256 budgets cut stream).run {}) := by
  refine Loop.run_rule _ (I := fun p : Position =>
    p.received ≤ stream.length ∧ ¬ Exceeds budgets.protocolTotalBytes.limit p.received)
    ⟨Nat.zero_le _, not_exceeds_zero _⟩ ?_ ?_
  · rintro p r ⟨hle, hwithin⟩ hleave
    simp only [arrivals, arrivalPass] at hleave
    split at hleave
    · rename_i s violation hs
      cases hleave
      exact .refused _ _ _ hle hwithin hs
    · rename_i s line hs
      split_ifs at hleave with hend htotal
      · cases hleave
        rw [le_antisymm hle hend] at hs hwithin ⊢
        exact .ended s line hwithin hs
      · cases hleave
        exact .total p s line (by omega) hwithin hs htotal
  · rintro p q ⟨hle, hwithin⟩ hgo
    obtain ⟨s, line, -, hlt, rfl, htotal⟩ := arrivalPass_goes C requestIdSha256 budgets hgo
    refine ⟨?_, htotal⟩
    simp only [readLength]
    omega

/-! ### The refinement -/

section Refinement

variable {C requestIdSha256 budgets}
variable {cut : ℕ → ℕ} {stream : Bytes}

/-- An acquisition that stands at a position, with `c` scanned and its buffer not yet. -/
structure Tracks (C : Codec) (requestIdSha256 : Str) (budgets : ExecutorSelfBudgets)
    (cut : ℕ → ℕ) (stream : Bytes) (a : FrameAcquisition)
    (c : Scan UInt8 StreamState ProtocolViolation) (p : Position) : Prop where
  cuts : a.reader.cut = cut
  frameLimit : a.maxFrameBytes = budgets.protocolFrameBytes.limit
  totalLimit : a.maxTotalBytes = budgets.protocolTotalBytes.limit
  unread : a.reader.unread = stream.drop a.bytesReceived
  received : p.received = a.bytesReceived
  le : p.received ≤ stream.length
  calls : a.atEof = false → p.calls = a.reader.calls
  eof : a.atEof = true → p.received = stream.length
  scanned : arrived C requestIdSha256 budgets stream p.received = (frames C budgets).scan c a.buffer

namespace Tracks

variable {a : FrameAcquisition} {s : StreamState} {p : Position}

theorem fillSize_eq {c : Scan UInt8 StreamState ProtocolViolation}
    (h : Tracks C requestIdSha256 budgets cut stream a c p) (heof : a.atEof = false) :
    a.fillSize = readLength budgets cut stream p a.buffer.length := by
  rw [FrameAcquisition.fillSize, FrameAcquisition.readSize, readLength, h.cuts, h.frameLimit,
    h.totalLimit, h.unread, h.calls heof, h.received, List.length_drop]

theorem limit_eq {c : Scan UInt8 StreamState ProtocolViolation}
    (h : Tracks C requestIdSha256 budgets cut stream a c p) :
    (frames C budgets).limit = a.maxFrameBytes := h.frameLimit.symm

/-- An unfinished line in the buffer. -/
theorem reading (h : Tracks C requestIdSha256 budgets cut stream a (.reading s []) p)
    (hbuffer : protocolFrameTerminator ∉ a.buffer)
    (hlong : ¬ Exceeds a.maxFrameBytes a.buffer.length) :
    arrived C requestIdSha256 budgets stream p.received = .reading s a.buffer := by
  rw [h.scanned, Scanner.scan_within _ (by simp) hbuffer, List.nil_append,
    h.limit_eq, if_neg hlong]

/-- A frame too long in the buffer. -/
theorem refused (h : Tracks C requestIdSha256 budgets cut stream a (.reading s []) p)
    {line rest : Bytes} (hbuffer : a.buffer = line ++ rest)
    (hline : protocolFrameTerminator ∉ line) (hlong : Exceeds a.maxFrameBytes line.length) :
    arrived C requestIdSha256 budgets stream p.received = .refused s frameBudgetExceeded := by
  rw [h.scanned, hbuffer]
  exact (frames C budgets).scan_long hline (h.limit_eq ▸ hlong) rest

theorem lt (h : Tracks C requestIdSha256 budgets cut stream a (.reading s []) p)
    (hend : a.reader.unread ≠ []) : p.received < stream.length := by
  rw [h.unread, ne_eq, List.drop_eq_nil_iff, ← h.received] at hend
  omega

/-- The verdict where the scan of what has arrived refuses. -/
theorem run_refused (cut : ℕ → ℕ) {violation : ProtocolViolation}
    (h : arrived C requestIdSha256 budgets stream p.received = .refused s violation) :
    (arrivals C requestIdSha256 budgets cut stream).run p =
      ⟨s.outputs, p.received, some violation⟩ :=
  Loop.run_of_leaves _ (by simp only [arrivals, arrivalPass, h])

/-- The verdict at the end of the stream. -/
theorem run_ended (cut : ℕ → ℕ) {line : Bytes}
    (h : arrived C requestIdSha256 budgets stream p.received = .reading s line)
    (hend : stream.length ≤ p.received) :
    (arrivals C requestIdSha256 budgets cut stream).run p =
      ⟨s.outputs, p.received, ending s line⟩ :=
  Loop.run_of_leaves _ (by simp only [arrivals, arrivalPass, h, if_pos hend])

end Tracks

/-- What the next frame, the end or a violation comes to at position `p`. -/
def Yields (C : Codec) (requestIdSha256 : Str) (budgets : ExecutorSelfBudgets) (cut : ℕ → ℕ)
    (stream : Bytes) (s : StreamState) (p : Position) :
    FrameAcquisition × Except ProtocolViolation (Option Bytes) → Prop
  | (a, .ok (some frame)) => ∃ q,
      Tracks C requestIdSha256 budgets cut stream a ((frames C budgets).endLine s frame) q ∧
      (arrivals C requestIdSha256 budgets cut stream).run q =
        (arrivals C requestIdSha256 budgets cut stream).run p
  | (a, .ok none) =>
      (arrivals C requestIdSha256 budgets cut stream).run p =
        ⟨s.outputs, a.bytesReceived, s.finish⟩
  | (a, .error violation) =>
      (arrivals C requestIdSha256 budgets cut stream).run p =
        ⟨s.outputs, a.bytesReceived, some violation⟩

namespace Tracks

variable {a : FrameAcquisition} {s : StreamState} {p : Position}

theorem goes (h : Tracks C requestIdSha256 budgets cut stream a (.reading s []) p)
    {a' : FrameAcquisition} (hgoes : FrameAcquisition.Goes a a') :
    ∃ q, Tracks C requestIdSha256 budgets cut stream a' (.reading s []) q ∧
      (arrivals C requestIdSha256 budgets cut stream).run q =
        (arrivals C requestIdSha256 budgets cut stream).run p := by
  cases hgoes with
  | atEnd heof hend =>
    have hge : stream.length ≤ p.received := by
      rw [h.unread, List.drop_eq_nil_iff, ← h.received] at hend
      exact hend
    exact ⟨p, { h with calls := nofun, eof := fun _ => le_antisymm h.le hge }, rfl⟩
  | filled hbuffer hlong heof hend htotal =>
    have hread := h.reading hbuffer hlong
    have hlt := h.lt hend
    have hsize := h.fillSize_eq heof
    rw [hsize, h.totalLimit, ← h.received] at htotal
    refine ⟨⟨p.calls + 1, p.received + readLength budgets cut stream p a.buffer.length⟩, ?_, ?_⟩
    · refine ⟨h.cuts, h.frameLimit, h.totalLimit, ?_, ?_, ?_, ?_, ?_, ?_⟩
      · simp only [FrameAcquisition.afterRead, h.unread, List.drop_drop]
      · simp only [FrameAcquisition.afterRead, h.received, hsize]
      · simp only [readLength]
        omega
      · intro _
        simp only [FrameAcquisition.afterRead, h.calls heof]
      · intro h'
        exact absurd (h'.symm.trans heof) (by simp)
      · rw [arrived_add, h.scanned, ← Scanner.scan_append, h.unread, h.received, hsize]
    · refine (Loop.run_of_goes _ ?_).symm
      simp only [arrivals, arrivalPass, hread, if_neg (not_le.mpr hlt), if_neg htotal]

theorem leaves (h : Tracks C requestIdSha256 budgets cut stream a (.reading s []) p)
    {r : FrameAcquisition × Except ProtocolViolation (Option Bytes)}
    (hleaves : FrameAcquisition.Leaves s.completed a r) :
    Yields C requestIdSha256 budgets cut stream s p r := by
  cases hleaves with
  | frame line rest hbuffer hline hfits =>
    refine ⟨p, { h with scanned := ?_ }, rfl⟩
    rw [h.scanned, hbuffer]
    exact (frames C budgets).scan_line ⟨hline, h.limit_eq ▸ hfits⟩ rest
  | longFrame line rest hbuffer hline hlong =>
    have hrun := run_refused cut (h.refused hbuffer hline hlong)
    rw [h.received] at hrun
    exact hrun
  | longBuffer hbuffer hlong =>
    have hrun := run_refused cut (h.refused (List.append_nil _).symm hbuffer hlong)
    rw [h.received] at hrun
    exact hrun
  | unterminated hbuffer hlong heof hne =>
    have hrun := run_ended cut (h.reading hbuffer hlong) (h.eof heof).ge
    rw [ending, if_pos hne, h.received] at hrun
    exact hrun
  | atEnd heof hempty =>
    have hread := h.reading (by simp [hempty]) (by simp [hempty])
    have hrun := run_ended cut hread (h.eof heof).ge
    rw [ending, if_neg (not_not.mpr hempty), h.received] at hrun
    exact hrun
  | total hbuffer hlong heof hend htotal =>
    have hread := h.reading hbuffer hlong
    have hsize := h.fillSize_eq heof
    rw [hsize, h.totalLimit, ← h.received] at htotal
    refine (Loop.run_of_leaves _ (r := ⟨s.outputs, p.received +
      readLength budgets cut stream p a.buffer.length, some totalBudgetExceeded⟩) ?_).trans ?_
    · simp only [arrivals, arrivalPass, hread, if_neg (not_le.mpr (h.lt hend)), if_pos htotal]
    · simp only [FrameAcquisition.afterRead, h.received, hsize]

/-- **The next frame**, from an acquisition with an unscanned buffer. -/
theorem nextFrame (h : Tracks C requestIdSha256 budgets cut stream a (.reading s []) p) :
    Yields C requestIdSha256 budgets cut stream s p (a.nextFrame s.completed) := by
  refine FrameAcquisition.nextFrame_rule (I := fun b => ∃ q,
    Tracks C requestIdSha256 budgets cut stream b (.reading s []) q ∧
      (arrivals C requestIdSha256 budgets cut stream).run q =
        (arrivals C requestIdSha256 budgets cut stream).run p) ⟨p, h, rfl⟩ ?_ ?_
  · rintro b r ⟨q, hq, hrun⟩ hleaves
    have hyields := hq.leaves hleaves
    unfold Yields at hyields ⊢
    rwa [hrun] at hyields
  · rintro b b' ⟨q, hq, hrun⟩ hgoes
    obtain ⟨q', hq', hrun'⟩ := hq.goes hgoes
    exact ⟨q', hq', hrun'.trans hrun⟩

end Tracks

/-- The rest of a pass of the source's outer loop is `takeFrame`. -/
theorem readPass_frame {a a' : FrameAcquisition} {s : StreamState} {frameBytes : Bytes}
    (h : a.nextFrame s.completed = (a', .ok (some frameBytes))) :
    readPass C budgets.jsonDepth.limit (a, s) =
      match takeFrame C budgets s frameBytes with
      | (s', some violation) => .inl ⟨s'.outputs, a'.bytesReceived, some violation⟩
      | (s', none) => .inr (a', s') := by
  simp only [readPass, h, takeFrame]
  by_cases hcompleted : s.completed = true
  · rw [if_pos hcompleted, if_pos hcompleted]
  · rw [if_neg hcompleted, if_neg hcompleted]
    rcases decodeFrame C frameBytes (effectiveDepth C budgets.jsonDepth.limit) with v | frame
    · rfl
    · rfl

/-- One pass of the source's outer loop. -/
theorem readPass_tracks {a : FrameAcquisition} {s : StreamState} {p : Position}
    (h : Tracks C requestIdSha256 budgets cut stream a (.reading s []) p) :
    match readPass C budgets.jsonDepth.limit (a, s) with
    | .inl r => r = (arrivals C requestIdSha256 budgets cut stream).run p
    | .inr (a', s') => ∃ q,
        Tracks C requestIdSha256 budgets cut stream a' (.reading s' []) q ∧
        (arrivals C requestIdSha256 budgets cut stream).run q =
          (arrivals C requestIdSha256 budgets cut stream).run p := by
  have hyields := h.nextFrame
  rcases hnext : a.nextFrame s.completed with ⟨a', violation | _ | frameBytes⟩
  · rw [hnext] at hyields
    simpa only [readPass, hnext] using hyields.symm
  · rw [hnext] at hyields
    simpa only [readPass, hnext] using hyields.symm
  · rw [hnext] at hyields
    obtain ⟨q, hq, hrun⟩ := hyields
    rw [readPass_frame hnext]
    have hscan := hq.scanned
    rcases htake : takeFrame C budgets s frameBytes with ⟨s', _ | violation⟩
    · simp only [Scanner.endLine, frames, htake] at hscan
      exact ⟨q, { hq with scanned := hscan }, hrun⟩
    · simp only [Scanner.endLine, frames, htake] at hscan
      rw [Scanner.scan_refused] at hscan
      have hverdict := Tracks.run_refused cut hscan
      rw [hrun, hq.received] at hverdict
      exact hverdict.symm

/-- **The refinement.** The reader of the source computes the loop over positions. -/
theorem readProtocolStream_eq (C : Codec) (requestIdSha256 : Str) (budgets : ExecutorSelfBudgets)
    (cut : ℕ → ℕ) (stream : Bytes) :
    readProtocolStream C { unread := stream, cut := cut } requestIdSha256 budgets =
      (arrivals C requestIdSha256 budgets cut stream).run {} := by
  refine Loop.run_rule _ (I := fun x : FrameAcquisition × StreamState => ∃ p,
    Tracks C requestIdSha256 budgets cut stream x.1 (.reading x.2 []) p ∧
      (arrivals C requestIdSha256 budgets cut stream).run p =
        (arrivals C requestIdSha256 budgets cut stream).run {})
    (Q := fun r => r = (arrivals C requestIdSha256 budgets cut stream).run {}) ?_ ?_ ?_
  · refine ⟨{}, ⟨rfl, rfl, rfl, rfl, rfl, Nat.zero_le _, fun _ => rfl, nofun, ?_⟩, rfl⟩
    rfl
  · rintro ⟨a, s⟩ r ⟨p, h, hrun⟩ hleave
    have hpass := readPass_tracks h
    rw [show readPass C budgets.jsonDepth.limit (a, s) = .inl r from hleave] at hpass
    exact hpass.trans hrun
  · rintro ⟨a, s⟩ ⟨a', s'⟩ ⟨p, h, hrun⟩ hgo
    have hpass := readPass_tracks h
    rw [show readPass C budgets.jsonDepth.limit (a, s) = .inr (a', s') from hgo] at hpass
    obtain ⟨q, hq, hrun'⟩ := hpass
    exact ⟨q, hq, hrun'.trans hrun⟩

end Refinement

end DrExec.Runtime.Arrival
