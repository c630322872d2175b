import DrExec.Runtime.Grammar

/-! # What depends on how a stream is cut

Within the total budget the outputs and the failure code are those of the bytes. Beyond it they can
depend on the cuts: a read that crosses the budget is refused before the frames it brings are taken.
`Exposed` frames are those that such a read can bring; the result is the same for all cuts exactly
if taking an exposed frame would not show in it (`sameForAllCuts_iff`). -/

namespace DrExec.Runtime.Chunking

open DrExec.Lib DrExec.Lib.Lines DrExec.Runtime.Wire DrExec.Runtime.Protocol
open DrExec.Runtime.Arrival

variable (C : Codec) (digest : Str) (budgets : ExecutorSelfBudgets)

/-- The outputs and the failure code of a result. -/
def report (r : ProtocolStreamResult) : List Json × Option ProtocolFailureCode :=
  (r.outputs, r.failure.map ProtocolViolation.code)

/-- Any two ways of cutting the stream give the same outputs and the same failure code, or none. -/
def SameForAllCuts (stream : Bytes) : Prop :=
  ∀ cut cut' : ℕ → ℕ,
    report (readProtocolStream C { unread := stream, cut := cut } digest budgets) =
      report (readProtocolStream C { unread := stream, cut := cut' } digest budgets)

/-- Taking the frame shows: it adds an output, or it is refused other than as oversized. -/
def Tells (s : StreamState) (line : Bytes) : Prop :=
  match takeFrame C budgets s line with
  | (s', none) => s'.outputs ≠ s.outputs
  | (_, some violation) => violation.code ≠ .oversizedFrame

/-- The frame `line`, behind the accepted frames `before` that leave the state `s`, ends within the
total budget `limit`, and one read from just before its end may reach beyond it: the chunk size and
the frame budget leave room. -/
structure Exposed (stream : Bytes) (limit : ℕ) (before : List Bytes) (line : Bytes)
    (s : StreamState) : Prop where
  within : ∃ rest, stream.take limit =
    before.flatMap (· ++ [protocolFrameTerminator]) ++ line ++ protocolFrameTerminator :: rest
  fits : ∀ l ∈ before ++ [line], (frames C budgets).FitsLine l
  accepted : (frames C budgets).acceptAll (initial digest budgets) before = (s, none)
  chunk : limit + 1 ≤
    (before.flatMap (· ++ [protocolFrameTerminator])).length + line.length + chunkBytes
  frame : ¬ Exceeds budgets.protocolFrameBytes.limit
    (limit - (before.flatMap (· ++ [protocolFrameTerminator])).length)

/-- No exposed frame of a stream beyond its total budget tells. -/
def Settled (stream : Bytes) : Prop :=
  ∀ limit, budgets.protocolTotalBytes.limit = some limit → limit < stream.length →
    ∀ before line s, Exposed C digest budgets stream limit before line s → ¬ Tells C budgets s line

variable {C digest budgets}

/-! ### Outputs along a scan -/

/-- A frame that is refused leaves the outputs. -/
theorem takeFrame_refused {s s' : StreamState} {line : Bytes} {violation : ProtocolViolation}
    (h : takeFrame C budgets s line = (s', some violation)) : s'.outputs = s.outputs := by
  unfold takeFrame at h
  split_ifs at h
  · cases h
    rfl
  · split at h
    · cases h
      rfl
    · exact StreamState.outputs_of_refused h

/-- A frame only adds outputs. -/
theorem takeFrame_outputs {s s' : StreamState} {line : Bytes} {violation : Option ProtocolViolation}
    (h : takeFrame C budgets s line = (s', violation)) : s.outputs <+: s'.outputs := by
  cases violation with
  | some violation =>
    exact (takeFrame_refused h).symm ▸ List.prefix_rfl
  | none =>
    unfold takeFrame at h
    split_ifs at h
    · cases h
    split at h
    · cases h
    · rename_i frame _
      cases frame with
      | prelude d =>
        obtain ⟨-, -, rfl⟩ := StreamState.accept_prelude_eq.mp h
        exact List.prefix_rfl
      | output sequence document =>
        obtain ⟨-, -, -, -, rfl⟩ := StreamState.accept_output_eq.mp h
        exact List.prefix_append _ _
      | complete count =>
        obtain ⟨-, -, -, rfl⟩ := StreamState.accept_complete_eq.mp h
        exact List.prefix_rfl

/-- The outputs at a point of a scan. -/
def scanOutputs : Scan UInt8 StreamState ProtocolViolation → List Json
  | .reading s _ => s.outputs
  | .refused s _ => s.outputs

theorem scanOutputs_endLine (s : StreamState) (line : Bytes) :
    s.outputs <+: scanOutputs ((frames C budgets).endLine s line) := by
  unfold Scanner.endLine
  split <;> rename_i h
  · exact takeFrame_outputs (show takeFrame C budgets s line = _ from h)
  · exact takeFrame_outputs (show takeFrame C budgets s line = _ from h)

theorem scanOutputs_feed (c : Scan UInt8 StreamState ProtocolViolation) (b : UInt8) :
    scanOutputs c <+: scanOutputs ((frames C budgets).feed c b) := by
  cases c with
  | refused s violation => exact List.prefix_rfl
  | reading s line =>
    rw [Scanner.feed]
    split_ifs
    · exact scanOutputs_endLine s line
    · exact List.prefix_rfl
    · exact List.prefix_rfl

theorem scanOutputs_scan (c : Scan UInt8 StreamState ProtocolViolation) (bytes : Bytes) :
    scanOutputs c <+: scanOutputs ((frames C budgets).scan c bytes) := by
  induction bytes generalizing c with
  | nil => exact List.prefix_rfl
  | cons b bytes ih => exact (scanOutputs_feed c b).trans (ih _)

/-! ### Points of a stream -/

variable {stream : Bytes}

theorem arrived_succ {n : ℕ} (h : n < stream.length) :
    arrived C digest budgets stream (n + 1) =
      (frames C budgets).feed (arrived C digest budgets stream n) stream[n] := by
  have htake : (stream.drop n).take 1 = [stream[n]] := by
    rw [List.drop_eq_getElem_cons h]
    rfl
  rw [arrived_add, htake]
  rfl

/-- Later points come to at least the outputs of earlier ones. -/
theorem scanOutputs_mono {n m : ℕ} (h : n ≤ m) :
    scanOutputs (arrived C digest budgets stream n) <+:
      scanOutputs (arrived C digest budgets stream m) := by
  obtain ⟨k, rfl⟩ := Nat.exists_eq_add_of_le h
  rw [arrived_add]
  exact scanOutputs_scan _ _

/-- A refusal is kept at later points. -/
theorem arrived_refused {n m : ℕ} (h : n ≤ m) {s : StreamState} {violation : ProtocolViolation}
    (hn : arrived C digest budgets stream n = .refused s violation) :
    arrived C digest budgets stream m = .refused s violation := by
  obtain ⟨k, rfl⟩ := Nat.exists_eq_add_of_le h
  rw [arrived_add, hn, Scanner.scan_refused]

/-- Before a point that is reading there is no refusal. -/
theorem arrived_reading {n m : ℕ} (h : n ≤ m) {s : StreamState} {line : Bytes}
    (hm : arrived C digest budgets stream m = .reading s line) :
    ∃ t l, arrived C digest budgets stream n = .reading t l := by
  rcases hn : arrived C digest budgets stream n with ⟨t, l⟩ | ⟨t, violation⟩
  · exact ⟨t, l, rfl⟩
  · cases (arrived_refused h hn).symm.trans hm

/-- The frames and the unfinished line of a point that is reading. -/
theorem arrived_lines {n : ℕ} (hn : n ≤ stream.length) {s : StreamState} {line : Bytes}
    (h : arrived C digest budgets stream n = .reading s line) :
    ∃ before, stream.take n = before.flatMap (· ++ [protocolFrameTerminator]) ++ line ∧
      (before.flatMap (· ++ [protocolFrameTerminator])).length + line.length = n ∧
      (∀ l ∈ before ++ [line], (frames C budgets).FitsLine l) ∧
      (frames C budgets).acceptAll (initial digest budgets) before = (s, none) := by
  obtain ⟨before, htake, hbefore, hline, hacc⟩ := (Scanner.scan_eq_reading_iff _).mp h
  refine ⟨before, htake, ?_, ?_, hacc⟩
  · have hlen := congrArg List.length htake
    rw [List.length_take, List.length_append] at hlen
    show (before.flatMap (· ++ [(frames C budgets).terminator])).length + line.length = n
    omega
  · intro l hl
    rcases List.mem_append.mp hl with hl | hl
    · exact hbefore l hl
    · rwa [List.mem_singleton.mp hl]

/-! ### Every run reports the same -/

/-- What the reader reports of the bytes that have arrived, if the total budget stops it there. -/
def capped : Scan UInt8 StreamState ProtocolViolation → List Json × Option ProtocolFailureCode
  | .reading s _ => (s.outputs, some .oversizedFrame)
  | .refused s violation => (s.outputs, some violation.code)

/-- What the reader reports at the end of a stream. -/
def verdict : Scan UInt8 StreamState ProtocolViolation → List Json × Option ProtocolFailureCode
  | .reading s line => (s.outputs, (ending s line).map ProtocolViolation.code)
  | .refused s violation => (s.outputs, some violation.code)

/-- **Within the total budget** the report is that of the bytes. -/
theorem report_within {cut : ℕ → ℕ}
    (htotal : ¬ Exceeds budgets.protocolTotalBytes.limit stream.length) :
    report (readProtocolStream C { unread := stream, cut := cut } digest budgets) =
      verdict (arrived C digest budgets stream stream.length) := by
  rw [readProtocolStream_eq]
  have hends := ends C digest budgets cut stream
  generalize (arrivals C digest budgets cut stream).run {} = r at hends ⊢
  cases hends with
  | refused n s violation hn _ hrefused =>
    rw [arrived_refused hn hrefused]
    rfl
  | ended s line _ hended =>
    rw [hended]
    rfl
  | total p s line hlt _ _ hexceeds =>
    refine absurd (hexceeds.mono ?_) htotal
    simp only [readLength]
    omega

/-- A read from a point that is reading, if it crosses the total budget. -/
theorem crossing {cut : ℕ → ℕ} {limit : ℕ} {p : Position} {s : StreamState} {line : Bytes}
    (hlimit : budgets.protocolTotalBytes.limit = some limit) (hle : p.received ≤ limit)
    (hlt : p.received < stream.length)
    (hread : arrived C digest budgets stream p.received = .reading s line)
    (hcross : limit < p.received + readLength budgets cut stream p line.length) :
    limit + 1 ≤ p.received + chunkBytes ∧
      ¬ Exceeds budgets.protocolFrameBytes.limit (limit - (p.received - line.length)) := by
  obtain ⟨before, -, hlen, hfits, -⟩ := arrived_lines hlt.le hread
  have hline : ¬ Exceeds budgets.protocolFrameBytes.limit line.length :=
    (hfits line (by simp)).short
  have hwithin : ¬ Exceeds budgets.protocolTotalBytes.limit p.received := by
    rw [hlimit, exceeds_some]
    omega
  have hroom := (le_roomFor_iff hline hwithin).mp le_rfl
  obtain ⟨hchunk, hframe, -⟩ := hroom
  have hsize : readLength budgets cut stream p line.length ≤
      roomFor budgets.protocolFrameBytes.limit budgets.protocolTotalBytes.limit line.length
        p.received := by
    have hpos := (le_roomFor_iff (n := 1) hline hwithin).mpr ⟨by decide, ?_, ?_⟩
    · simp only [readLength]
      omega
    · intro frame hframe
      rw [hframe, exceeds_some] at hline
      omega
    · intro total htotal
      rw [hlimit] at htotal
      cases htotal
      omega
  refine ⟨by omega, ?_⟩
  rcases hb : budgets.protocolFrameBytes.limit with _ | frame
  · simp
  · have := hframe frame hb
    rw [exceeds_some]
    omega

/-- A point at which the reader would report the outputs `outputs` and an oversized frame, with the
unfinished line, if any, within reach of a read that crosses the budget. -/
def Unchanged (budgets : ExecutorSelfBudgets) (limit n : ℕ) (outputs : List Json) :
    Scan UInt8 StreamState ProtocolViolation → Prop
  | .reading s line => s.outputs = outputs ∧
      ¬ Exceeds budgets.protocolFrameBytes.limit (limit - (n - line.length))
  | .refused s violation => s.outputs = outputs ∧ violation.code = .oversizedFrame

theorem take_split {limit m : ℕ} (hm : m < stream.length) (hlimit : m < limit) :
    stream.take limit = stream.take m ++ stream[m] :: (stream.take limit).drop (m + 1) := by
  have hlen : m < (stream.take limit).length := by
    rw [List.length_take]
    omega
  have hget : (stream.take limit)[m] = stream[m] := List.getElem_take
  conv_lhs => rw [← List.take_append_drop m (stream.take limit)]
  rw [List.take_take, min_eq_left (by omega), List.drop_eq_getElem_cons hlen, hget]

/-- Up to the total budget nothing that tells is taken, from any point from which one read may
cross it. -/
theorem unchanged (hsettled : Settled C digest budgets stream) {limit n m : ℕ}
    (hlimit : budgets.protocolTotalBytes.limit = some limit) (hlong : limit < stream.length)
    (hchunk : limit + 1 ≤ n + chunkBytes) {outputs : List Json} (hnm : n ≤ m) (hm : m ≤ limit)
    (hn : Unchanged budgets limit n outputs (arrived C digest budgets stream n)) :
    Unchanged budgets limit m outputs (arrived C digest budgets stream m) := by
  induction m, hnm using Nat.le_induction with
  | base => exact hn
  | succ m hnm ih =>
    have hm' := ih (by omega)
    rw [arrived_succ (show m < stream.length by omega)]
    rcases hc : arrived C digest budgets stream m with ⟨s, line⟩ | ⟨s, violation⟩
    · rw [hc] at hm'
      obtain ⟨houtputs, hreach⟩ := hm'
      rw [Scanner.feed]
      split_ifs with hterminator htoolong
      · -- the frame ends here: it is exposed, so it does not tell
        obtain ⟨before, htake, hlen, hfits, hacc⟩ := arrived_lines (by omega) hc
        have hexposed : Exposed C digest budgets stream limit before line s := by
          refine ⟨⟨(stream.take limit).drop (m + 1), ?_⟩, hfits, hacc, by omega, ?_⟩
          · refine (take_split (by omega) (show m < limit by omega)).trans ?_
            rw [htake, hterminator]
            rfl
          · rwa [show (before.flatMap (· ++ [protocolFrameTerminator])).length = m - line.length by
              omega]
        have hquiet := hsettled limit hlimit hlong before line s hexposed
        unfold Tells at hquiet
        rcases htaken : takeFrame C budgets s line with ⟨s', _ | violation⟩
        · rw [htaken] at hquiet
          simp only [Scanner.endLine, frames, htaken]
          refine ⟨(not_not.mp hquiet).trans houtputs, fun h => hreach (h.mono ?_)⟩
          rw [List.length_nil]
          omega
        · rw [htaken] at hquiet
          simp only [Scanner.endLine, frames, htaken]
          exact ⟨(takeFrame_refused htaken).trans houtputs, not_not.mp hquiet⟩
      · exact ⟨houtputs, rfl⟩
      · refine ⟨houtputs, ?_⟩
        rwa [List.length_append, List.length_singleton, Nat.add_sub_add_right]
    · rw [hc] at hm'
      exact hm'

/-- **Beyond the total budget**, where no exposed frame tells, the report is that of the bytes up
to the budget. -/
theorem report_beyond {cut : ℕ → ℕ} (hsettled : Settled C digest budgets stream) {limit : ℕ}
    (hlimit : budgets.protocolTotalBytes.limit = some limit) (hlong : limit < stream.length) :
    report (readProtocolStream C { unread := stream, cut := cut } digest budgets) =
      capped (arrived C digest budgets stream limit) := by
  rw [readProtocolStream_eq]
  have hends := ends C digest budgets cut stream
  generalize (arrivals C digest budgets cut stream).run {} = r at hends ⊢
  cases hends with
  | refused n s violation _ hwithin hrefused =>
    rw [hlimit, exceeds_some] at hwithin
    rw [arrived_refused (by omega) hrefused]
    rfl
  | ended s line hwithin _ =>
    rw [hlimit, exceeds_some] at hwithin
    exact absurd hlong hwithin
  | total p s line hlt hwithin hread hexceeds =>
    rw [hlimit, exceeds_some] at hwithin hexceeds
    obtain ⟨hchunk, hreach⟩ := crossing hlimit (by omega) hlt hread hexceeds
    have hstart : Unchanged budgets limit p.received s.outputs
        (arrived C digest budgets stream p.received) := by
      rw [hread]
      exact ⟨rfl, hreach⟩
    have hend := unchanged hsettled hlimit hlong hchunk (show p.received ≤ limit by omega) le_rfl
      hstart
    rcases hc : arrived C digest budgets stream limit with ⟨t, l⟩ | ⟨t, violation⟩
    · rw [hc] at hend
      exact congrArg (·, some ProtocolFailureCode.oversizedFrame) hend.1.symm
    · rw [hc] at hend
      simp only [report, capped, hend.1, hend.2]
      rfl

/-! ### Two runs that report differently -/

/-- One byte at a time up to a point that is reading. -/
theorem run_bytewise {cut : ℕ → ℕ} {n : ℕ} (hcut : ∀ i < n, cut i = 1)
    (hn : n < stream.length) (hwithin : ¬ Exceeds budgets.protocolTotalBytes.limit n)
    {s : StreamState} {line : Bytes}
    (hread : arrived C digest budgets stream n = .reading s line) :
    (arrivals C digest budgets cut stream).run {} =
      (arrivals C digest budgets cut stream).run ⟨n, n⟩ := by
  have key : ∀ i ≤ n, (arrivals C digest budgets cut stream).run {} =
      (arrivals C digest budgets cut stream).run ⟨i, i⟩ := by
    intro i
    induction i with
    | zero => exact fun _ => rfl
    | succ i ih =>
      intro hi
      obtain ⟨t, l, hil⟩ := arrived_reading (show i ≤ n by omega) hread
      have hone : readLength budgets cut stream ⟨i, i⟩ l.length = 1 := by
        simp only [readLength, hcut i (by omega)]
        omega
      have hmore : ¬ Exceeds budgets.protocolTotalBytes.limit (i + 1) := fun h =>
        hwithin (h.mono hi)
      rw [ih (by omega)]
      refine Loop.run_of_goes _ ?_
      simp only [arrivals, arrivalPass, hil, hone, if_neg hmore,
        if_neg (show ¬ stream.length ≤ i by omega)]
  exact key n le_rfl

/-- The read that crosses the budget from just before the end of an exposed frame. -/
theorem run_crossing {cut : ℕ → ℕ} {limit n : ℕ} {s : StreamState} {line : Bytes}
    (hlimit : budgets.protocolTotalBytes.limit = some limit) (hlong : limit < stream.length)
    (hn : n ≤ limit) (hcut : chunkBytes ≤ cut n)
    (hread : arrived C digest budgets stream n = .reading s line)
    (hchunk : limit + 1 ≤ n + chunkBytes)
    (hreach : ¬ Exceeds budgets.protocolFrameBytes.limit (limit - (n - line.length))) :
    report ((arrivals C digest budgets cut stream).run ⟨n, n⟩) =
      (s.outputs, some .oversizedFrame) := by
  obtain ⟨before, -, hlen, hfits, -⟩ := arrived_lines (by omega) hread
  have hline : ¬ Exceeds budgets.protocolFrameBytes.limit line.length :=
    (hfits line (by simp)).short
  have hwithin : ¬ Exceeds budgets.protocolTotalBytes.limit n := by
    rw [hlimit, exceeds_some]
    omega
  have hroom : limit + 1 - n ≤ roomFor budgets.protocolFrameBytes.limit
      budgets.protocolTotalBytes.limit line.length n := by
    refine (le_roomFor_iff hline hwithin).mpr ⟨by omega, fun frame hframe => ?_, fun total htotal => ?_⟩
    · rw [hframe, exceeds_some] at hreach
      omega
    · rw [hlimit] at htotal
      cases htotal
      omega
  have hcross : Exceeds budgets.protocolTotalBytes.limit
      (n + readLength budgets cut stream ⟨n, n⟩ line.length) := by
    rw [hlimit, exceeds_some]
    simp only [readLength]
    omega
  rw [Loop.run_of_leaves _ (r := ⟨s.outputs, n + readLength budgets cut stream ⟨n, n⟩ line.length,
    some totalBudgetExceeded⟩)]
  · rfl
  · simp only [arrivals, arrivalPass, hread, if_pos hcross,
      if_neg (show ¬ stream.length ≤ n by omega)]

theorem take_of_prefix {limit : ℕ} {before after : Bytes}
    (h : stream.take limit = before ++ after) : stream.take before.length = before := by
  have hlen := congrArg List.length h
  rw [List.length_take, List.length_append] at hlen
  rw [← min_eq_left (show before.length ≤ limit by omega), ← List.take_take, h, List.take_left]

/-- Where an exposed frame ends. -/
theorem Exposed.point {limit : ℕ} {before : List Bytes} {line : Bytes} {s : StreamState}
    (h : Exposed C digest budgets stream limit before line s) :
    ∃ n, n < limit ∧ n < stream.length ∧ arrived C digest budgets stream n = .reading s line ∧
      arrived C digest budgets stream (n + 1) = (frames C budgets).endLine s line ∧
      limit + 1 ≤ n + chunkBytes ∧
      ¬ Exceeds budgets.protocolFrameBytes.limit (limit - (n - line.length)) := by
  obtain ⟨⟨rest, htake⟩, hfits, hacc, hchunk, hreach⟩ := h
  set start := before.flatMap (· ++ [protocolFrameTerminator]) with hstart
  have hlen := congrArg List.length htake
  simp only [List.length_take, List.length_append, List.length_cons] at hlen
  have hpoint : stream.take (start.length + line.length) = start ++ line := by
    rw [← List.length_append]
    exact take_of_prefix htake
  have hpoint' : stream.take (start.length + line.length + 1) =
      start ++ line ++ [protocolFrameTerminator] := by
    rw [← List.length_append, ← List.length_singleton, ← List.length_append]
    have hrest : stream.take limit = start ++ line ++ [protocolFrameTerminator] ++ rest :=
      htake.trans (List.append_assoc (start ++ line) [protocolFrameTerminator] rest).symm
    exact take_of_prefix hrest
  refine ⟨start.length + line.length, by omega, by omega, ?_, ?_, hchunk, ?_⟩
  · refine (Scanner.scan_eq_reading_iff _).mpr ⟨before, hpoint, fun l hl => hfits l (by simp [hl]),
      hfits line (by simp), hacc⟩
  · rw [arrived, hpoint', List.append_assoc]
    exact ((frames C budgets).scan_lines (fun l hl => hfits l (by simp [hl])) hacc _).trans
      ((frames C budgets).scan_line (hfits line (by simp)) [])
  · rwa [Nat.add_sub_cancel]

/-- A stream with an exposed frame that tells is not reported the same for all cuts. -/
theorem not_same {limit : ℕ} {before : List Bytes} {line : Bytes} {s : StreamState}
    (hlimit : budgets.protocolTotalBytes.limit = some limit) (hlong : limit < stream.length)
    (hexposed : Exposed C digest budgets stream limit before line s) (htells : Tells C budgets s line) :
    ¬ SameForAllCuts C digest budgets stream := by
  obtain ⟨n, hn, hlt, hread, hnext, hchunk, hreach⟩ := hexposed.point
  have hwithin : ¬ Exceeds budgets.protocolTotalBytes.limit n := by
    rw [hlimit, exceeds_some]
    omega
  intro hsame
  -- one run crosses the budget before it has seen the frame's end, the other reads on by bytes
  have hcross := hsame (fun i => if i < n then 1 else chunkBytes) fun _ => 1
  rw [readProtocolStream_eq, readProtocolStream_eq,
    run_bytewise (fun i hi => if_pos hi) hlt hwithin hread,
    run_crossing hlimit hlong hn.le (by simp) hread hchunk hreach] at hcross
  have hends := ends C digest budgets (fun _ => 1) stream
  generalize (arrivals C digest budgets (fun _ => 1) stream).run {} = r at hends hcross
  have hgrow : ∀ m, n + 1 ≤ m → scanOutputs (arrived C digest budgets stream m) = s.outputs →
      ∃ s' violation, arrived C digest budgets stream m = .refused s' violation ∧
        violation.code ≠ .oversizedFrame := by
    intro m hm houtputs
    have hmono : scanOutputs (arrived C digest budgets stream (n + 1)) <+:
        scanOutputs (arrived C digest budgets stream m) := scanOutputs_mono hm
    rw [houtputs, hnext] at hmono
    unfold Tells at htells
    rcases htake : takeFrame C budgets s line with ⟨s', _ | violation⟩
    · rw [htake] at htells
      simp only [Scanner.endLine, frames, htake] at hmono
      refine absurd ?_ htells
      exact (hmono.eq_of_length_le (takeFrame_outputs htake).length_le)
    · rw [htake] at htells
      have hrefused : arrived C digest budgets stream (n + 1) = .refused s' violation := by
        rw [hnext]
        simp only [Scanner.endLine, frames, htake]
      exact ⟨s', violation, arrived_refused hm hrefused, htells⟩
  cases hends with
  | refused m t violation _ _ hrefused =>
    by_cases hm : m ≤ n
    · cases (arrived_refused hm hrefused).symm.trans hread
    · simp only [report, Option.map_some, Prod.mk.injEq, Option.some.injEq] at hcross
      obtain ⟨t', violation', ht', hcode⟩ := hgrow m (by omega) (by
        rw [hrefused]
        exact hcross.1.symm)
      cases hrefused.symm.trans ht'
      exact hcode hcross.2.symm
  | ended t l htotal _ =>
    rw [hlimit, exceeds_some] at htotal
    omega
  | total p t l _ _ hpread hexceeds =>
    rw [hlimit, exceeds_some] at hexceeds
    have hone : readLength budgets (fun _ => 1) stream p l.length ≤ 1 := by
      simp only [readLength]
      omega
    simp only [report, Option.map_some, Prod.mk.injEq] at hcross
    obtain ⟨t', violation', ht', -⟩ := hgrow p.received (by omega) (by
      rw [hpread]
      exact hcross.1.symm)
    cases hpread.symm.trans ht'

/-- **Chunking independence.** The outputs and the failure code are the same for all cuts exactly
if the stream is within its total budget or taking an exposed frame would not show. -/
theorem sameForAllCuts_iff (C : Codec) (digest : Str) (budgets : ExecutorSelfBudgets)
    (stream : Bytes) :
    SameForAllCuts C digest budgets stream ↔ Settled C digest budgets stream := by
  constructor
  · intro hsame limit hlimit hlong before line s hexposed htells
    exact not_same hlimit hlong hexposed htells hsame
  · intro hsettled cut cut'
    by_cases htotal : Exceeds budgets.protocolTotalBytes.limit stream.length
    · rcases hlimit : budgets.protocolTotalBytes.limit with _ | limit
      · rw [hlimit] at htotal
        exact htotal.elim
      · rw [hlimit, exceeds_some] at htotal
        rw [report_beyond hsettled hlimit htotal, report_beyond hsettled hlimit htotal]
    · rw [report_within htotal, report_within htotal]

/-- The stream of one output in 269 bytes, with a total budget of 250: the output is returned if the
first read ends with it, and lost if that read crosses the budget. -/
theorem oneOutput_depends_on_cut :
    ¬ SameForAllCuts plainCodec (List.replicate 64 97) { protocolTotalBytes := .finite 250 }
      (Grammar.frameStream plainCodec (Grammar.protocolFrames (List.replicate 64 97)
        [.obj [(text "payload", .arr [.int 7]), (text "schema", .str (text "s")),
          (text "schema_version", .int 1)]])) := by
  intro hsame
  have houtputs := congrArg (fun report => report.1.length) (hsame (fun _ => 220) fun _ => 300)
  revert houtputs
  decide +kernel

end DrExec.Runtime.Chunking
