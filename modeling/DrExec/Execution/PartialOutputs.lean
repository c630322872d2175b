import DrExec.Execution.Completion
import DrExec.Execution.Supervision
import DrExec.Runtime.Chunking

/-! # What a failed stream has given

The outputs of `read_protocol_stream` when any frame and any byte of the stream may be wrong. A
point of the scan that has some outputs has the frames before them (`opens_of_acceptAll`), so a
result has them too, and none of a stream that does not begin with the prelude of the request; the
outcome that is built of it counts them right (`partialOutputs_sound`). -/

namespace DrExec.Execution.PartialOutputs

open DrExec.Lib DrExec.Lib.Lines DrExec.Runtime.Wire DrExec.Runtime.Protocol
open DrExec.Runtime.Arrival DrExec.Runtime.Grammar DrExec.Runtime.Chunking
open DrExec.Recording.Models DrExec.Execution.Spawn DrExec.Execution.Supervision

variable {C : Codec} {digest : Str} {budgets : ExecutorSelfBudgets} {stream : Bytes}

/-! ### The frames before the outputs -/

/-- The stream begins with the prelude of the request and the output frames of `documents`, each
complete and within the budgets. -/
structure Opens (C : Codec) (digest : Str) (budgets : ExecutorSelfBudgets) (documents : List Json)
    (stream : Bytes) : Prop where
  leads : frameStream C (.prelude digest :: outputFrames documents) <+: stream
  sound : ∀ frame ∈ .prelude digest :: outputFrames documents, Sound C budgets frame
  count : ¬ Exceeds budgets.protocolOutputCount.limit documents.length

/-- Without its outputs a stream still begins with the prelude. -/
theorem Opens.nil {documents : List Json} (h : Opens C digest budgets documents stream) :
    Opens C digest budgets [] stream := by
  have hprelude : frameStream C (.prelude digest :: outputFrames []) <+:
      frameStream C (.prelude digest :: outputFrames documents) := by
    simp only [frameStream, outputFrames, List.mapIdx_nil, List.map_cons, List.map_nil,
      List.flatMap_cons, List.flatMap_nil, List.append_nil]
    exact List.prefix_append _ _
  refine ⟨hprelude.trans h.leads, fun frame hframe => h.sound frame ?_, not_exceeds_zero _⟩
  rw [List.mem_singleton.mp hframe]
  exact List.mem_cons_self

theorem sound_of_fits {frame : ProtocolFrame} (hfits : Fits C budgets frame)
    (hline : (frames C budgets).FitsLine (C.frameBytes frame)) : Sound C budgets frame := by
  obtain ⟨hceiling, hdepth⟩ := le_effectiveDepth.mp hfits.2
  exact ⟨hfits.1, hceiling, hdepth, hline.short⟩

/-- **The frames that were accepted**, if they gave an output. -/
theorem opens_of_acceptAll (hC : C.Recogniser) {before : List Bytes} {s : StreamState}
    (hacc : (frames C budgets).acceptAll (initial digest budgets) before = (s, none))
    (hlines : ∀ line ∈ before, (frames C budgets).FitsLine line)
    (hbefore : before.flatMap (· ++ [protocolFrameTerminator]) <+: stream) (hne : s.outputs ≠ []) :
    Opens C digest budgets s.outputs stream := by
  obtain ⟨sofar, htaken, rfl, hfits⟩ := (acceptAll_iff hC).mp hacc
  have hsound : ∀ frame ∈ sofar, Sound C budgets frame := fun frame hframe =>
    sound_of_fits (hfits frame hframe) (hlines _ (List.mem_map_of_mem hframe))
  cases htaken with
  | nothing => exact absurd rfl hne
  | opened documents hcount => exact ⟨hbefore, hsound, hcount⟩
  | closed documents hcount =>
    have hclosed : frameStream C (.prelude digest :: outputFrames documents) <+:
        frameStream C (protocolFrames digest documents) := by
      simp only [frameStream, protocolFrames, List.map_append, List.flatMap_append]
      exact List.prefix_append _ _
    exact ⟨hclosed.trans hbefore, fun frame hframe => hsound frame (List.mem_append_left _ hframe),
      hcount⟩

/-- A symbol at which the scan refuses adds no output. -/
theorem outputs_feed_refused {c : Scan UInt8 StreamState ProtocolViolation} {b : UInt8}
    {s : StreamState} {violation : ProtocolViolation}
    (h : (frames C budgets).feed c b = .refused s violation) : s.outputs = scanOutputs c := by
  cases c with
  | refused t e =>
    cases h
    rfl
  | reading t line =>
    rw [Scanner.feed] at h
    split_ifs at h
    · unfold Scanner.endLine at h
      split at h
      · cases h
      · rename_i htake
        cases h
        exact takeFrame_refused (show takeFrame C budgets t line = _ from htake)
    · cases h
      rfl

/-- A refusal has the outputs of a point before it that is still reading. -/
theorem reading_before {n : ℕ} (hn : n ≤ stream.length) :
    ∃ m ≤ n, ∃ s line, arrived C digest budgets stream m = .reading s line ∧
      s.outputs = scanOutputs (arrived C digest budgets stream n) := by
  induction n with
  | zero => exact ⟨0, le_rfl, _, _, arrived_zero C digest budgets stream, rfl⟩
  | succ n ih =>
    obtain ⟨m, hm, s, line, hreading, houtputs⟩ := ih (by omega)
    have hnext := @arrived_succ C digest budgets stream n hn
    rcases hat : arrived C digest budgets stream (n + 1) with ⟨t, rest⟩ | ⟨t, violation⟩
    · exact ⟨n + 1, le_rfl, t, rest, hat, rfl⟩
    · refine ⟨m, by omega, s, line, hreading, houtputs.trans ?_⟩
      exact (outputs_feed_refused (hnext.symm.trans hat)).symm

/-- **Every point of a scan** has no outputs, or the frames before them. -/
theorem opens_of_arrived (hC : C.Recogniser) {n : ℕ} (hn : n ≤ stream.length)
    (hne : scanOutputs (arrived C digest budgets stream n) ≠ []) :
    Opens C digest budgets (scanOutputs (arrived C digest budgets stream n)) stream := by
  obtain ⟨m, hm, s, line, hreading, houtputs⟩ := @reading_before C digest budgets stream n hn
  obtain ⟨before, htake, -, hlines, hacc⟩ := arrived_lines (hm.trans hn) hreading
  rw [← houtputs] at hne ⊢
  refine opens_of_acceptAll hC hacc (fun l hl => hlines l (List.mem_append_left _ hl)) ?_ hne
  exact (htake ▸ List.prefix_append _ line).trans (List.take_prefix m stream)

/-- The scan of frames that open the stream. -/
theorem arrived_opens (hC : C.Recogniser) {documents : List Json}
    (h : Opens C digest budgets documents stream) :
    arrived C digest budgets stream
        (frameStream C (.prelude digest :: outputFrames documents)).length =
      .reading (opened digest budgets documents) [] := by
  have hfits : ∀ frame ∈ .prelude digest :: outputFrames documents, Fits C budgets frame :=
    fun frame hframe => ⟨(h.sound frame hframe).admits,
      le_effectiveDepth.mpr ⟨(h.sound frame hframe).ceiling, (h.sound frame hframe).depth⟩⟩
  rw [arrived, ← List.prefix_iff_eq_take.mp h.leads]
  refine (Scanner.scan_eq_reading_iff _).mpr ⟨_, (List.append_nil _).symm, ?_,
    Scanner.fitsLine_nil _, acceptAll_opened hC hfits h.count⟩
  intro line hline
  obtain ⟨frame, hframe, rfl⟩ := List.mem_map.mp hline
  exact ⟨hC.one_line _, (h.sound frame hframe).bytes⟩

/-- Frames that open the stream are among the outputs of every later point, and of every earlier
refusal none is left out. -/
theorem prefix_of_opens (hC : C.Recogniser) {documents : List Json}
    (h : Opens C digest budgets documents stream) {n : ℕ}
    (hn : n = stream.length ∨ ∃ s violation,
      arrived C digest budgets stream n = .refused s violation) :
    documents <+: scanOutputs (arrived C digest budgets stream n) := by
  have hopened := arrived_opens hC h
  have hle := h.leads.length_le
  generalize (frameStream C (.prelude digest :: outputFrames documents)).length = m at hopened hle
  have hmono : m ≤ n → documents <+: scanOutputs (arrived C digest budgets stream n) := by
    intro hmn
    have hpre := @scanOutputs_mono C digest budgets stream m n hmn
    rw [hopened] at hpre
    exact hpre
  rcases hn with rfl | ⟨s, violation, hrefused⟩
  · exact hmono hle
  · rcases Nat.le_total m n with hmn | hnm
    · exact hmono hmn
    · cases hopened.symm.trans (arrived_refused hnm hrefused)

/-! ### The outputs of a result -/

/-- The outputs of a result are those of a point of the scan. -/
theorem outputs_of_ends {cut : ℕ → ℕ} {r : ProtocolStreamResult}
    (h : Ends C digest budgets cut stream r) :
    ∃ n ≤ stream.length, r.outputs = scanOutputs (arrived C digest budgets stream n) := by
  cases h with
  | refused n s violation hn _ hrefused => exact ⟨n, hn, by rw [hrefused]; rfl⟩
  | ended s line _ hended => exact ⟨stream.length, le_rfl, by rw [hended]; rfl⟩
  | total p s line hlt _ hreading _ => exact ⟨p.received, hlt.le, by rw [hreading]; rfl⟩

/-- Unless the total budget stops it, a result is of the end of the stream or of a refusal. -/
theorem outputs_of_ends_within {cut : ℕ → ℕ} {r : ProtocolStreamResult}
    (h : Ends C digest budgets cut stream r) (htotal : r.failure ≠ some totalBudgetExceeded) :
    ∃ n, (n = stream.length ∨ ∃ s violation,
        arrived C digest budgets stream n = .refused s violation) ∧
      r.outputs = scanOutputs (arrived C digest budgets stream n) := by
  cases h with
  | refused n s violation _ _ hrefused =>
    exact ⟨n, .inr ⟨s, violation, hrefused⟩, by rw [hrefused]; rfl⟩
  | ended s line _ hended => exact ⟨stream.length, .inl rfl, by rw [hended]; rfl⟩
  | total => exact absurd rfl htotal

/-- What `_outcome_of` makes of a result counts its outputs. -/
theorem counted_outcome (r : ProtocolStreamResult) (stop : Option StopReason) (overflowed : Bool)
    (returncode : ℤ) :
    OutputCountMatches (Carried.outcome
      { overflowed, stop, protocolFailure := protocolFailure r, returncode }) r.outputs := by
  refine Completion.counted_carried fun code detail accepted h => ?_
  obtain ⟨failure, -, hfailure⟩ := Option.map_eq_some_iff.mp h
  cases hfailure
  rfl

/-- **Partial outputs are sound.** Whatever bytes a child writes and however they are cut: a result
has no outputs or the frames before them, so none of a stream that does not begin with the prelude;
it has all of the opening frames unless the total budget stopped it; and the outcome built of it
passes the validator of the accepted output count. -/
theorem partialOutputs_sound (hC : C.Recogniser) (digest : Str) (budgets : ExecutorSelfBudgets)
    (cut : ℕ → ℕ) (stream : Bytes) :
    let r := readProtocolStream C { unread := stream, cut := cut } digest budgets
    (r.outputs = [] ∨ Opens C digest budgets r.outputs stream) ∧
    (¬ Opens C digest budgets [] stream → r.outputs = []) ∧
    (r.failure ≠ some totalBudgetExceeded →
      ∀ documents, Opens C digest budgets documents stream → documents <+: r.outputs) ∧
    ∀ stop overflowed returncode, OutputCountMatches (Carried.outcome
      { overflowed, stop, protocolFailure := protocolFailure r, returncode }) r.outputs := by
  intro r
  have hends : Ends C digest budgets cut stream r := by
    have h := ends C digest budgets cut stream
    rw [← readProtocolStream_eq] at h
    exact h
  have hsound : r.outputs = [] ∨ Opens C digest budgets r.outputs stream := by
    obtain ⟨n, hn, houtputs⟩ := outputs_of_ends hends
    by_cases hnil : r.outputs = []
    · exact .inl hnil
    · rw [houtputs] at hnil ⊢
      exact .inr (opens_of_arrived hC hn hnil)
  refine ⟨hsound, fun hnone => ?_, fun htotal documents hopens => ?_, fun stop overflowed returncode =>
    counted_outcome r stop overflowed returncode⟩
  · rcases hsound with hnil | hopens
    · exact hnil
    · exact absurd hopens.nil hnone
  · obtain ⟨n, hn, houtputs⟩ := outputs_of_ends_within hends htotal
    rw [houtputs]
    exact prefix_of_opens hC hopens hn

/-- A stream whose prelude comes after its output has no outputs. -/
theorem latePrelude_outputs :
    let digest := List.replicate 64 97
    let stream := frameStream plainCodec [.output 0 (.obj []), .prelude digest]
    (readProtocolStream plainCodec { unread := stream, cut := fun _ => 3 } digest {}).outputs = [] := by
  intro digest stream
  refine (partialOutputs_sound plainCodec_recogniser digest {} (fun _ => 3) stream).2.1 fun h => ?_
  exact absurd h.leads (by decide +kernel)

end DrExec.Execution.PartialOutputs
