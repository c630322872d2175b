import DrExec.Runtime.Bootstrap
import DrExec.Runtime.Chunking

/-! # The child's writer and the parent's reader agree

The child's bytes are the frames of its run, one line each (`bootstrap_written`); a prefix of them
is the frames that end within it and the start of the next (`exists_unfinished`). `taken_prefix`
says which stream state such frames lead to, and `reader_agrees` reads the parent's verdict from it.
-/

namespace DrExec.Runtime.Agreement

open DrExec.Lib DrExec.Lib.Lines DrExec.Lib.Json DrExec.Runtime.Wire DrExec.Runtime.Protocol
open DrExec.Runtime.Arrival DrExec.Runtime.Grammar DrExec.Runtime.Bootstrap

/-! ### Frames that have arrived -/

/-- The documents of the output frames among some frames. -/
def documents (frames : List ProtocolFrame) : List Json :=
  frames.filterMap fun
    | .output _ document => some document
    | _ => none

/-- The frames whose terminator lies in the first `n` bytes of their stream. -/
def framesWithin (C : Codec) (frames : List ProtocolFrame) (n : ℕ) : List ProtocolFrame :=
  endedWithin C.frameBytes frames n

theorem documents_outputFrames (outputs : List Json) : documents (outputFrames outputs) = outputs := by
  induction outputs using List.reverseRecOn with
  | nil => rfl
  | append_singleton outputs document ih =>
    rw [outputFrames_concat, documents, List.filterMap_append]
    exact congrArg (· ++ [document]) ih

/-- The first output frames are the output frames of the first documents. -/
theorem prefix_outputFrames {outputs : List Json} {sofar : List ProtocolFrame}
    (h : sofar <+: outputFrames outputs) : ∃ first, sofar = outputFrames first := by
  induction outputs using List.reverseRecOn with
  | nil => exact ⟨[], List.prefix_nil.mp h⟩
  | append_singleton outputs document ih =>
    rw [outputFrames_concat] at h
    rcases List.prefix_concat_iff.mp h with rfl | h
    · exact ⟨outputs ++ [document], (outputFrames_concat _ _).symm⟩
    · exact ih h

variable {digest : Str}

/-- **Where the first frames of a stream lead** an unbudgeted reader: to their documents, and to
completion exactly if they are all. -/
theorem taken_prefix {outputs : List Json} {sofar : List ProtocolFrame}
    (h : sofar <+: protocolFrames digest outputs) :
    ∃ s, Taken digest {} sofar s ∧ s.outputs = documents sofar ∧
      (s.completed = true ↔ sofar = protocolFrames digest outputs) := by
  have hshort : ∀ frames, frames <+: .prelude digest :: outputFrames outputs →
      frames ≠ protocolFrames digest outputs := by
    rintro frames hframes rfl
    have hlen := hframes.length_le
    simp only [protocolFrames, List.length_append, List.length_cons, List.length_nil] at hlen
    omega
  rcases List.prefix_concat_iff.mp h with rfl | h
  · refine ⟨_, .closed outputs (not_exceeds_none _), ?_, by simp [protocolFrames]⟩
    have hdocuments : documents (.prelude digest :: outputFrames outputs ++
        [.complete outputs.length]) = documents (outputFrames outputs) := by
      simp [documents]
    rw [hdocuments, documents_outputFrames]
    rfl
  · rcases List.prefix_cons_iff.mp h with rfl | ⟨sofar, rfl, hsofar⟩
    · exact ⟨_, .nothing, rfl, by simp [initial, protocolFrames]⟩
    · obtain ⟨first, rfl⟩ := prefix_outputFrames hsofar
      refine ⟨_, .opened first (not_exceeds_none _), ?_, ?_⟩
      · exact (documents_outputFrames first).symm
      · simpa [opened, initial] using hshort _ h

variable {C : Codec}

theorem frameStream_eq (C : Codec) (frames : List ProtocolFrame) :
    frameStream C frames =
      frames.flatMap fun frame => C.frameBytes frame ++ [protocolFrameTerminator] := by
  simp [frameStream, List.flatMap_map]

/-- The parent's result for a prefix of the frames of a run. -/
theorem report_prefix (hC : C.Recogniser) {outputs : List Json} {frames : List ProtocolFrame}
    (hframes : frames <+: protocolFrames digest outputs)
    (hfits : ∀ frame ∈ frames, Fits C {} frame) {pre : Bytes} (hpre : pre <+: frameStream C frames)
    (cut : ℕ → ℕ) :
    Chunking.report (readProtocolStream C { unread := pre, cut := cut } digest {}) =
      (documents (framesWithin C frames pre.length),
        if pre = frameStream C (protocolFrames digest outputs) then none
        else some .incompleteStream) := by
  have hunbudgeted : ¬ Exceeds ({} : ExecutorSelfBudgets).protocolTotalBytes.limit pre.length :=
    not_exceeds_none _
  rw [Chunking.report_within hunbudgeted]
  rw [frameStream_eq] at hpre
  obtain ⟨line, hsplit, hline, hunfinished⟩ :=
    exists_unfinished (fun frame _ => hC.one_line frame.json) hpre
  have hwithin : framesWithin C frames pre.length <+: frames := endedWithin_prefix _ _ _
  obtain ⟨s, htaken, houtputs, hcompleted⟩ := taken_prefix (hwithin.trans hframes)
  have harrived : arrived C digest {} pre pre.length = .reading s line := by
    rw [arrived, List.take_length]
    refine (Scanner.scan_eq_reading_iff _).mpr
      ⟨(framesWithin C frames pre.length).map C.frameBytes, ?_, ?_, ⟨hline, not_exceeds_none _⟩,
        acceptAll_taken hC htaken fun frame hf => hfits frame (hwithin.subset hf)⟩
    · rw [List.flatMap_map]
      exact hsplit
    · intro l hl
      obtain ⟨frame, -, rfl⟩ := List.mem_map.mp hl
      exact ⟨hC.one_line _, not_exceeds_none _⟩
  rw [harrived, Chunking.verdict, houtputs]
  refine congrArg (documents _, ·) ?_
  obtain ⟨rest, hrest⟩ := hwithin.trans hframes
  have hwhole : pre = frameStream C (protocolFrames digest outputs) ↔ line = frameStream C rest := by
    rw [← hrest, frameStream_eq, frameStream_eq, List.flatMap_append]
    constructor
    · intro h
      exact List.append_cancel_left (hsplit.symm.trans h)
    · intro h
      rw [← h]
      exact hsplit
  by_cases hdone : rest = []
  · -- all frames have ended, so there is no unfinished line
    rw [hdone, List.append_nil] at hrest
    have hall : framesWithin C frames pre.length = frames :=
      hwithin.eq_of_length_le (hrest ▸ hframes.length_le)
    have hnil : line = [] := by
      by_contra hline
      exact hunfinished hline hall
    rw [if_pos (hwhole.mpr (by rw [hnil, hdone]; rfl)), hnil]
    simp [ending, StreamState.finish, hcompleted.mpr hrest]
  · have hopen : s.completed = false := by
      rw [Bool.eq_false_iff]
      intro h
      refine hdone (List.append_right_eq_self.mp (hrest.trans (hcompleted.mp h).symm))
    have hne : pre ≠ frameStream C (protocolFrames digest outputs) := by
      intro h
      obtain ⟨frame, more, rfl⟩ := List.exists_cons_of_ne_nil hdone
      refine hline ?_
      rw [hwhole.mp h, frameStream_eq]
      simp
    rw [if_neg hne, ending, hopen]
    split_ifs
    · rfl
    · simp [StreamState.finish, hopen]

/-! ### The frames of a run -/

variable {loads : Bytes → Option PyValue} {sha256 : Bytes → Str} {data : Bytes} {run : DriverRun}

theorem bootstrapFrames_prefix :
    bootstrapFrames digest run <+: protocolFrames digest (emitted run.calls) := by
  unfold bootstrapFrames
  split_ifs
  · exact List.prefix_rfl
  · exact List.prefix_append _ _

theorem normal_of_emitted {calls : List EmitCall} {document : Json}
    (h : document ∈ emitted calls) : document.Normal := by
  obtain ⟨call, -, hcall⟩ := List.mem_filterMap.mp h
  unfold EmitCall.accepted at hcall
  split at hcall
  · obtain ⟨d, -, rfl⟩ := Option.map_eq_some_iff.mp hcall
    exact normal_normalize d
  · cases hcall

theorem mem_of_mem_outputFrames {outputs : List Json} {frame : ProtocolFrame}
    (h : frame ∈ outputFrames outputs) :
    ∃ sequence, ∃ document ∈ outputs, frame = .output sequence document := by
  obtain ⟨sequence, hlt, rfl⟩ := List.mem_mapIdx.mp h
  exact ⟨sequence, _, List.getElem_mem hlt, rfl⟩

theorem bootstrapFrames_cases {frame : ProtocolFrame} (h : frame ∈ bootstrapFrames digest run) :
    frame = .prelude digest ∨ frame = .complete (emitted run.calls).length ∨
      ∃ sequence, ∃ document ∈ emitted run.calls, frame = .output sequence document := by
  have hmem := bootstrapFrames_prefix.subset h
  rcases List.mem_append.mp hmem with hmem | hmem
  · rcases List.mem_cons.mp hmem with rfl | hmem
    · exact .inl rfl
    · exact .inr (.inr (mem_of_mem_outputFrames hmem))
  · exact .inr (.inl (List.mem_singleton.mp hmem))

/-- **The child's writer and the parent's reader agree at every point of truncation.** Over a
recogniser with the child's canonical profile, for a request that the child accepts and a driver
whose accepted documents the parent accepts too and can nest: of any prefix of the child's bytes,
however it is cut, the unbudgeted reader returns the documents of the output frames that end within
it; it reports no failure exactly if the run completed and the prefix is all of it, and otherwise an
incomplete stream. -/
theorem reader_agrees (hC : C.Recogniser) (hprofile : C.canonicalJsonBytes = dumps)
    (hceiling : 0 < C.canonicalJsonMaxContainerDepth)
    (hdigest : C.isSha256Digest (sha256 data) = true)
    (hrequest : readRequest loads data = .ok data)
    (haccepted : ∀ sequence document,
      .output sequence document ∈ bootstrapFrames (sha256 data) run →
        C.validateIdentityDocument document = true ∧
        (ProtocolFrame.output sequence document).json.depth ≤ C.canonicalJsonMaxContainerDepth)
    {pre : Bytes} (hpre : pre <+: (bootstrap loads sha256 data run).written) (cut : ℕ → ℕ) :
    let result := readProtocolStream C { unread := pre, cut := cut } (sha256 data) {}
    result.outputs =
        documents (framesWithin C (bootstrapFrames (sha256 data) run) pre.length) ∧
      (result.failure = none ↔
        run.returns = true ∧ pre = (bootstrap loads sha256 data run).written) ∧
      (result.failure ≠ none → result.failure.map (·.code) = some .incompleteStream) := by
  intro result
  have hwritten : (bootstrap loads sha256 data run).written =
      frameStream C (bootstrapFrames (sha256 data) run) := by
    rw [bootstrap_written hrequest, frameStream_eq, frameLines]
    simp only [Codec.frameBytes, hprofile]
  have hfits : ∀ frame ∈ bootstrapFrames (sha256 data) run, Fits C {} frame := by
    intro frame hframe
    rcases bootstrapFrames_cases hframe with rfl | rfl | ⟨sequence, document, hdocument, rfl⟩
    · exact ⟨hdigest, hceiling⟩
    · exact ⟨trivial, hceiling⟩
    · obtain ⟨hvalid, hdepth⟩ := haccepted sequence document hframe
      exact ⟨⟨hvalid, normal_of_emitted hdocument⟩, hdepth⟩
  have hreport : Chunking.report result = _ :=
    report_prefix hC bootstrapFrames_prefix hfits (hwritten ▸ hpre) cut
  obtain ⟨houtputs, hfailure⟩ : result.outputs = _ ∧
    result.failure.map ProtocolViolation.code = _ := Prod.ext_iff.mp hreport
  have hwhole : pre = frameStream C (protocolFrames (sha256 data) (emitted run.calls)) ↔
      run.returns = true ∧ pre = (bootstrap loads sha256 data run).written := by
    rw [hwritten, bootstrapFrames]
    cases hreturns : run.returns with
    | true => simp
    | false =>
      -- the prefix is shorter than a completed stream
      simp only [Bool.false_eq_true, if_false, false_and, iff_false]
      rintro rfl
      have hlen := hpre.length_le
      rw [hwritten, bootstrapFrames, hreturns, protocolFrames, frameStream_eq, frameStream_eq,
        if_neg (by simp), List.flatMap_append, List.length_append, List.flatMap_singleton,
        List.length_append, List.length_singleton] at hlen
      omega
  refine ⟨houtputs, ?_, ?_⟩
  · rw [← hwhole]
    split_ifs at hfailure with h
    · exact iff_of_true (Option.map_eq_none_iff.mp hfailure) h
    · refine iff_of_false (fun hnone => ?_) h
      rw [hnone] at hfailure
      cases hfailure
  · intro hsome
    split_ifs at hfailure with h
    · exact absurd (Option.map_eq_none_iff.mp hfailure) hsome
    · exact hfailure

/-- A driver emits a document, has a list rejected, and emits another document; the child is cut off
within its last frame. -/
theorem reader_agrees_midway :
    let document (n : ℤ) : PyValue := .record [("schema", .str (text "dr_exec.test_output")),
      ("schema_version", .int 1), ("payload", .record [("index", .int n)])]
    let data := ascii
      "\x7b\"payload\":\x7b\"value\":7\x7d,\"schema\":\"dr_exec.test_request\",\"schema_version\":1\x7d"
    let request : PyValue := .record [("payload", .record [("value", .int 7)]),
      ("schema", .str (text "dr_exec.test_request")), ("schema_version", .int 1)]
    let loads (bytes : Bytes) := if bytes = data then some request else none
    let digest := text "2d0d2a9da7a1076b7c6e841beec955b38de99ffa4c7dfe58931ce617d4c51e8a"
    let run : DriverRun :=
      { calls := [⟨document 0, none⟩, ⟨.list [], none⟩, ⟨document 1, none⟩], returns := true }
    let written := (bootstrap loads (fun _ => digest) data run).written
    let result := readProtocolStream plainCodec
      { unread := written.dropLast, cut := fun _ => 100 } digest {}
    result.outputs =
        documents (framesWithin plainCodec (bootstrapFrames digest run) written.dropLast.length) ∧
      (result.failure = none ↔ run.returns = true ∧ written.dropLast = written) ∧
      (result.failure ≠ none → result.failure.map (·.code) = some .incompleteStream) := by
  intro document data request loads digest run written
  have haccepted : (bootstrapFrames digest run).all (fun
      | .output sequence document => plainCodec.validateIdentityDocument document &&
          (ProtocolFrame.output sequence document).json.depth ≤ 200
      | _ => true) = true := by
    decide +kernel
  refine reader_agrees plainCodec_recogniser rfl (by decide) (by decide +kernel) (by decide +kernel)
    (fun sequence document h => ?_) (List.dropLast_prefix _) _
  obtain ⟨hvalid, hdepth⟩ := Bool.and_eq_true_iff.mp (List.all_eq_true.mp haccepted _ h)
  exact ⟨hvalid, of_decide_eq_true hdepth⟩

end DrExec.Runtime.Agreement
