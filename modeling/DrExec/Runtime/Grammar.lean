import Mathlib.Data.List.Induction
import DrExec.Runtime.Arrival
import DrExec.Runtime.PlainCodec

/-! # The grammar of an accepted stream

An accepted stream is the prelude that binds the request, the outputs numbered from zero, and the
completion that counts them, each frame in canonical bytes with its terminator, within the budgets.
`Taken` says which frames lead to which stream state; the reader accepts exactly the streams of the
grammar `Conforms`, however they are cut. -/

namespace DrExec.Runtime.Grammar

open DrExec.Lib DrExec.Lib.Lines DrExec.Runtime.Wire DrExec.Runtime.Protocol
open DrExec.Runtime.Arrival

/-! ### The frames of a stream -/

/-- The output frames of a list of documents. -/
def outputFrames (documents : List Json) : List ProtocolFrame :=
  documents.mapIdx fun sequence document => .output sequence document

/-- The frames of a stream with these outputs. -/
def protocolFrames (digest : Str) (documents : List Json) : List ProtocolFrame :=
  .prelude digest :: outputFrames documents ++ [.complete documents.length]

/-- The bytes of some frames, each with its terminator. -/
def frameStream (C : Codec) (frames : List ProtocolFrame) : Bytes :=
  (frames.map C.frameBytes).flatMap (· ++ [protocolFrameTerminator])

/-- A frame that is admissible and within the depth bounds and the frame budget. -/
structure Sound (C : Codec) (budgets : ExecutorSelfBudgets) (frame : ProtocolFrame) : Prop where
  admits : C.Admits frame
  ceiling : frame.json.depth ≤ C.canonicalJsonMaxContainerDepth
  depth : ¬ Exceeds budgets.jsonDepth.limit frame.json.depth
  bytes : ¬ Exceeds budgets.protocolFrameBytes.limit (C.frameBytes frame).length

/-- **The grammar**: the streams of `documents` for the request `digest` within the budgets. -/
structure Conforms (C : Codec) (digest : Str) (budgets : ExecutorSelfBudgets)
    (documents : List Json) (stream : Bytes) : Prop where
  stream_eq : stream = frameStream C (protocolFrames digest documents)
  sound : ∀ frame ∈ protocolFrames digest documents, Sound C budgets frame
  count : ¬ Exceeds budgets.protocolOutputCount.limit documents.length
  total : ¬ Exceeds budgets.protocolTotalBytes.limit stream.length

theorem outputFrames_concat (documents : List Json) (document : Json) :
    outputFrames (documents ++ [document]) =
      outputFrames documents ++ [.output documents.length document] := by
  simp [outputFrames, List.mapIdx_append]

/-! ### The frames behind a state -/

variable {C : Codec} {digest : Str} {budgets : ExecutorSelfBudgets}

/-- The state of a stream that has been opened and has given some outputs. -/
def opened (digest : Str) (budgets : ExecutorSelfBudgets) (documents : List Json) : StreamState :=
  { initial digest budgets with outputs := documents, preludeSeen := true }

/-- The frames that lead to a stream state. -/
inductive Taken (digest : Str) (budgets : ExecutorSelfBudgets) :
    List ProtocolFrame → StreamState → Prop
  | nothing : Taken digest budgets [] (initial digest budgets)
  | opened (documents : List Json) :
      ¬ Exceeds budgets.protocolOutputCount.limit documents.length →
      Taken digest budgets (.prelude digest :: outputFrames documents)
        (opened digest budgets documents)
  | closed (documents : List Json) :
      ¬ Exceeds budgets.protocolOutputCount.limit documents.length →
      Taken digest budgets (protocolFrames digest documents)
        { opened digest budgets documents with completed := true }

/-- One more accepted frame. -/
theorem Taken.concat {sofar : List ProtocolFrame} {s s' : StreamState} {frame : ProtocolFrame}
    (h : Taken digest budgets sofar s) (hopen : s.completed = false)
    (haccept : s.accept frame = (s', none)) : Taken digest budgets (sofar ++ [frame]) s' := by
  cases h with
  | nothing =>
    cases frame with
    | prelude d =>
      obtain ⟨-, rfl, rfl⟩ := StreamState.accept_prelude_eq.mp haccept
      exact .opened [] (not_exceeds_zero _)
    | output sequence document => cases (StreamState.accept_output_eq.mp haccept).1
    | complete count => cases (StreamState.accept_complete_eq.mp haccept).1
  | opened documents hcount =>
    cases frame with
    | prelude d => cases (StreamState.accept_prelude_eq.mp haccept).1
    | output sequence document =>
      obtain ⟨-, -, rfl, hmore, rfl⟩ := StreamState.accept_output_eq.mp haccept
      have hcount' : ¬ Exceeds budgets.protocolOutputCount.limit (documents ++ [document]).length := by
        rw [List.length_append, List.length_singleton]
        exact hmore
      have htaken : Taken digest budgets _ _ := .opened (documents ++ [document]) hcount'
      rw [outputFrames_concat] at htaken
      exact htaken
    | complete count =>
      obtain ⟨-, -, rfl, rfl⟩ := StreamState.accept_complete_eq.mp haccept
      exact .closed documents hcount
  | closed documents hcount => exact absurd hopen (by simp)

theorem takeFrame_eq_none (hC : C.Recogniser) {s s' : StreamState} {line : Bytes} :
    takeFrame C budgets s line = (s', none) ↔
      s.completed = false ∧ ∃ frame, line = C.frameBytes frame ∧ C.Admits frame ∧
        frame.json.depth ≤ effectiveDepth C budgets.jsonDepth.limit ∧
        s.accept frame = (s', none) := by
  unfold takeFrame
  by_cases hcompleted : s.completed = true
  · simp [hcompleted]
  rw [if_neg hcompleted]
  rw [Bool.not_eq_true] at hcompleted
  simp only [hcompleted, true_and]
  have hceiling : effectiveDepth C budgets.jsonDepth.limit ≤ C.canonicalJsonMaxContainerDepth :=
    effectiveDepth_le C _
  constructor
  · intro h
    rcases hdecode : decodeFrame C line (effectiveDepth C budgets.jsonDepth.limit) with v | frame
    · rw [hdecode] at h
      cases h
    · rw [hdecode] at h
      obtain ⟨hline, hadmits, hdepth⟩ := (decodeFrame_eq_ok_iff hC hceiling).mp hdecode
      exact ⟨frame, hline, hadmits, hdepth, h⟩
  · rintro ⟨frame, hline, hadmits, hdepth, h⟩
    rw [(decodeFrame_eq_ok_iff hC hceiling).mpr ⟨hline, hadmits, hdepth⟩]
    exact h

theorem le_effectiveDepth {limit : Option ℕ} {n : ℕ} :
    n ≤ effectiveDepth C limit ↔ n ≤ C.canonicalJsonMaxContainerDepth ∧ ¬ Exceeds limit n := by
  cases limit with
  | none => simp [effectiveDepth]
  | some limit => simp [effectiveDepth, and_comm]

/-- A frame that may be taken. -/
def Fits (C : Codec) (budgets : ExecutorSelfBudgets) (frame : ProtocolFrame) : Prop :=
  C.Admits frame ∧ frame.json.depth ≤ effectiveDepth C budgets.jsonDepth.limit

theorem acceptAll_frame (hC : C.Recogniser) {sofar : List ProtocolFrame} {s s' : StreamState}
    {frame : ProtocolFrame}
    (h : (frames C budgets).acceptAll (initial digest budgets) (sofar.map C.frameBytes) = (s, none))
    (hopen : s.completed = false) (hfits : Fits C budgets frame)
    (haccept : s.accept frame = (s', none)) :
    (frames C budgets).acceptAll (initial digest budgets) ((sofar ++ [frame]).map C.frameBytes) =
      (s', none) := by
  rw [List.map_append]
  exact (Scanner.acceptAll_concat _).mpr
    ⟨s, h, (takeFrame_eq_none hC).mpr ⟨hopen, frame, rfl, hfits.1, hfits.2, haccept⟩⟩

theorem acceptAll_opened (hC : C.Recogniser) {documents : List Json}
    (hfits : ∀ frame ∈ .prelude digest :: outputFrames documents, Fits C budgets frame)
    (hcount : ¬ Exceeds budgets.protocolOutputCount.limit documents.length) :
    (frames C budgets).acceptAll (initial digest budgets)
      ((.prelude digest :: outputFrames documents).map C.frameBytes) =
      (opened digest budgets documents, none) := by
  induction documents using List.reverseRecOn with
  | nil =>
    have hnil : (frames C budgets).acceptAll (initial digest budgets)
        (([] : List ProtocolFrame).map C.frameBytes) = (initial digest budgets, none) := rfl
    exact acceptAll_frame hC hnil rfl (hfits _ (by simp))
      (StreamState.accept_prelude_eq.mpr ⟨rfl, rfl, rfl⟩)
  | append_singleton documents document ih =>
    rw [outputFrames_concat] at hfits ⊢
    rw [List.length_append, List.length_singleton] at hcount
    have hbefore := ih (fun frame hf => hfits frame (by simp at hf ⊢; tauto))
      fun h => hcount (h.mono (Nat.le_succ _))
    exact acceptAll_frame hC hbefore rfl (hfits _ (by simp))
      (StreamState.accept_output_eq.mpr ⟨rfl, rfl, rfl, hcount, rfl⟩)

/-- Frames that may be taken lead where `Taken` says. -/
theorem acceptAll_taken (hC : C.Recogniser) {sofar : List ProtocolFrame} {s : StreamState}
    (htaken : Taken digest budgets sofar s) (hfits : ∀ frame ∈ sofar, Fits C budgets frame) :
    (frames C budgets).acceptAll (initial digest budgets) (sofar.map C.frameBytes) =
      (s, none) := by
  cases htaken with
  | nothing => rfl
  | opened documents hcount => exact acceptAll_opened hC hfits hcount
  | closed documents hcount =>
    have hopened := acceptAll_opened hC
      (fun frame hf => hfits frame (List.mem_append_left _ hf)) hcount
    exact acceptAll_frame hC hopened rfl (hfits _ (by simp [protocolFrames]))
      (StreamState.accept_complete_eq.mpr ⟨rfl, rfl, rfl, rfl⟩)

/-- **The frames that have been accepted.** -/
theorem acceptAll_iff (hC : C.Recogniser) {lines : List Bytes} {s : StreamState} :
    (frames C budgets).acceptAll (initial digest budgets) lines = (s, none) ↔
      ∃ sofar, Taken digest budgets sofar s ∧ lines = sofar.map C.frameBytes ∧
        ∀ frame ∈ sofar, Fits C budgets frame := by
  constructor
  · intro h
    induction lines using List.reverseRecOn generalizing s with
    | nil =>
      cases h
      exact ⟨[], .nothing, rfl, by simp⟩
    | append_singleton lines line ih =>
      obtain ⟨t, ht, haccept⟩ := (Scanner.acceptAll_concat _).mp h
      obtain ⟨sofar, htaken, rfl, hfits⟩ := ih ht
      obtain ⟨hopen, frame, rfl, hadmits, hdepth, haccept⟩ := (takeFrame_eq_none hC).mp haccept
      refine ⟨sofar ++ [frame], htaken.concat hopen haccept, by simp, fun f hf => ?_⟩
      rcases List.mem_append.mp hf with hf | hf
      · exact hfits f hf
      · exact List.mem_singleton.mp hf ▸ ⟨hadmits, hdepth⟩
  · rintro ⟨sofar, htaken, rfl, hfits⟩
    exact acceptAll_taken hC htaken hfits

/-! ### The streams that are accepted -/

/-- **A stream has arrived complete exactly if it is a stream of the grammar**, total budget
apart. -/
theorem arrived_completed_iff (hC : C.Recogniser) {stream : Bytes} {documents : List Json}
    (htotal : ¬ Exceeds budgets.protocolTotalBytes.limit stream.length) :
    (∃ s, arrived C digest budgets stream stream.length = .reading s [] ∧ s.completed = true ∧
        s.outputs = documents) ↔ Conforms C digest budgets documents stream := by
  constructor
  · rintro ⟨s, harrived, hcompleted, rfl⟩
    rw [arrived, List.take_length] at harrived
    obtain ⟨lines, hstream, hlines, -, hacc⟩ := (Scanner.scan_eq_reading_iff _).mp harrived
    obtain ⟨sofar, htaken, rfl, hfits⟩ := (acceptAll_iff hC).mp hacc
    cases htaken with
    | nothing => cases hcompleted
    | opened => cases hcompleted
    | closed documents hcount =>
      rw [List.append_nil] at hstream
      refine ⟨hstream, fun frame hf => ?_, hcount, htotal⟩
      obtain ⟨hceiling, hdepth⟩ := le_effectiveDepth.mp (hfits frame hf).2
      exact ⟨(hfits frame hf).1, hceiling, hdepth,
        (hlines _ (List.mem_map_of_mem hf)).short⟩
  · intro h
    have hfits : ∀ frame ∈ protocolFrames digest documents, Fits C budgets frame := fun frame hf =>
      ⟨(h.sound frame hf).admits,
        le_effectiveDepth.mpr ⟨(h.sound frame hf).ceiling, (h.sound frame hf).depth⟩⟩
    refine ⟨{ opened digest budgets documents with completed := true }, ?_, rfl, rfl⟩
    rw [arrived, List.take_length]
    refine (Scanner.scan_eq_reading_iff _).mpr
      ⟨(protocolFrames digest documents).map C.frameBytes, ?_, ?_, Scanner.fitsLine_nil _,
        acceptAll_taken hC (.closed documents h.count) hfits⟩
    · rw [List.append_nil]
      exact h.stream_eq
    · intro line hline
      obtain ⟨frame, hf, rfl⟩ := List.mem_map.mp hline
      exact ⟨hC.one_line _, (h.sound frame hf).bytes⟩

/-- A stream that has arrived complete within the total budget is returned whole. -/
theorem run_completed {cut : ℕ → ℕ} {stream : Bytes} {s : StreamState}
    (htotal : ¬ Exceeds budgets.protocolTotalBytes.limit stream.length)
    (harrived : arrived C digest budgets stream stream.length = .reading s [])
    (hcompleted : s.completed = true) :
    (arrivals C digest budgets cut stream).run {} = ⟨s.outputs, stream.length, none⟩ := by
  have hends := ends C digest budgets cut stream
  generalize (arrivals C digest budgets cut stream).run {} = r at hends ⊢
  cases hends with
  | refused n t violation _ _ hrefused =>
    rw [arrived, List.take_length] at harrived
    rw [arrived] at hrefused
    cases (Scanner.scan_take_refused _ hrefused).symm.trans harrived
  | ended t line _ hended =>
    cases hended.symm.trans harrived
    simp [ending, StreamState.finish, hcompleted]
  | total p t line hlt _ _ hexceeds =>
    refine absurd (hexceeds.mono ?_) htotal
    simp only [readLength]
    omega

/-- A stream of the grammar is read as its documents, however it is cut. -/
theorem read_of_conforms (hC : C.Recogniser) {digest : Str} {budgets : ExecutorSelfBudgets}
    {cut : ℕ → ℕ} {stream : Bytes} {documents : List Json}
    (h : Conforms C digest budgets documents stream) :
    readProtocolStream C { unread := stream, cut := cut } digest budgets =
      ⟨documents, stream.length, none⟩ := by
  rw [readProtocolStream_eq]
  obtain ⟨s, harrived, hcompleted, rfl⟩ := (arrived_completed_iff hC h.total).mpr h
  exact run_completed h.total harrived hcompleted

/-- A stream that is read without a failure is one of the grammar. -/
theorem conforms_of_accepted (hC : C.Recogniser) {digest : Str} {budgets : ExecutorSelfBudgets}
    {cut : ℕ → ℕ} {stream : Bytes}
    (hnone : (readProtocolStream C { unread := stream, cut := cut } digest budgets).failure = none) :
    ∃ documents, Conforms C digest budgets documents stream := by
  rw [readProtocolStream_eq] at hnone
  have hends := ends C digest budgets cut stream
  generalize (arrivals C digest budgets cut stream).run {} = r at hends hnone
  cases hends with
  | refused => cases hnone
  | ended s line htotal harrived =>
    dsimp only [ending] at hnone
    split_ifs at hnone with hline
    rw [not_not.mp hline] at harrived
    unfold StreamState.finish at hnone
    split_ifs at hnone with hcompleted
    exact ⟨s.outputs, (arrived_completed_iff hC htotal).mp
      ⟨s, harrived, by simpa using hcompleted, rfl⟩⟩
  | total => cases hnone

/-- **Acceptance is exactly the grammar.** Over a recogniser of canonical frames, however the
stream is cut: the reader reports no failure exactly if the stream is one of the grammar, and then
its outputs are the documents in order and its byte count the stream's length. -/
theorem accepts_iff_grammar (hC : C.Recogniser) (digest : Str) (budgets : ExecutorSelfBudgets)
    (cut : ℕ → ℕ) (stream : Bytes) :
    ((readProtocolStream C { unread := stream, cut := cut } digest budgets).failure = none ↔
      ∃ documents, Conforms C digest budgets documents stream) ∧
    ∀ documents, Conforms C digest budgets documents stream →
      readProtocolStream C { unread := stream, cut := cut } digest budgets =
        ⟨documents, stream.length, none⟩ := by
  refine ⟨⟨conforms_of_accepted hC, fun ⟨documents, h⟩ => ?_⟩, fun documents => read_of_conforms hC⟩
  rw [read_of_conforms hC h]

/-- A stream of one output, read three bytes at a time within budgets that it just meets. -/
theorem oneOutput_accepted :
    let digest := List.replicate 64 97
    let document : Json :=
      .obj [(text "payload", .arr [.int 7]), (text "schema", .str (text "s")),
        (text "schema_version", .int 1)]
    let stream := frameStream plainCodec (protocolFrames digest [document])
    readProtocolStream plainCodec { unread := stream, cut := fun _ => 3 } digest
        { protocolFrameBytes := .finite 117, protocolTotalBytes := .finite 269,
          protocolOutputCount := .finite 1, jsonDepth := .finite 3 } =
      ⟨[document], stream.length, none⟩ := by
  intro digest document stream
  refine (accepts_iff_grammar plainCodec_recogniser _ _ _ _).2 _
    { stream_eq := rfl, sound := ?_, count := by decide, total := by decide +kernel }
  intro frame hframe
  simp only [protocolFrames, outputFrames, List.mapIdx_cons, List.mapIdx_nil, List.cons_append,
    List.nil_append, List.mem_cons, List.not_mem_nil, or_false] at hframe
  rcases hframe with rfl | rfl | rfl
  · refine ⟨?_, by decide +kernel, by decide +kernel, by decide +kernel⟩
    show isHexDigest digest = true
    decide +kernel
  · refine ⟨⟨?_, rfl⟩, by decide +kernel, by decide +kernel, by decide +kernel⟩
    show isIdentityDocument document = true
    decide +kernel
  · exact ⟨trivial, by decide +kernel, by decide +kernel, by decide +kernel⟩

end DrExec.Runtime.Grammar
