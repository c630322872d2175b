import DrExec.Execution.InProcess
import DrExec.Lib.JsonLoads
import DrExec.Lib.Lines
import DrExec.Lib.Utf8

/-! # The frames of a worker's pipes

`_drain_frames` of `execution/worker_pool.py` and `_read_frame`, `_handle` and `_serve` of
`execution/worker_pool_worker.py`, over what `readline` returns of a pipe. Both ends join the pieces
into lines, which do not depend on the pieces (`drainFrames_eq`, `serve_eq`). What the end of a pipe
leaves unfinished is dropped by the one and handed on by the other, which reads no request from it
unless only its terminator is missing (`invoked_whole`, `handle_part`). -/

namespace DrExec.Execution.WorkerFrames

open DrExec.Core.Identity DrExec.Core.Model DrExec.Lib DrExec.Lib.JsonLoads DrExec.Lib.Lines
open DrExec.Execution.InProcess (Raised)

/-- `WORKER_FRAME_TERMINATOR` -/
def workerFrameTerminator : UInt8 := 10

/-- What one `readline` returns: a line with its terminator, or a part of one. -/
abbrev Chunk := Piece workerFrameTerminator

/-- How a pipe ends: `readline` returns nothing, or it raises. -/
inductive PipeEnd
  | endOfFile
  | osError

/-- An `OSError`, of which nothing asks for the text. -/
def osError : Raised := { message := Text.lit "" }

/-! ### The parent -/

/-- `_drain_frames`: what it puts into the queue. The end of the pieces is that of the pipe, and
`readline` may as well raise there. -/
def drainFrames : List Bytes → List Chunk → List (Option Bytes)
  | _, [] => [none]
  | chunks, chunk :: pieces =>
    if chunk.Ends then
      some (chunks ++ [chunk.symbols]).flatten :: drainFrames [] pieces
    else drainFrames (chunks ++ [chunk.symbols]) pieces

/-! ### The worker -/

def envelopeSchema : Text := Text.lit "dr_exec.importable_json"

def envelopeSchemaVersion : ℤ := 1

/-- `WorkerFrameStatus` -/
inductive WorkerFrameStatus
  | ok
  | payloadRaised
  | payloadResultInvalid
  | executorRejected

/-- The wire value of a status. -/
def WorkerFrameStatus.value : WorkerFrameStatus → String
  | ok => "ok"
  | payloadRaised => "payload_raised"
  | payloadResultInvalid => "payload_result_invalid"
  | executorRejected => "executor_rejected"

/-- dr_serialize, the entry point at each of its calls, the pipe of the results at each frame
written to it, and the errors of reading bytes and texts. A value may be nested too deep for the
interpreter to read. -/
structure Worker (Object : Type) where
  strRaises : Raised → Raised
  unicodeDecodeError : Bytes → Text
  jsonDecodeError : Str → Text
  recursionError : Loaded → Option Raised
  validateIdentityDocument : Loaded → Except Raised IdentityDocument
  validateStrictJson : Json → Except Raised Json
  entryPoint : ℕ → Json → Except Raised Object
  validateReturned : Object → Except Raised Json
  formatPayloadErrorDetail : Raised → Except Raised Text
  canonicalIdentityJsonBytes : Text → ℤ → Json → Except Raised Bytes
  write : ℕ → Bytes → Except Raised Unit

/-- What `_handle` does: the payload that it calls the entry point with, if it does, and the frame
that it returns. -/
structure Handled where
  invoked : Option Json
  answer : Except Raised Bytes

/-- One pass through the loop of `_serve`: what was called, and how writing the answer ended. -/
structure Turn where
  invoked : Option Json
  ended : Except Raised Unit

/-- `_read_frame` -/
def readFrame (ending : PipeEnd) :
    List Bytes → List Chunk → Except Raised (Option Bytes × List Chunk)
  | chunks, [] =>
    match ending with
    | .endOfFile => .ok (if chunks = [] then none else some chunks.flatten, [])
    | .osError => .error osError
  | chunks, chunk :: pieces =>
    if chunk.Ends then .ok (some (chunks ++ [chunk.symbols]).flatten, pieces)
    else readFrame ending (chunks ++ [chunk.symbols]) pieces

namespace Worker

variable {Object : Type} (worker : Worker Object)

/-- `str(error)` -/
def str (error : Raised) : Except Raised Text :=
  match error.message with
  | some message => .ok message
  | none => .error (worker.strRaises error)

/-- `frame.decode("utf-8")` -/
def decode (frame : Bytes) : Except Raised Str :=
  match Utf8.decodeStrict frame with
  | none => .error { message := worker.unicodeDecodeError frame }
  | some s => .ok s

/-- `json.loads` -/
def jsonLoads (s : Str) : Except Raised Loaded :=
  match loads s with
  | none => .error { message := worker.jsonDecodeError s }
  | some loaded =>
    match worker.recursionError loaded with
    | none => .ok loaded
    | some error => .error error

/-- `_decode_request`, from the loaded value on. -/
def decodeLoaded (loaded : Loaded) : Except Raised IdentityDocument := do
  let document ← worker.validateIdentityDocument loaded
  if document.schema ≠ envelopeSchema ∨ document.schemaVersion ≠ envelopeSchemaVersion then
    .error { message := Text.lit "request does not use the importable JSON envelope" }
  else .ok document

/-- `_decode_request` -/
def decodeRequest (frame : Bytes) : Except Raised IdentityDocument := do
  worker.decodeLoaded (← worker.jsonLoads (← worker.decode frame))

/-- The frame of an envelope: a status, and a value under a key of its own. -/
def envelopeFrame (status : WorkerFrameStatus) (key : Str) (value : Json) : Except Raised Bytes := do
  let bytes ← worker.canonicalIdentityJsonBytes envelopeSchema envelopeSchemaVersion
    (.obj [(text "status", .str (text status.value)), (key, value)])
  .ok (bytes ++ [workerFrameTerminator])

/-- `_result_frame` -/
def resultFrame (result : Json) : Except Raised Bytes :=
  worker.envelopeFrame .ok (text "result") result

/-- `_status_frame` -/
def statusFrame (status : WorkerFrameStatus) (detail : Text) : Except Raised Bytes :=
  worker.envelopeFrame status (text "detail") (.str detail.value)

/-- `_handle`, from the call on. -/
def answer (called : Except Raised Object) : Except Raised Bytes :=
  match called with
  | .error error =>
    if error.isException then do
      worker.statusFrame .payloadRaised (← worker.formatPayloadErrorDetail error)
    else .error error
  | .ok returned =>
    match worker.validateReturned returned with
    | .error error =>
      if error.isStrictJsonError then do
        worker.statusFrame .payloadResultInvalid (← worker.str error)
      else .error error
    | .ok result => worker.resultFrame result

/-- `_handle`, of the frame with this number. -/
def handle (k : ℕ) (frame : Bytes) : Handled :=
  match worker.decodeRequest frame with
  | .error error =>
    { invoked := none
      answer :=
        if error.isException then do worker.statusFrame .executorRejected (← worker.str error)
        else .error error }
  | .ok request =>
    match worker.validateStrictJson request.payload with
    | .error error =>
      { invoked := none
        answer :=
          if error.isStrictJsonError then do
            worker.statusFrame .executorRejected (← worker.str error)
          else .error error }
    | .ok payload => { invoked := some payload, answer := worker.answer (worker.entryPoint k payload) }

/-- `_write_frame(results, _handle(entry_point, frame))` -/
def turn (k : ℕ) (frame : Bytes) : Turn where
  invoked := (worker.handle k frame).invoked
  ended := (worker.handle k frame).answer.bind (worker.write k)

/-- `_serve`: its turns until it returns or something escapes; `none` if so many do not suffice. -/
def serve (ending : PipeEnd) : ℕ → ℕ → List Chunk → Option (List Turn)
  | 0, _, _ => none
  | fuel + 1, k, pieces =>
    match readFrame ending [] pieces with
    | .error _ => some []
    | .ok (none, _) => some []
    | .ok (some frame, rest) =>
      match (worker.turn k frame).ended with
      | .error _ => some [worker.turn k frame]
      | .ok () => (serve ending fuel (k + 1) rest).map (worker.turn k frame :: ·)

end Worker

section Handle

variable {Object : Type} (worker : Worker Object)

/-- The entry point is called with what is validated of the payload of a request that is read. -/
theorem Worker.invoked_handle (k : ℕ) (frame : Bytes) :
    (worker.handle k frame).invoked =
      (worker.decodeRequest frame).toOption.bind fun request =>
        (worker.validateStrictJson request.payload).toOption := by
  rw [Worker.handle]
  rcases worker.decodeRequest frame with error | request
  · rfl
  · dsimp only [Except.toOption, Option.bind_some]
    rcases worker.validateStrictJson request.payload with error | payload
    · rfl
    · rfl

theorem Worker.decodeRequest_eq {frame : Bytes} {s : Str}
    (h : Utf8.decodeStrict frame = some s) :
    worker.decodeRequest frame = (worker.jsonLoads s).bind worker.decodeLoaded := by
  rw [Worker.decodeRequest, Worker.decode, h]
  rfl

end Handle

/-! ### Both ends join lines -/

theorem flatten_concat (chunks : List Bytes) (chunk : Bytes) :
    (chunks ++ [chunk]).flatten = chunks.flatten ++ chunk := by
  rw [List.flatten_append, List.flatten_singleton]

/-- **The parent** publishes the lines, and then the end. -/
theorem drainFrames_eq {chunks : List Bytes} {pieces : List Chunk} {frames : List Bytes}
    {tail : Bytes} (h : reassemble chunks.flatten pieces = (frames, tail)) :
    drainFrames chunks pieces = frames.map some ++ [none] := by
  induction pieces generalizing chunks frames with
  | nil =>
    cases h
    rfl
  | cons chunk pieces ih =>
    rw [reassemble] at h
    rw [drainFrames]
    split_ifs at h ⊢
    · cases h
      rw [ih rfl, flatten_concat]
      rfl
    · exact ih (by rw [flatten_concat, h])

/-- A line is read as a frame; fewer pieces are left. -/
theorem readFrame_line (ending : PipeEnd) {chunks : List Bytes} {pieces : List Chunk}
    {frame : Bytes} {frames : List Bytes} {tail : Bytes}
    (h : reassemble chunks.flatten pieces = (frame :: frames, tail)) :
    ∃ rest, readFrame ending chunks pieces = .ok (some frame, rest) ∧
      rest.length < pieces.length ∧ reassemble [] rest = (frames, tail) := by
  induction pieces generalizing chunks with
  | nil => cases h
  | cons chunk pieces ih =>
    rw [reassemble] at h
    rw [readFrame]
    split_ifs at h ⊢
    · cases h
      exact ⟨pieces, by rw [flatten_concat], Nat.lt_succ_self _, rfl⟩
    · obtain ⟨rest, hread, hlt, hrest⟩ := @ih (chunks ++ [chunk.symbols])
        (by rw [flatten_concat, h])
      exact ⟨rest, hread, Nat.lt_succ_of_lt hlt, hrest⟩

/-- What the end of a pipe makes of an unfinished line. -/
def lastFrame (ending : PipeEnd) (tail : Bytes) : Except Raised (Option Bytes) :=
  match ending with
  | .endOfFile => .ok (if tail = [] then none else some tail)
  | .osError => .error osError

theorem readFrame_last (ending : PipeEnd) {chunks : List Bytes} {pieces : List Chunk}
    {tail : Bytes} (hchunks : ∀ chunk ∈ chunks, chunk ≠ [])
    (h : reassemble chunks.flatten pieces = ([], tail)) :
    readFrame ending chunks pieces = (lastFrame ending tail).map (·, []) := by
  induction pieces generalizing chunks with
  | nil =>
    cases h
    cases ending with
    | osError => rfl
    | endOfFile =>
      have hnil : chunks.flatten = [] ↔ chunks = [] := by
        rw [List.flatten_eq_nil_iff]
        refine ⟨fun hall => ?_, fun hnil => by simp [hnil]⟩
        exact List.eq_nil_iff_forall_not_mem.mpr fun chunk hchunk =>
          hchunks chunk hchunk (hall chunk hchunk)
      simp only [readFrame, lastFrame, hnil]
      rfl
  | cons chunk pieces ih =>
    rw [reassemble] at h
    rw [readFrame]
    split_ifs at h ⊢
    · cases h
    · refine ih (fun c hc => ?_) (by rw [flatten_concat, h])
      rcases List.mem_append.mp hc with hc | hc
      · exact hchunks c hc
      · rw [List.mem_singleton.mp hc]
        exact chunk.nonempty

/-- The frames that are left when the lines are read. -/
def lastFrames (ending : PipeEnd) (tail : Bytes) : List Bytes :=
  match ending with
  | .endOfFile => if tail = [] then [] else [tail]
  | .osError => []

section Serve

variable {Object : Type} (worker : Worker Object)

/-- The turns that the frames of a list bring about, up to the first that something escapes from. -/
def turns : ℕ → List Bytes → List Turn
  | _, [] => []
  | k, frame :: frames =>
    match (worker.turn k frame).ended with
    | .error _ => [worker.turn k frame]
    | .ok () => worker.turn k frame :: turns (k + 1) frames

/-- **The worker** stops: it handles the lines, and what an end of the file leaves of one. -/
theorem serve_eq (ending : PipeEnd) {fuel k : ℕ} {pieces : List Chunk} {frames : List Bytes}
    {tail : Bytes} (h : reassemble [] pieces = (frames, tail)) (hfuel : pieces.length < fuel) :
    worker.serve ending fuel k pieces = some (turns worker k (frames ++ lastFrames ending tail)) := by
  induction frames generalizing fuel k pieces with
  | nil =>
    obtain ⟨fuel, rfl⟩ := Nat.exists_eq_succ_of_ne_zero (show fuel ≠ 0 by omega)
    rw [Worker.serve, @readFrame_last ending [] pieces tail (by simp) h, List.nil_append]
    cases ending with
    | osError => rfl
    | endOfFile =>
      by_cases htail : tail = []
      · simp [lastFrame, lastFrames, htail, turns, Except.map]
      · have hpieces : pieces ≠ [] := by
          rintro rfl
          exact htail (Prod.mk.inj h).2.symm
        have hpos := List.length_pos_of_ne_nil hpieces
        obtain ⟨fuel, rfl⟩ := Nat.exists_eq_succ_of_ne_zero (show fuel ≠ 0 by omega)
        simp only [lastFrame, lastFrames, htail, if_false, Except.map, turns]
        rcases (worker.turn k tail).ended with _ | _
        · rfl
        · rfl
  | cons frame frames ih =>
    obtain ⟨fuel, rfl⟩ := Nat.exists_eq_succ_of_ne_zero (show fuel ≠ 0 by omega)
    obtain ⟨rest, hread, hlt, hrest⟩ := @readFrame_line ending [] pieces frame frames tail h
    rw [Worker.serve, hread, List.cons_append, turns]
    dsimp only
    rcases (worker.turn k frame).ended with error | ⟨⟩
    · rfl
    · simp only [ih hrest (show rest.length < fuel by omega), Option.map_some]

/-! ### Requests that arrive whole or in part -/

/-- A request as the parent writes it: the canonical JSON of its dictionary, which dr_serialize
writes on one line from brace to brace, and reads back. -/
structure WrittenRequest where
  document : IdentityDocument
  bytes : Bytes
  text : Str
  loaded : Loaded
  decodes : Utf8.decodeStrict bytes = some text
  loads : JsonLoads.loads text = some loaded
  validates : worker.validateIdentityDocument loaded = .ok document
  begins : text.head? = some 123
  ends : text.getLast? = some 125
  line : workerFrameTerminator ∉ bytes

namespace WrittenRequest

variable {worker} (request : WrittenRequest worker)

/-- The payload that the entry point is called with for the request; there is none for a request
that is nested too deep or is no envelope, or whose payload is refused. -/
def payload : Option Json :=
  if (worker.recursionError request.loaded).isSome then none
  else if request.document.schema ≠ envelopeSchema ∨
      request.document.schemaVersion ≠ envelopeSchemaVersion then none
  else (worker.validateStrictJson request.document.payload).toOption

theorem bytes_ne_nil : request.bytes ≠ [] := by
  intro hnil
  have hdecodes := request.decodes
  rw [hnil] at hdecodes
  have hbegins := request.begins
  rw [← show [] = request.text from Option.some.inj hdecodes] at hbegins
  cases hbegins

/-- A request that is read is called as it stands. -/
theorem invoked_of_loads {k : ℕ} {frame : Bytes} {s : Str}
    (hdecode : Utf8.decodeStrict frame = some s)
    (hloads : JsonLoads.loads s = some request.loaded) :
    (worker.handle k frame).invoked = request.payload := by
  rw [worker.invoked_handle, worker.decodeRequest_eq hdecode, Worker.jsonLoads, hloads, payload]
  dsimp only
  rcases worker.recursionError request.loaded with _ | error
  · change ((worker.decodeLoaded request.loaded).toOption.bind _) = _
    rw [Worker.decodeLoaded, request.validates]
    simp only [Option.isSome_none, Bool.false_eq_true, if_false]
    change ((ite _ _ _ : Except Raised IdentityDocument).toOption.bind _) = _
    split_ifs <;> rfl
  · rfl

/-- **A request that arrived whole** is called, with or without its terminator. -/
theorem invoked_whole (k : ℕ) : (worker.handle k request.bytes).invoked = request.payload :=
  request.invoked_of_loads request.decodes request.loads

theorem invoked_terminated (k : ℕ) :
    (worker.handle k (request.bytes ++ [workerFrameTerminator])).invoked = request.payload := by
  have hterminator : Utf8.decodeStrict [workerFrameTerminator] = some [10] := rfl
  refine request.invoked_of_loads (Utf8.decodeStrict_append request.decodes hterminator) ?_
  exact loads_append_blanks request.loads request.begins fun c hc => by
    rw [List.mem_singleton.mp hc]
    rfl

/-- Less than a whole request is no text, or none that can be read. -/
theorem decodeRequest_part {part : Bytes} (hpart : part <+: request.bytes)
    (hne : part ≠ request.bytes) :
    ∃ message : Text, worker.decodeRequest part = .error { message } := by
  obtain ⟨rest, hrest⟩ := hpart
  have hnil : rest ≠ [] := by
    rintro rfl
    exact hne (by rwa [List.append_nil] at hrest)
  rcases hdecode : Utf8.decodeStrict part with _ | s
  · refine ⟨worker.unicodeDecodeError part, ?_⟩
    rw [Worker.decodeRequest, Worker.decode, hdecode]
    rfl
  · have hall := request.decodes
    rw [← hrest] at hall
    obtain ⟨u, htext, hu⟩ := Utf8.decodeStrictBelow_append hdecode hall
    have hloads := request.loads
    have hbegins := request.begins
    have hends := request.ends
    rw [htext] at hloads hbegins hends
    have hlast : ∀ c ∈ (s ++ u).getLast?, isBlank c = false := by
      rw [hends]
      rintro c ⟨⟩
      rfl
    refine ⟨worker.jsonDecodeError s, ?_⟩
    rw [worker.decodeRequest_eq hdecode, Worker.jsonLoads,
      loads_prefix_eq_none hloads hbegins (hu hnil) hlast]
    rfl

/-- **A part of a request** is rejected, and the entry point is not called. -/
theorem handle_part (k : ℕ) {part : Bytes} (hpart : part <+: request.bytes)
    (hne : part ≠ request.bytes) :
    ∃ message, worker.handle k part =
      { invoked := none, answer := worker.statusFrame .executorRejected message } := by
  obtain ⟨message, hmessage⟩ := request.decodeRequest_part hpart hne
  refine ⟨message, ?_⟩
  rw [Worker.handle, hmessage]
  rfl

end WrittenRequest

/-! ### Any cut -/

/-- A frame has the entry point called, or not, whatever its number is. -/
def Calls (frame : Bytes) (call : Option Json) : Prop :=
  ∀ k, (worker.handle k frame).invoked = call

/-- What is called over the turns, of what each frame has called, up to the turn that something
escapes from. -/
theorem invoked_turns {frames : List Bytes} {calls : List (Option Json)}
    (h : List.Forall₂ (Calls worker) frames calls) (k : ℕ) :
    (turns worker k frames).map Turn.invoked <+: calls ∧
      ((∀ turn ∈ turns worker k frames, turn.ended = .ok ()) →
        (turns worker k frames).map Turn.invoked = calls) := by
  induction h generalizing k with
  | nil => exact ⟨List.prefix_rfl, fun _ => rfl⟩
  | @cons frame call frames calls hcall _ ih =>
    have hinvoked : (worker.turn k frame).invoked = call := hcall k
    obtain ⟨hsome, hall⟩ := ih (k + 1)
    rw [turns]
    rcases hended : (worker.turn k frame).ended with error | ⟨⟩
    · simp only [List.map_cons, List.map_nil, hinvoked]
      refine ⟨List.cons_prefix_cons.mpr ⟨rfl, List.nil_prefix⟩, fun hok => ?_⟩
      have hturn := hok _ (List.mem_singleton_self _)
      rw [hended] at hturn
      cases hturn
    · simp only [List.map_cons, hinvoked]
      refine ⟨List.cons_prefix_cons.mpr ⟨rfl, hsome⟩, fun hok => ?_⟩
      rw [hall fun turn hturn => hok turn (List.mem_cons_of_mem _ hturn)]

/-- What an unfinished line of a cut stream has called. -/
theorem calls_lastFrames (ending : PipeEnd) {requests ended arrived : List (WrittenRequest worker)}
    {line : Bytes} (h : Unfinished WrittenRequest.bytes requests ended arrived line) :
    ∃ rest calls, arrived = ended ++ rest ∧
      List.Forall₂ (Calls worker) (lastFrames ending line) calls ∧
      calls.filterMap id <+: rest.filterMap WrittenRequest.payload ∧
      (ending = .endOfFile → calls.filterMap id = rest.filterMap WrittenRequest.payload) := by
  cases ending with
  | osError =>
    obtain ⟨rest, hrest⟩ : ∃ rest, arrived = ended ++ rest := by
      cases h with
      | none _ harrived => exact ⟨[], by simp [harrived]⟩
      | whole b _ _ harrived => exact ⟨[b], harrived⟩
      | part _ _ _ _ harrived => exact ⟨[], by simp [harrived]⟩
    exact ⟨rest, [], hrest, .nil, List.nil_prefix, nofun⟩
  | endOfFile =>
    cases h with
    | none hline harrived =>
      refine ⟨[], [], by simp [harrived], ?_, List.prefix_rfl, fun _ => rfl⟩
      rw [lastFrames, if_pos hline]
      exact .nil
    | whole b _ hline harrived =>
      refine ⟨[b], [b.payload], harrived, ?_, ?_, fun _ => ?_⟩
      · rw [lastFrames, hline, if_neg b.bytes_ne_nil]
        exact .cons b.invoked_whole .nil
      · exact List.prefix_rfl
      · rfl
    | part b _ hpart hne harrived =>
      by_cases hline : line = []
      · refine ⟨[], [], by simp [harrived], ?_, List.prefix_rfl, fun _ => rfl⟩
        rw [lastFrames, if_pos hline]
        exact .nil
      · refine ⟨[], [none], by simp [harrived], ?_, List.prefix_rfl, fun _ => rfl⟩
        rw [lastFrames, if_neg hline]
        refine .cons (fun k => ?_) .nil
        obtain ⟨message, hhandle⟩ := b.handle_part k hpart hne
        rw [hhandle]

/-- What the frames of a cut stream of requests have called. -/
theorem calls_of_cut (ending : PipeEnd) {requests : List (WrittenRequest worker)}
    {pieces : List Chunk}
    (h : joined pieces <+: requests.flatMap fun request => request.bytes ++ [workerFrameTerminator]) :
    ∃ frames calls,
      worker.serve ending (pieces.length + 1) 0 pieces = some (turns worker 0 frames) ∧
      List.Forall₂ (Calls worker) frames calls ∧
      calls.filterMap id <+:
        (arrivedWithin WrittenRequest.bytes requests (joined pieces).length).filterMap
          WrittenRequest.payload ∧
      (ending = .endOfFile → calls.filterMap id =
        (arrivedWithin WrittenRequest.bytes requests (joined pieces).length).filterMap
          WrittenRequest.payload) := by
  obtain ⟨line, hjoined, hunfinished⟩ := exists_arrived (fun b _ => b.bytes_ne_nil) h
  have hline : workerFrameTerminator ∉ line := by
    cases hunfinished with
    | none hnil _ => simp [hnil]
    | whole b _ hwhole _ => rw [hwhole]; exact b.line
    | part b _ hpart _ _ => exact fun hmem => b.line (hpart.subset hmem)
  have hreassemble := reassemble_eq (fun b _ => b.line) hline List.not_mem_nil hjoined
  obtain ⟨rest, calls, harrived, hcalls, hsome, hall⟩ := calls_lastFrames worker ending hunfinished
  generalize endedWithin WrittenRequest.bytes requests (joined pieces).length = ended at *
  have hended : List.Forall₂ (Calls worker)
      (ended.map fun request => request.bytes ++ [workerFrameTerminator])
      (ended.map WrittenRequest.payload) := by
    rw [List.forall₂_map_left_iff, List.forall₂_map_right_iff, List.forall₂_same]
    exact fun request _ => request.invoked_terminated
  have hsplit : (ended.map WrittenRequest.payload ++ calls).filterMap id =
      ended.filterMap WrittenRequest.payload ++ calls.filterMap id := by
    rw [List.filterMap_append, List.filterMap_map, Function.id_comp]
  refine ⟨_, _, serve_eq worker ending hreassemble (Nat.lt_succ_self _),
    List.rel_append hended hcalls, ?_, fun heof => ?_⟩
  · rw [hsplit, harrived, List.filterMap_append]
    exact (List.prefix_append_right_inj _).mpr hsome
  · rw [hsplit, harrived, List.filterMap_append, hall heof]

end Serve

/-- **Framing under any cut.** However a cut stream of frames comes in pieces, the parent publishes
the frames that are complete, and then one end. Of a cut stream of requests the worker calls the
entry point with those that arrived whole, in order: with all of them, if the file ends there and
each is answered. Then it stops; and it rejects what is less than a whole request. -/
theorem framing_under_cut {Object : Type} (worker : Worker Object) :
    (∀ (bodies : List Bytes) (pieces : List Chunk),
      (∀ body ∈ bodies, workerFrameTerminator ∉ body) →
      joined pieces <+: bodies.flatMap (fun body => body ++ [workerFrameTerminator]) →
      drainFrames [] pieces =
        ((endedWithin id bodies (joined pieces).length).map fun body =>
          some (body ++ [workerFrameTerminator])) ++ [none]) ∧
    (∀ (requests : List (WrittenRequest worker)) (pieces : List Chunk) (ending : PipeEnd),
      joined pieces <+:
        requests.flatMap (fun request => request.bytes ++ [workerFrameTerminator]) →
      ∃ served, worker.serve ending (pieces.length + 1) 0 pieces = some served ∧
        served.filterMap Turn.invoked <+:
          (arrivedWithin WrittenRequest.bytes requests (joined pieces).length).filterMap
            WrittenRequest.payload ∧
        (ending = .endOfFile → (∀ turn ∈ served, turn.ended = .ok ()) →
          served.filterMap Turn.invoked =
            (arrivedWithin WrittenRequest.bytes requests (joined pieces).length).filterMap
              WrittenRequest.payload)) ∧
    (∀ (request : WrittenRequest worker) (k : ℕ) (part : Bytes),
      part <+: request.bytes → part ≠ request.bytes →
      ∃ message, worker.handle k part =
        { invoked := none, answer := worker.statusFrame .executorRejected message }) := by
  refine ⟨fun bodies pieces hbodies hcut => ?_, fun requests pieces ending hcut => ?_,
    fun request k part hpart hne => request.handle_part k hpart hne⟩
  · obtain ⟨line, hjoined, hline, -⟩ := @exists_unfinished _ _ id _ _ _ hbodies hcut
    have hended : endedWithin id bodies (joined pieces).length <+: bodies :=
      endedWithin_prefix id bodies _
    have hreassemble := @reassemble_eq _ _ _ _ id _ [] _ pieces
      (fun body hbody => hbodies body (hended.subset hbody)) hline List.not_mem_nil hjoined
    rw [@drainFrames_eq [] pieces _ _ hreassemble, List.map_map]
    rfl
  · obtain ⟨frames, calls, hserve, hcalls, hsome, hall⟩ := calls_of_cut worker ending hcut
    obtain ⟨hturns, hanswered⟩ := invoked_turns worker hcalls 0
    have hinvoked : (turns worker 0 frames).filterMap Turn.invoked =
        ((turns worker 0 frames).map Turn.invoked).filterMap id := by
      rw [List.filterMap_map, Function.id_comp]
    refine ⟨_, hserve, ?_, fun heof hok => ?_⟩
    · rw [hinvoked]
      exact (hturns.filterMap id).trans hsome
    · rw [hinvoked, hanswered hok, hall heof]

/-! ### Two requests, the second cut -/

theorem normal_null : Json.Normal .null := rfl

/-- An envelope that carries `null`. -/
def nullDocument : IdentityDocument where
  schema := envelopeSchema
  schemaVersion := envelopeSchemaVersion
  payload := .null
  normal := normal_null

/-- A worker whose entry point returns, and a dr_serialize that writes canonical JSON. -/
def returningWorker : Worker Unit where
  strRaises error := error
  unicodeDecodeError _ := Text.lit "invalid start byte"
  jsonDecodeError _ := Text.lit "Expecting value"
  recursionError _ := none
  validateIdentityDocument
    | .obj [(_, .null), (_, .str _), (_, .int _)] => .ok nullDocument
    | _ => .error { message := Text.lit "not an identity document" }
  validateStrictJson := .ok
  entryPoint _ _ := .ok ()
  validateReturned _ := .ok .null
  formatPayloadErrorDetail _ := .ok (Text.lit "")
  canonicalIdentityJsonBytes schema version payload :=
    .ok (Json.dumps (.obj [(text "payload", payload), (text "schema", .str schema.value),
      (text "schema_version", .int version)]))
  write _ _ := .ok ()

def nullBytes : Bytes := Json.dumps nullDocument.toJsonDict

def nullRequest : WrittenRequest returningWorker where
  document := nullDocument
  bytes := nullBytes
  text := nullBytes.map fun b => Fin.ofNat _ b.toNat
  loaded := .obj [(text "payload", .null), (text "schema", .str envelopeSchema.value),
    (text "schema_version", .int 1)]
  decodes := by decide +kernel
  loads := by rfl
  validates := rfl
  begins := by decide +kernel
  ends := by decide +kernel
  line := by decide +kernel

/-- A request that comes in two pieces, and the first three bytes of another. -/
def cutChunks : List Chunk :=
  [⟨nullBytes.take 7, by decide +kernel, by decide +kernel⟩,
    ⟨nullBytes.drop 7 ++ [workerFrameTerminator], by decide +kernel, by decide +kernel⟩,
    ⟨nullBytes.take 3, by decide +kernel, by decide +kernel⟩]

theorem joined_cutChunks : joined cutChunks <+:
    [nullRequest, nullRequest].flatMap fun request => request.bytes ++ [workerFrameTerminator] :=
  ⟨nullBytes.drop 3 ++ [workerFrameTerminator], by decide +kernel⟩

/-- Both ends of a pipe that was cut there. -/
theorem framing_cutChunks :
    drainFrames [] cutChunks = [some (nullBytes ++ [workerFrameTerminator]), none] ∧
      (∃ served, returningWorker.serve .endOfFile 4 0 cutChunks = some served ∧
        served.filterMap Turn.invoked <+: [.null]) ∧
      ∃ message, returningWorker.handle 1 (nullBytes.take 3) =
        { invoked := none
          answer := returningWorker.statusFrame .executorRejected message } := by
  obtain ⟨hdrain, hserve, hpart⟩ := framing_under_cut returningWorker
  refine ⟨hdrain [nullBytes, nullBytes] cutChunks (by decide +kernel) joined_cutChunks, ?_,
    hpart nullRequest 1 _ (List.take_prefix _ _) (by decide +kernel)⟩
  obtain ⟨served, hserved, hsome, -⟩ :=
    hserve [nullRequest, nullRequest] cutChunks .endOfFile joined_cutChunks
  exact ⟨served, hserved, hsome⟩

end DrExec.Execution.WorkerFrames
