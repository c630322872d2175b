import DrExec.Declarations.Models
import DrExec.Recording.Models
import DrExec.Lib.Lists

/-! # What is kept of a job's output

`execution/retention.py`. `StreamRetention` keeps the first bytes of one stream and a sliding tail
of the others; `PayloadRetention` has one for each stream and sees when both together produced more
than the budget. `retaining` is what a stream keeps as a function of all its bytes;
`offer_retaining` is the step from one chunk to the next, and `retention_exact` says what a run of
offers keeps. -/

namespace DrExec.Execution.Retention

open DrExec.Lib DrExec.Lib.Json DrExec.Lib.Lists DrExec.Declarations.Models DrExec.Recording.Models

/-! ### One stream -/

structure StreamRetention where
  headBytes : Option ℕ
  tailBytes : Option ℕ
  head : Bytes := []
  tail : Bytes := []
  producedBytes : ℕ := 0
  droppedBytes : ℕ := 0

/-- `self._tail` grows by a chunk and gives up its oldest bytes past `tail_bytes`. -/
def StreamRetention.slide (s : StreamRetention) (tailBytes : ℕ) (chunk : Bytes) :
    StreamRetention :=
  let tail := s.tail ++ chunk
  let overflow := tail.length - tailBytes
  if 0 < overflow then
    { s with tail := tail.drop overflow, droppedBytes := s.droppedBytes + overflow }
  else { s with tail := tail }

/-- What `offer` does with the bytes that are past the head. -/
def StreamRetention.offerTail (s : StreamRetention) (chunk : Bytes) : StreamRetention :=
  if chunk = [] then s
  else
    match s.tailBytes with
    | none | some 0 => { s with droppedBytes := s.droppedBytes + chunk.length }
    | some tailBytes => s.slide tailBytes chunk

/-- `StreamRetention.offer` -/
def StreamRetention.offer (s : StreamRetention) (chunk : Bytes) : StreamRetention :=
  let s := { s with producedBytes := s.producedBytes + chunk.length }
  match s.headBytes with
  | none => { s with head := s.head ++ chunk }
  | some headBytes =>
    let remainingHead := headBytes - s.head.length
    if 0 < remainingHead then
      { s with head := s.head ++ chunk.take remainingHead }.offerTail (chunk.drop remainingHead)
    else s.offerTail chunk

/-- `RetainedPayloadStream(..)` -/
def retainedPayloadStream (head tail : Bytes) (producedBytes droppedBytes : ℕ) :
    Except Str RetainedPayloadStream :=
  if h : head.length + tail.length + droppedBytes = producedBytes then
    .ok ⟨head, tail, producedBytes, droppedBytes, h⟩
  else .error (text "retained and dropped bytes must equal produced bytes")

/-- `StreamRetention.snapshot` -/
def StreamRetention.snapshot (s : StreamRetention) : Except Str RetainedPayloadStream :=
  retainedPayloadStream s.head s.tail s.producedBytes s.droppedBytes

/-- `_stream_retention` -/
def streamRetention : Option StreamRetentionBudget → StreamRetention
  | none => { headBytes := none, tailBytes := none }
  | some budget => { headBytes := some budget.headBytes, tailBytes := some budget.tailBytes }

/-- What a stream has kept once it was offered `bytes`. -/
def retaining : Option StreamRetentionBudget → Bytes → StreamRetention
  | none, bytes =>
    { headBytes := none, tailBytes := none, head := bytes, producedBytes := bytes.length }
  | some budget, bytes =>
    { headBytes := some budget.headBytes
      tailBytes := some budget.tailBytes
      head := bytes.take budget.headBytes
      tail := (bytes.drop budget.headBytes).rtake budget.tailBytes
      producedBytes := bytes.length
      droppedBytes := bytes.length - budget.headBytes - budget.tailBytes }

theorem streamRetention_eq (budget : Option StreamRetentionBudget) :
    streamRetention budget = retaining budget [] := by
  cases budget <;> simp [streamRetention, retaining]

theorem slide_eq (s : StreamRetention) (tailBytes : ℕ) (chunk : Bytes) :
    s.slide tailBytes chunk = { s with
      tail := (s.tail ++ chunk).rtake tailBytes
      droppedBytes := s.droppedBytes + ((s.tail ++ chunk).length - tailBytes) } := by
  unfold StreamRetention.slide List.rtake
  by_cases h : 0 < (s.tail ++ chunk).length - tailBytes
  · simp only [h, if_true]
  · have hzero : (s.tail ++ chunk).length - tailBytes = 0 := by omega
    simp only [hzero, List.drop_zero, Nat.add_zero, Nat.lt_irrefl, if_false]

/-- The bytes past the head go through the tail's window, also when it has no room at all. -/
theorem offerTail_eq {s : StreamRetention} {tailBytes : ℕ} (htail : s.tailBytes = some tailBytes)
    (hfits : s.tail.length ≤ tailBytes) (chunk : Bytes) :
    s.offerTail chunk = { s with
      tail := (s.tail ++ chunk).rtake tailBytes
      droppedBytes := s.droppedBytes + ((s.tail ++ chunk).length - tailBytes) } := by
  unfold StreamRetention.offerTail
  split
  · rename_i hnil
    simp [hnil, rtake_of_length_le hfits, Nat.sub_eq_zero_of_le hfits]
  · rw [htail]
    cases tailBytes with
    | zero =>
      have hempty : s.tail = [] := List.eq_nil_of_length_eq_zero (by omega)
      simp [hempty]
    | succ n =>
      have hslide := slide_eq s (n + 1) chunk
      rw [htail] at hslide
      exact hslide

/-- A chunk is split at the end of the head, wherever that is. -/
theorem offer_some {s : StreamRetention} {headBytes : ℕ} (hhead : s.headBytes = some headBytes)
    (chunk : Bytes) :
    s.offer chunk = { s with
      producedBytes := s.producedBytes + chunk.length
      head := s.head ++ chunk.take (headBytes - s.head.length) }.offerTail
        (chunk.drop (headBytes - s.head.length)) := by
  unfold StreamRetention.offer
  simp only [hhead]
  split
  · rfl
  · rename_i hfull
    have hzero : headBytes - s.head.length = 0 := by omega
    simp only [hzero, List.take_zero, List.drop_zero, List.append_nil]

/-- **The step.** Offering a chunk is retaining the bytes with the chunk appended. -/
theorem offer_retaining (budget : Option StreamRetentionBudget) (bytes chunk : Bytes) :
    (retaining budget bytes).offer chunk = retaining budget (bytes ++ chunk) := by
  cases budget with
  | none => simp [retaining, StreamRetention.offer]
  | some budget =>
    have hremaining : budget.headBytes - (bytes.take budget.headBytes).length =
        budget.headBytes - bytes.length := by
      rw [List.length_take]
      omega
    have hfits : ((bytes.drop budget.headBytes).rtake budget.tailBytes).length ≤
        budget.tailBytes := by
      rw [length_rtake]
      omega
    rw [offer_some rfl, offerTail_eq rfl hfits]
    simp only [retaining, hremaining, rtake_append_rtake, List.take_append, List.drop_append,
      List.length_append, List.length_drop, length_rtake]
    congr 1
    omega

/-- **A run of offers to one stream.** -/
theorem foldl_offer_retaining (budget : Option StreamRetentionBudget) (chunks : List Bytes)
    (bytes : Bytes) :
    chunks.foldl StreamRetention.offer (retaining budget bytes) =
      retaining budget (bytes ++ chunks.flatten) := by
  induction chunks generalizing bytes with
  | nil => simp
  | cons chunk chunks ih =>
    rw [List.foldl_cons, offer_retaining, ih, List.flatten_cons, List.append_assoc]

/-- What a snapshot of a stream that produced `bytes` holds. -/
structure Retains (budget : Option StreamRetentionBudget) (bytes : Bytes)
    (stream : RetainedPayloadStream) : Prop where
  produced : stream.producedBytes = bytes.length
  unbudgeted : budget = none →
    stream.head = bytes ∧ stream.tail = [] ∧ stream.droppedBytes = 0
  head : ∀ limits, budget = some limits →
    stream.head = bytes.take (min limits.headBytes bytes.length)
  tail : ∀ limits, budget = some limits →
    stream.tail = bytes.rtake (min limits.tailBytes (bytes.length - stream.head.length))
  dropped : ∀ limits, budget = some limits →
    stream.droppedBytes = bytes.length - stream.head.length - stream.tail.length

/-- The window over the bytes past the head is the end of all the bytes. -/
theorem rtake_drop (bytes : Bytes) (headBytes tailBytes : ℕ) :
    (bytes.drop headBytes).rtake tailBytes =
      bytes.rtake (min tailBytes (bytes.length - headBytes)) := by
  rcases Nat.le_total headBytes bytes.length with hle | hle
  · have hstart : headBytes + (bytes.length - headBytes - tailBytes) =
        bytes.length - min tailBytes (bytes.length - headBytes) := by omega
    rw [List.rtake, List.rtake, List.drop_drop, List.length_drop, hstart]
  · rw [List.drop_eq_nil_of_le hle, Nat.sub_eq_zero_of_le hle, Nat.min_zero, List.rtake_zero,
      List.rtake_nil]

/-- The validator of a snapshot never rejects it. -/
theorem snapshot_retaining (budget : Option StreamRetentionBudget) (bytes : Bytes) :
    ∃ stream, (retaining budget bytes).snapshot = .ok stream ∧ Retains budget bytes stream := by
  unfold StreamRetention.snapshot retainedPayloadStream
  cases budget with
  | none =>
    refine ⟨⟨bytes, [], bytes.length, 0, by simp⟩, by simp [retaining], rfl, fun _ => ⟨rfl, rfl, rfl⟩,
      nofun, nofun, nofun⟩
  | some budget =>
    have hsum : (bytes.take budget.headBytes).length +
        ((bytes.drop budget.headBytes).rtake budget.tailBytes).length +
          (bytes.length - budget.headBytes - budget.tailBytes) = bytes.length := by
      rw [length_rtake, List.length_take, List.length_drop]
      omega
    refine ⟨⟨_, _, _, _, hsum⟩, dif_pos hsum, rfl, nofun, ?_, ?_, ?_⟩
    · rintro _ ⟨⟩
      exact List.take_eq_take_min
    · rintro _ ⟨⟩
      have hrest : bytes.length - (bytes.take budget.headBytes).length =
          bytes.length - budget.headBytes := by
        rw [List.length_take]
        omega
      simp only [hrest]
      exact rtake_drop bytes budget.headBytes budget.tailBytes
    · rintro _ ⟨⟩
      simp only [length_rtake, List.length_take, List.length_drop]
      omega

/-! ### Both streams -/

inductive PayloadStream
  | stdout
  | stderr
  deriving DecidableEq

structure PayloadRetention where
  stdout : StreamRetention
  stderr : StreamRetention
  maxTotalBytes : Option ℕ

/-- `PayloadRetention.for_budget` -/
def PayloadRetention.forBudget : OutputBudget → PayloadRetention
  | .finite budget =>
    { stdout := streamRetention (some budget.retention.stdout)
      stderr := streamRetention (some budget.retention.stderr)
      maxTotalBytes := some budget.maxBytes }
  | .unbudgeted =>
    { stdout := streamRetention none, stderr := streamRetention none, maxTotalBytes := none }

/-- `PayloadRetention.produced_bytes` -/
def PayloadRetention.producedBytes (r : PayloadRetention) : ℕ :=
  r.stdout.producedBytes + r.stderr.producedBytes

/-- `PayloadRetention.overflowed` -/
def PayloadRetention.overflowed (r : PayloadRetention) : Bool :=
  match r.maxTotalBytes with
  | none => false
  | some maxTotalBytes => decide (maxTotalBytes < r.producedBytes)

/-- `PayloadRetention.snapshot` -/
def PayloadRetention.snapshot (r : PayloadRetention) : Except Str PayloadOutputs := do
  let stdout ← r.stdout.snapshot
  let stderr ← r.stderr.snapshot
  return { stdout, stderr }

/-- A chunk offered to one of the two streams. -/
def PayloadRetention.offer (r : PayloadRetention) : PayloadStream × Bytes → PayloadRetention
  | (.stdout, chunk) => { r with stdout := r.stdout.offer chunk }
  | (.stderr, chunk) => { r with stderr := r.stderr.offer chunk }

/-- Chunks offered one after the other, in whatever order the two pumps read them. -/
def PayloadRetention.offerAll (r : PayloadRetention) (offers : List (PayloadStream × Bytes)) :
    PayloadRetention :=
  offers.foldl PayloadRetention.offer r

def PayloadRetention.stream (r : PayloadRetention) : PayloadStream → StreamRetention
  | .stdout => r.stdout
  | .stderr => r.stderr

/-- The bytes kept of both streams. -/
def keptBytes (outputs : PayloadOutputs) : ℕ :=
  outputs.stdout.head.length + outputs.stdout.tail.length + outputs.stderr.head.length +
    outputs.stderr.tail.length

/-- The limits that a budget sets on a stream. -/
def limits : OutputBudget → PayloadStream → Option StreamRetentionBudget
  | .unbudgeted, _ => none
  | .finite budget, .stdout => some budget.retention.stdout
  | .finite budget, .stderr => some budget.retention.stderr

/-- The bytes of one stream among the chunks offered to both. -/
def bytesOf (stream : PayloadStream) (offers : List (PayloadStream × Bytes)) : Bytes :=
  ((offers.filter (·.1 = stream)).map Prod.snd).flatten

/-- A chunk reaches its own stream only. -/
theorem stream_offerAll (stream : PayloadStream) (offers : List (PayloadStream × Bytes))
    (r : PayloadRetention) :
    (r.offerAll offers).stream stream =
      ((offers.filter (·.1 = stream)).map Prod.snd).foldl StreamRetention.offer
        (r.stream stream) := by
  unfold PayloadRetention.offerAll
  induction offers generalizing r with
  | nil => rfl
  | cons offer offers ih =>
    obtain ⟨of, chunk⟩ := offer
    rw [List.foldl_cons, ih]
    cases of <;> cases stream <;> rfl

theorem maxTotalBytes_offerAll (offers : List (PayloadStream × Bytes)) (r : PayloadRetention) :
    (r.offerAll offers).maxTotalBytes = r.maxTotalBytes := by
  unfold PayloadRetention.offerAll
  induction offers generalizing r with
  | nil => rfl
  | cons offer offers ih =>
    obtain ⟨of, chunk⟩ := offer
    rw [List.foldl_cons, ih]
    cases of <;> rfl

/-- **What a stream has kept depends on its own bytes only.** -/
theorem stream_forBudget (budget : OutputBudget) (offers : List (PayloadStream × Bytes))
    (stream : PayloadStream) :
    ((PayloadRetention.forBudget budget).offerAll offers).stream stream =
      retaining (limits budget stream) (bytesOf stream offers) := by
  have hfresh : (PayloadRetention.forBudget budget).stream stream =
      retaining (limits budget stream) [] := by
    rw [← streamRetention_eq]
    cases budget <;> cases stream <;> rfl
  rw [stream_offerAll, hfresh, foldl_offer_retaining, List.nil_append]
  rfl

theorem producedBytes_retaining (budget : Option StreamRetentionBudget) (bytes : Bytes) :
    (retaining budget bytes).producedBytes = bytes.length := by
  cases budget <;> rfl

theorem producedBytes_forBudget (budget : OutputBudget) (offers : List (PayloadStream × Bytes)) :
    ((PayloadRetention.forBudget budget).offerAll offers).producedBytes =
      (bytesOf .stdout offers).length + (bytesOf .stderr offers).length := by
  have hstdout := stream_forBudget budget offers .stdout
  have hstderr := stream_forBudget budget offers .stderr
  simp only [PayloadRetention.stream] at hstdout hstderr
  rw [PayloadRetention.producedBytes, hstdout, hstderr, producedBytes_retaining,
    producedBytes_retaining]

theorem overflowed_iff (budget : OutputBudget) (offers : List (PayloadStream × Bytes)) :
    ((PayloadRetention.forBudget budget).offerAll offers).overflowed = true ↔
      ∃ output, budget = .finite output ∧
        (output.maxBytes : ℕ) < (bytesOf .stdout offers).length + (bytesOf .stderr offers).length := by
  unfold PayloadRetention.overflowed
  rw [maxTotalBytes_offerAll, producedBytes_forBudget]
  cases budget with
  | unbudgeted => simp [PayloadRetention.forBudget]
  | finite output => simp [PayloadRetention.forBudget]

theorem length_bytesOf_append (stream : PayloadStream) (offers later : List (PayloadStream × Bytes)) :
    (bytesOf stream (offers ++ later)).length =
      (bytesOf stream offers).length + (bytesOf stream later).length := by
  simp only [bytesOf, List.filter_append, List.map_append, List.flatten_append, List.length_append]

theorem offerAll_append (r : PayloadRetention) (offers later : List (PayloadStream × Bytes)) :
    r.offerAll (offers ++ later) = (r.offerAll offers).offerAll later :=
  List.foldl_append

/-- An overflow is not taken back. -/
theorem overflowed_append {budget : OutputBudget} {offers : List (PayloadStream × Bytes)}
    (later : List (PayloadStream × Bytes))
    (h : ((PayloadRetention.forBudget budget).offerAll offers).overflowed = true) :
    ((PayloadRetention.forBudget budget).offerAll (offers ++ later)).overflowed = true := by
  obtain ⟨output, hbudget, hover⟩ := (overflowed_iff budget offers).mp h
  refine (overflowed_iff budget _).mpr ⟨output, hbudget, ?_⟩
  rw [length_bytesOf_append, length_bytesOf_append]
  omega

theorem snapshot_forBudget (budget : OutputBudget) (offers : List (PayloadStream × Bytes)) :
    ∃ outputs, ((PayloadRetention.forBudget budget).offerAll offers).snapshot = .ok outputs ∧
      Retains (limits budget .stdout) (bytesOf .stdout offers) outputs.stdout ∧
        Retains (limits budget .stderr) (bytesOf .stderr offers) outputs.stderr := by
  obtain ⟨stdout, hstdout, hout⟩ := snapshot_retaining (limits budget .stdout) (bytesOf .stdout offers)
  obtain ⟨stderr, hstderr, herr⟩ := snapshot_retaining (limits budget .stderr) (bytesOf .stderr offers)
  rw [← stream_forBudget] at hstdout hstderr
  refine ⟨⟨stdout, stderr⟩, ?_, hout, herr⟩
  unfold PayloadRetention.snapshot
  simp only [PayloadRetention.stream] at hstdout hstderr
  rw [hstdout, hstderr]
  rfl

/-- A limited stream keeps no more than its limits, and no less unless it produced less. -/
theorem Retains.kept {limits : StreamRetentionBudget} {bytes : Bytes}
    {stream : RetainedPayloadStream} (h : Retains (some limits) bytes stream) :
    stream.head.length + stream.tail.length =
      min bytes.length (limits.headBytes + limits.tailBytes) := by
  have htail : stream.tail.length = min limits.tailBytes (bytes.length - stream.head.length) := by
    rw [h.tail limits rfl, length_rtake]
    omega
  have hhead : stream.head.length = min limits.headBytes bytes.length := by
    rw [h.head limits rfl, List.length_take]
    omega
  omega

/-- **Payload retention is exact.** -/
theorem retention_exact (budget : OutputBudget) (offers : List (PayloadStream × Bytes)) :
    let retention := (PayloadRetention.forBudget budget).offerAll offers
    (∃ outputs, retention.snapshot = .ok outputs ∧
      Retains (limits budget .stdout) (bytesOf .stdout offers) outputs.stdout ∧
      Retains (limits budget .stderr) (bytesOf .stderr offers) outputs.stderr ∧
      (∀ output, budget = .finite output → keptBytes outputs ≤ output.maxBytes) ∧
      (retention.overflowed = true →
        0 < outputs.stdout.droppedBytes ∨ 0 < outputs.stderr.droppedBytes)) ∧
    (∀ others stream, bytesOf stream others = bytesOf stream offers →
      (((PayloadRetention.forBudget budget).offerAll others).stream stream).snapshot =
        (retention.stream stream).snapshot) ∧
    (retention.overflowed = true ↔ ∃ output, budget = .finite output ∧
      (output.maxBytes : ℕ) < (bytesOf .stdout offers).length + (bytesOf .stderr offers).length) ∧
    ∀ later, retention.overflowed = true → (retention.offerAll later).overflowed = true := by
  intro retention
  obtain ⟨outputs, hsnapshot, hout, herr⟩ := snapshot_forBudget budget offers
  refine ⟨⟨outputs, hsnapshot, hout, herr, ?_, ?_⟩, ?_, overflowed_iff budget offers, ?_⟩
  · rintro output rfl
    have hstdout := Retains.kept hout
    have hstderr := Retains.kept herr
    have hmax := output.retention_must_match_max_bytes
    unfold PayloadRetentionBudget.retainedBytes at hmax
    unfold keptBytes
    omega
  · intro hoverflowed
    obtain ⟨output, rfl, hover⟩ := (overflowed_iff budget offers).mp hoverflowed
    have hstdout := Retains.kept hout
    have hstderr := Retains.kept herr
    have hmax := output.retention_must_match_max_bytes
    unfold PayloadRetentionBudget.retainedBytes at hmax
    have hsumout := outputs.stdout.retained_and_dropped_bytes_must_equal_produced_bytes
    have hsumerr := outputs.stderr.retained_and_dropped_bytes_must_equal_produced_bytes
    rw [hout.produced] at hsumout
    rw [herr.produced] at hsumerr
    omega
  · intro others stream hbytes
    rw [stream_forBudget, stream_forBudget, hbytes]
  · intro later hoverflowed
    rw [← offerAll_append]
    exact overflowed_append later hoverflowed

end DrExec.Execution.Retention
