import DrExec.Lib.Json
import DrExec.Lib.Sink

/-! # The raw writers

Four places write to a descriptor without a buffer, and the system may accept a part of what a write
offers. `_feed` of `execution/engine.py` goes on with the rest. The pump's forward there,
`_Worker.send` of `execution/worker_pool.py` and `_write_frame` of `execution/worker_pool_worker.py`
do not look at the count, so they lose nothing exactly where their writes are accepted whole
(`writers_lossless_iff`). -/

namespace DrExec.Execution.RawWriters

open DrExec.Lib

/-! ### Feeding the payload's input -/

/-- What one `select` of `_feed` shows as ready. -/
structure Ready where
  release : Bool
  descriptor : Bool
  deriving DecidableEq, Repr

/-- How far `_feed` is: still selecting, returned because nothing is left or because it was
released, or raised. -/
inductive FeedEnd
  | selecting
  | returned
  | released
  | raised
  deriving DecidableEq, Repr

/-- `_feed` from an offset on, over what its selects show: how far it is, and what the descriptor
accepted since. -/
def feed (S : Sink) (payload : List UInt8) : List Ready → ℕ → ℕ → FeedEnd × List UInt8
  | [], offset, _ => (if offset < payload.length then .selecting else .returned, [])
  | ready :: selects, offset, call =>
    if offset < payload.length then
      if ready.release then (.released, [])
      else if ready.descriptor then
        match S.answer call (payload.drop offset).length with
        | .ok count =>
          let (ended, kept) := feed S payload selects (offset + count) (call + 1)
          (ended, (payload.drop offset).take count ++ kept)
        | .error .wouldBlock => feed S payload selects offset (call + 1)
        | .error .failed => (.raised, [])
      else feed S payload selects offset call
    else (.returned, [])

/-! ### The other three -/

/-- The forward of `_pump`, chunk by chunk: every `OSError` is suppressed. -/
def forward (S : Sink) (chunks : List (List UInt8)) : ℕ → List (List UInt8) × List UInt8 :=
  S.relay (fun _ => false) chunks

/-- A raw file's `write` gives `None` where it would block, and raises any other error. -/
def rawFileRaises : WriteError → Bool
  | .wouldBlock => false
  | .failed => true

/-- `_Worker.send`, frame by frame, up to the first `_WorkerDied`. -/
def send (S : Sink) (frames : List (List UInt8)) : ℕ → List (List UInt8) × List UInt8 :=
  S.relay rawFileRaises frames

/-- `_write_frame`, frame by frame, up to the first `OSError`. -/
def writeFrame (S : Sink) (frames : List (List UInt8)) : ℕ → List (List UInt8) × List UInt8 :=
  S.relay rawFileRaises frames

/-! ### What they lose -/

/-- What was told of as written is what the descriptor has. -/
def Lossless (written : List (List UInt8) × List UInt8) : Prop := written.2 = written.1.flatten

instance (written : List (List UInt8) × List UInt8) : Decidable (Lossless written) :=
  inferInstanceAs (Decidable (_ = _))

/-- What `_feed` does: what the descriptor accepted is a first part of the payload, and all of it
where `_feed` returned. It returns before that only where it is released. A descriptor that answers
every write, of however many bytes, is fed the whole payload within as many writes as that has
bytes. -/
structure Feeds (S : Sink) (payload : List UInt8) (selects : List Ready) (call : ℕ) : Prop where
  inOrder : (feed S payload selects 0 call).2 <+: payload
  whole : (feed S payload selects 0 call).1 = .returned → (feed S payload selects 0 call).2 = payload
  released : (feed S payload selects 0 call).1 = .released → ∃ ready ∈ selects, ready.release = true
  answered : (∀ ready ∈ selects, ready.release = false) →
    (∀ call offered, ∃ count, S.answer call offered = .ok count) →
    payload.length ≤ selects.countP Ready.descriptor → (feed S payload selects 0 call).1 = .returned

variable {S : Sink} {payload : List UInt8} {selects : List Ready}

/-- **One select of `_feed`**: it is over; or released, or raised; or nothing is written; or the
descriptor accepts a first part of what is left. -/
theorem feed_cases (S : Sink) (payload : List UInt8) (ready : Ready) (selects : List Ready)
    (offset call : ℕ) :
    (payload.length ≤ offset ∧ feed S payload (ready :: selects) offset call = (.returned, [])) ∨
    (ready.release = true ∧ feed S payload (ready :: selects) offset call = (.released, [])) ∨
    (S.answer call (payload.drop offset).length = .error .failed ∧
      feed S payload (ready :: selects) offset call = (.raised, [])) ∨
    (((∃ error, S.answer call (payload.drop offset).length = .error error) ∨
        ready.descriptor = false) ∧
      ∃ call', feed S payload (ready :: selects) offset call = feed S payload selects offset call') ∨
    ∃ count, S.answer call (payload.drop offset).length = .ok count ∧ offset < payload.length ∧
      feed S payload (ready :: selects) offset call =
        ((feed S payload selects (offset + count) (call + 1)).1, (payload.drop offset).take count ++
          (feed S payload selects (offset + count) (call + 1)).2) := by
  rw [feed]
  split_ifs with hleft hrelease hdescriptor
  · exact .inr (.inl ⟨hrelease, rfl⟩)
  · rcases hanswer : S.answer call (payload.drop offset).length with (_ | _) | count
    · exact .inr (.inr (.inr (.inl ⟨.inl ⟨_, rfl⟩, _, rfl⟩)))
    · exact .inr (.inr (.inl ⟨rfl, rfl⟩))
    · exact .inr (.inr (.inr (.inr ⟨count, rfl, hleft, rfl⟩)))
  · exact .inr (.inr (.inr (.inl ⟨.inr (Bool.eq_false_iff.mpr hdescriptor), _, rfl⟩)))
  · exact .inl ⟨Nat.le_of_not_lt hleft, rfl⟩

/-- **What `_feed` hands over** is the start of what is left, and all of it where it returns. -/
theorem feed_inOrder (offset call : ℕ) :
    (feed S payload selects offset call).2 <+: payload.drop offset ∧
      ((feed S payload selects offset call).1 = .returned →
        (feed S payload selects offset call).2 = payload.drop offset) := by
  induction selects generalizing offset call with
  | nil =>
    refine ⟨List.nil_prefix, fun hreturned => ?_⟩
    rw [feed] at hreturned
    dsimp only at hreturned
    split_ifs at hreturned with hleft
    exact (List.drop_eq_nil_of_le (Nat.le_of_not_lt hleft)).symm
  | cons ready selects ih =>
    rcases feed_cases S payload ready selects offset call with ⟨hover, he⟩ | ⟨-, he⟩ | ⟨-, he⟩ |
      ⟨-, call', he⟩ | ⟨count, hanswer, -, he⟩
    · rw [he]
      exact ⟨List.nil_prefix, fun _ => (List.drop_eq_nil_of_le hover).symm⟩
    · rw [he]
      exact ⟨List.nil_prefix, nofun⟩
    · rw [he]
      exact ⟨List.nil_prefix, nofun⟩
    · rw [he]
      exact ih offset call'
    · obtain ⟨hsent, hwhole⟩ := ih (offset + count) (call + 1)
      rw [he]
      have hsplit : (payload.drop offset).take count ++ payload.drop (offset + count) =
          payload.drop offset := by rw [← List.drop_drop, List.take_append_drop]
      refine ⟨?_, fun hreturned => ?_⟩
      · have hmore := (List.prefix_append_right_inj ((payload.drop offset).take count)).mpr hsent
        rw [hsplit] at hmore
        exact hmore
      · exact (congrArg _ (hwhole hreturned)).trans hsplit

theorem feed_released {offset call : ℕ} (h : (feed S payload selects offset call).1 = .released) :
    ∃ ready ∈ selects, ready.release = true := by
  induction selects generalizing offset call with
  | nil =>
    rw [feed] at h
    dsimp only at h
    split_ifs at h
  | cons ready selects ih =>
    have hlater : (∃ offset' call', (feed S payload selects offset' call').1 = .released) →
        ∃ r ∈ ready :: selects, r.release = true := by
      rintro ⟨offset', call', hreleased⟩
      obtain ⟨r, hmem, hr⟩ := ih hreleased
      exact ⟨r, List.mem_cons_of_mem _ hmem, hr⟩
    rcases feed_cases S payload ready selects offset call with ⟨-, he⟩ | ⟨hrelease, -⟩ | ⟨-, he⟩ |
      ⟨-, call', he⟩ | ⟨count, -, -, he⟩
    · rw [he] at h
      cases h
    · exact ⟨ready, List.mem_cons_self, hrelease⟩
    · rw [he] at h
      cases h
    · rw [he] at h
      exact hlater ⟨_, _, h⟩
    · rw [he] at h
      exact hlater ⟨_, _, h⟩

/-- **Every ready descriptor moves `_feed` on** by a byte at least. -/
theorem feed_answered {offset call : ℕ} (hrelease : ∀ ready ∈ selects, ready.release = false)
    (hanswers : ∀ call offered, ∃ count, S.answer call offered = .ok count)
    (h : payload.length ≤ offset + selects.countP Ready.descriptor) :
    (feed S payload selects offset call).1 = .returned := by
  induction selects generalizing offset call with
  | nil =>
    rw [feed, if_neg (by simpa using h)]
  | cons ready selects ih =>
    have hrest := fun r hmem => hrelease r (List.mem_cons_of_mem _ hmem)
    obtain ⟨answered, hok⟩ := hanswers call (payload.drop offset).length
    rw [List.countP_cons] at h
    rcases feed_cases S payload ready selects offset call with ⟨-, he⟩ | ⟨hreleased, -⟩ |
      ⟨hfailed, -⟩ | ⟨⟨error, herror⟩ | hdescriptor, call', he⟩ | ⟨count, hanswer, hleft, he⟩
    · rw [he]
    · rw [hrelease ready List.mem_cons_self] at hreleased
      cases hreleased
    · rw [hok] at hfailed
      cases hfailed
    · rw [hok] at herror
      cases herror
    · rw [hdescriptor, if_neg Bool.false_ne_true] at h
      rw [he]
      exact ih hrest h
    · have hpos := S.accepted_pos (by rw [List.length_drop]; omega) hanswer
      rw [he]
      refine ih hrest ?_
      split_ifs at h <;> omega

/-- **The raw writers lose nothing silently, `_feed` whatever is accepted of a write, and the other
three exactly where each of their writes is accepted whole.** -/
theorem writers_lossless_iff (S : Sink) :
    (∀ payload selects call, Feeds S payload selects call) ∧
      (∀ chunks call, Lossless (forward S chunks call) ↔
        S.AcceptsWhole (fun _ => false) chunks call) ∧
      (∀ frames call, Lossless (send S frames call) ↔ S.AcceptsWhole rawFileRaises frames call) ∧
      (∀ frames call, Lossless (writeFrame S frames call) ↔
        S.AcceptsWhole rawFileRaises frames call) :=
  ⟨fun payload selects call =>
      { inOrder := (feed_inOrder 0 call).1
        whole := (feed_inOrder 0 call).2
        released := feed_released
        answered := fun hrelease hanswers h => feed_answered hrelease hanswers (by omega) },
    fun chunks call => S.relay_kept_iff _ chunks call,
    fun frames call => S.relay_kept_iff _ frames call,
    fun frames call => S.relay_kept_iff _ frames call⟩

/-- A sink that accepts a byte of each write. -/
def byteByByte : Sink where
  answer _ offered := .ok (min 1 offered)
  accepted_le h := by
    cases h
    exact Nat.min_le_right ..
  accepted_pos hpos h := by
    cases h
    exact Nat.lt_min.mpr ⟨Nat.one_pos, hpos⟩

/-- **A request of two bytes, of which the pipe accepts one, is sent without its second byte, and
the next one comes right after.** -/
theorem send_drops :
    send byteByByte [[123, 10], [125, 10]] 0 = ([[123, 10], [125, 10]], [123, 125]) ∧
      ¬ Lossless (send byteByByte [[123, 10], [125, 10]] 0) := by
  decide

end DrExec.Execution.RawWriters
