import DrExec.Lib.Transition
import DrExec.Runtime.Protocol
import Mathlib.Algebra.GroupWithZero.Nat

/-! # The sizes of the reads

How much the frame acquisition asks its reader for. A pass of `next_frame` is one step, and the
frames taken out of the buffer are kept beside the acquisition, the one that a budget refuses
included. At every fill each term of `_read_size` is at least one byte, so its clamp never decides;
the buffer and the count of received bytes stay within one byte of their budgets, and what was
received is what the frames took and what the buffer holds (`read_sizes`). -/

namespace DrExec.Runtime.ReadSize

open DrExec.Lib DrExec.Lib.Lines DrExec.Lib.Transition DrExec.Runtime.Wire DrExec.Runtime.Protocol
open DrExec.Runtime.Protocol.FrameAcquisition

/-! ### The terms -/

/-- The numbers of which `_read_size` takes the least. -/
def readSizeTerms (a : FrameAcquisition) : List ℤ :=
  (chunkBytes : ℤ) ::
    ((a.maxFrameBytes.map fun limit : ℕ => (limit : ℤ) + 1 - a.buffer.length).toList ++
      (a.maxTotalBytes.map fun limit : ℕ => (limit : ℤ) + 1 - a.bytesReceived).toList)

/-- `next_frame` is about to call `_fill`. -/
structure AtFill (a : FrameAcquisition) : Prop where
  unfound : protocolFrameTerminator ∉ a.buffer
  within : ¬ Exceeds a.maxFrameBytes a.buffer.length
  open' : a.atEof = false

/-- The size is a term, and the least one. -/
def Unclamped (a : FrameAcquisition) : Prop :=
  (a.readSize : ℤ) ∈ readSizeTerms a ∧ ∀ term ∈ readSizeTerms a, (a.readSize : ℤ) ≤ term

/-- Within both budgets no term is below one. -/
theorem one_le_of_mem_readSizeTerms {a : FrameAcquisition}
    (hframe : ¬ Exceeds a.maxFrameBytes a.buffer.length)
    (htotal : ¬ Exceeds a.maxTotalBytes a.bytesReceived) :
    ∀ term ∈ readSizeTerms a, 1 ≤ term := by
  obtain ⟨reader, frame, total, buffer, atEof, received⟩ := a
  unfold readSizeTerms chunkBytes
  rcases frame with _ | frame <;> rcases total with _ | total <;> simp at hframe htotal ⊢ <;> omega

theorem unclamped {a : FrameAcquisition} (h : ∀ term ∈ readSizeTerms a, 1 ≤ term) :
    Unclamped a := by
  obtain ⟨least, hleast⟩ : ∃ least, (readSizeTerms a).min? = some least := ⟨_, List.min?_cons'⟩
  obtain ⟨hmem, hle⟩ := List.min?_eq_some_iff.mp hleast
  have hsize : a.readSize = (max 1 least).toNat := by
    rw [← Option.some.inj (List.min?_cons'.symm.trans hleast)]
    rfl
  have hcast : (a.readSize : ℤ) = least := by
    have hone := h least hmem
    rw [hsize]
    omega
  rw [Unclamped, hcast]
  exact ⟨hmem, hle⟩

/-- A read returns no more than it was asked for. -/
theorem fillSize_le_readSize (a : FrameAcquisition) : a.fillSize ≤ a.readSize := by
  have hpos : 1 ≤ a.readSize := (Int.toNat_le_toNat (le_max_left _ _) : (1 : ℤ).toNat ≤ _)
  unfold fillSize
  omega

/-- So a read goes at most one byte beyond a budget. -/
theorem fillSize_bounds {a : FrameAcquisition} (hframe : ¬ Exceeds a.maxFrameBytes a.buffer.length)
    (htotal : ¬ Exceeds a.maxTotalBytes a.bytesReceived) :
    (∀ limit, a.maxFrameBytes = some limit → a.fillSize + a.buffer.length ≤ limit + 1) ∧
      ∀ limit, a.maxTotalBytes = some limit → a.fillSize + a.bytesReceived ≤ limit + 1 :=
  ((le_roomFor_iff hframe htotal).mp (fillSize_le_readSize a)).2

/-! ### Passes, and what they take -/

/-- The frame that a pass takes out of the buffer. -/
def taken (a : FrameAcquisition) : Option Bytes :=
  (a.buffer.idxOf? protocolFrameTerminator).map fun terminator => a.buffer.take terminator

/-- An acquisition in use: the frames taken so far, and the violation of the last pass. -/
structure Acquiring where
  acquisition : FrameAcquisition
  frames : List Bytes := []
  raised : Option ProtocolViolation := none

/-- One pass of `next_frame`; there is none after the total budget is exceeded. -/
def pass (afterCompletion : Bool) (x : Acquiring) : Option Acquiring :=
  if x.raised = some totalBudgetExceeded then none
  else
    let frames := x.frames ++ (taken x.acquisition).toList
    match x.acquisition.nextFramePass afterCompletion with
    | .inl (a, .error violation) => some ⟨a, frames, some violation⟩
    | .inl (a, .ok _) => some ⟨a, frames, none⟩
    | .inr a => some ⟨a, frames, none⟩

/-- The bytes of the frames, their terminators included. -/
def frameBytes (frames : List Bytes) : ℕ := (frames.map fun frame => frame.length + 1).sum

theorem taken_of_line {a : FrameAcquisition} {line rest : Bytes}
    (hbuffer : a.buffer = line ++ protocolFrameTerminator :: rest)
    (hline : protocolFrameTerminator ∉ line) : taken a = some line := by
  rw [taken, hbuffer, idxOf?_line hline, Option.map_some, List.take_left]

theorem taken_of_unfound {a : FrameAcquisition} (h : protocolFrameTerminator ∉ a.buffer) :
    taken a = none := by
  rw [taken, List.idxOf?_eq_none_iff.mpr h, Option.map_none]

theorem taken_of_goes {a a' : FrameAcquisition} {afterCompletion : Bool}
    (h : a.nextFramePass afterCompletion = .inr a') : taken a = none := by
  refine taken_of_unfound fun hmem => ?_
  obtain ⟨line, rest, hsplit, hline⟩ := List.eq_append_cons_of_mem hmem
  rw [nextFramePass, hsplit, idxOf?_line hline] at h
  dsimp only at h
  split at h <;> cases h

/-! ### The books of the acquisition -/

/-- What holds of the acquisition with these budgets between any two passes. -/
structure Books (maxFrameBytes maxTotalBytes : Option ℕ) (x : Acquiring) : Prop where
  frame_eq : x.acquisition.maxFrameBytes = maxFrameBytes
  total_eq : x.acquisition.maxTotalBytes = maxTotalBytes
  buffered : ∀ limit, maxFrameBytes = some limit → x.acquisition.buffer.length ≤ limit + 1
  received : ∀ limit, maxTotalBytes = some limit → x.acquisition.bytesReceived ≤ limit + 1
  within : x.raised ≠ some totalBudgetExceeded →
    ¬ Exceeds maxTotalBytes x.acquisition.bytesReceived
  accounted : x.raised ≠ some totalBudgetExceeded →
    x.acquisition.bytesReceived = frameBytes x.frames + x.acquisition.buffer.length

theorem frameBytes_append (frames more : List Bytes) :
    frameBytes (frames ++ more) = frameBytes frames + frameBytes more := by
  simp [frameBytes]

section Passes

variable {maxFrameBytes maxTotalBytes : Option ℕ} {x y : Acquiring} {afterCompletion : Bool}

/-- A frame moves from the buffer to those taken. -/
theorem Books.take (h : Books maxFrameBytes maxTotalBytes x)
    (hraised : x.raised ≠ some totalBudgetExceeded) {line rest : Bytes}
    (hbuffer : x.acquisition.buffer = line ++ protocolFrameTerminator :: rest)
    (violation : Option ProtocolViolation) :
    Books maxFrameBytes maxTotalBytes
      ⟨{ x.acquisition with buffer := rest }, x.frames ++ [line], violation⟩ := by
  have hlength : x.acquisition.buffer.length = line.length + (rest.length + 1) := by
    rw [hbuffer, List.length_append, List.length_cons]
  have haccounted := h.accounted hraised
  refine ⟨h.frame_eq, h.total_eq, fun limit hlimit => ?_, h.received, fun _ => h.within hraised,
    fun _ => ?_⟩
  · have hbuffered := h.buffered limit hlimit
    dsimp only
    omega
  · rw [frameBytes_append]
    simp only [frameBytes, List.map_cons, List.map_nil, List.sum_cons, List.sum_nil] at haccounted ⊢
    omega

/-- What is raised, or not, is no matter while the acquisition is within its total budget. -/
theorem Books.raise (h : Books maxFrameBytes maxTotalBytes x)
    (hraised : x.raised ≠ some totalBudgetExceeded) (violation : Option ProtocolViolation) :
    Books maxFrameBytes maxTotalBytes ⟨x.acquisition, x.frames, violation⟩ :=
  ⟨h.frame_eq, h.total_eq, h.buffered, h.received, fun _ => h.within hraised,
    fun _ => h.accounted hraised⟩

/-- A fill keeps the books, and so does the one that goes beyond the total budget. -/
theorem Books.fill (h : Books maxFrameBytes maxTotalBytes x)
    (hraised : x.raised ≠ some totalBudgetExceeded)
    (hwithin : ¬ Exceeds x.acquisition.maxFrameBytes x.acquisition.buffer.length) :
    (¬ Exceeds x.acquisition.maxTotalBytes (x.acquisition.bytesReceived + x.acquisition.fillSize) →
      Books maxFrameBytes maxTotalBytes
        ⟨{ x.acquisition.afterRead with
            buffer := x.acquisition.buffer ++
              x.acquisition.reader.unread.take x.acquisition.fillSize },
          x.frames, none⟩) ∧
      Books maxFrameBytes maxTotalBytes
        ⟨x.acquisition.afterRead, x.frames, some totalBudgetExceeded⟩ := by
  have htotal := h.within hraised
  obtain ⟨hframe', htotal'⟩ := fillSize_bounds hwithin (by rwa [h.total_eq])
  rw [h.frame_eq] at hframe'
  rw [h.total_eq] at htotal'
  have hreceived : ∀ limit, maxTotalBytes = some limit →
      x.acquisition.bytesReceived + x.acquisition.fillSize ≤ limit + 1 := fun limit hlimit => by
    have hroom := htotal' limit hlimit
    omega
  have hchunk : (x.acquisition.reader.unread.take x.acquisition.fillSize).length =
      x.acquisition.fillSize := by simp [fillSize]
  constructor
  · intro hexceeds
    refine ⟨h.frame_eq, h.total_eq, fun limit hlimit => ?_, hreceived, fun _ => ?_, fun _ => ?_⟩
    · have hroom := hframe' limit hlimit
      simp only [List.length_append, hchunk]
      omega
    · rwa [h.total_eq] at hexceeds
    · have haccounted := h.accounted hraised
      simp only [afterRead, List.length_append, hchunk]
      omega
  · exact ⟨h.frame_eq, h.total_eq, h.buffered, hreceived, fun hne => absurd rfl hne,
      fun hne => absurd rfl hne⟩

/-- **One pass keeps the books.** -/
theorem Books.pass (h : Books maxFrameBytes maxTotalBytes x)
    (hpass : pass afterCompletion x = some y) : Books maxFrameBytes maxTotalBytes y := by
  unfold ReadSize.pass at hpass
  split_ifs at hpass with hraised
  rcases nextFramePass_cases afterCompletion x.acquisition with
    ⟨r, hr, hleaves⟩ | ⟨a, ha, hgoes⟩
  · rw [hr] at hpass
    cases hleaves with
    | frame line rest hbuffer hline =>
      rw [taken_of_line hbuffer hline] at hpass
      obtain rfl := Option.some.inj hpass
      exact h.take hraised hbuffer none
    | longFrame line rest hbuffer hline =>
      rw [taken_of_line hbuffer hline] at hpass
      obtain rfl := Option.some.inj hpass
      exact h.take hraised hbuffer _
    | longBuffer hbuffer =>
      rw [taken_of_unfound hbuffer, Option.toList_none, List.append_nil] at hpass
      obtain rfl := Option.some.inj hpass
      exact h.raise hraised _
    | unterminated hbuffer =>
      rw [taken_of_unfound hbuffer, Option.toList_none, List.append_nil] at hpass
      obtain rfl := Option.some.inj hpass
      exact h.raise hraised _
    | atEnd _ hbuffer =>
      rw [taken_of_unfound (by simp [hbuffer]), Option.toList_none, List.append_nil] at hpass
      obtain rfl := Option.some.inj hpass
      exact h.raise hraised _
    | total hbuffer hwithin =>
      rw [taken_of_unfound hbuffer, Option.toList_none, List.append_nil] at hpass
      obtain rfl := Option.some.inj hpass
      exact (h.fill hraised hwithin).2
  · rw [taken_of_goes ha, Option.toList_none, List.append_nil, ha] at hpass
    obtain rfl := Option.some.inj hpass
    cases hgoes with
    | atEnd =>
      exact ⟨h.frame_eq, h.total_eq, h.buffered, h.received, fun _ => h.within hraised,
        fun _ => h.accounted hraised⟩
    | filled _ hwithin _ _ hexceeds => exact (h.fill hraised hwithin).1 hexceeds

end Passes

/-! ### Every run of passes -/

/-- An acquisition that has read nothing. -/
def start (reader : Reader) (maxFrameBytes maxTotalBytes : Option ℕ) : Acquiring :=
  ⟨{ reader := reader, maxFrameBytes := maxFrameBytes, maxTotalBytes := maxTotalBytes }, [], none⟩

/-- The next pass reaches `_fill`. -/
def Fills (x : Acquiring) : Prop := x.raised ≠ some totalBudgetExceeded ∧ AtFill x.acquisition

/-- What the arithmetic of `_read_size` promises, with these budgets. -/
structure Exact (maxFrameBytes maxTotalBytes : Option ℕ) (x : Acquiring) : Prop where
  terms : Fills x → ∀ term ∈ readSizeTerms x.acquisition, 1 ≤ term
  unclamped : Fills x → Unclamped x.acquisition
  buffered : ∀ limit, maxFrameBytes = some limit → x.acquisition.buffer.length ≤ limit + 1
  received : ∀ limit, maxTotalBytes = some limit → x.acquisition.bytesReceived ≤ limit + 1
  accounted : x.raised ≠ some totalBudgetExceeded →
    x.acquisition.bytesReceived = frameBytes x.frames + x.acquisition.buffer.length

variable {maxFrameBytes maxTotalBytes : Option ℕ} {reader : Reader} {x : Acquiring}

theorem books_start (reader : Reader) (maxFrameBytes maxTotalBytes : Option ℕ) :
    Books maxFrameBytes maxTotalBytes (start reader maxFrameBytes maxTotalBytes) := by
  refine ⟨rfl, rfl, fun limit _ => Nat.zero_le _, fun limit _ => Nat.zero_le _, fun _ => ?_,
    fun _ => rfl⟩
  cases maxTotalBytes <;> simp [start, Exceeds]

theorem books (h : Reachable pass (start reader maxFrameBytes maxTotalBytes) x) :
    Books maxFrameBytes maxTotalBytes x :=
  h.invariant (books_start reader maxFrameBytes maxTotalBytes) fun _ _ _ _ hu _ hs => hu.pass hs

/-- **The sizes of the reads**, whatever the budgets, the stream and its chunks: at every fill no
term is below one and the least of them is the size; the buffer and the received bytes are at most
one byte beyond their budgets; and until the total budget is exceeded, the frames taken and the
buffer make up what was received. -/
theorem read_sizes (h : Reachable pass (start reader maxFrameBytes maxTotalBytes) x) :
    Exact maxFrameBytes maxTotalBytes x := by
  have hbooks := books h
  have hterms : Fills x → ∀ term ∈ readSizeTerms x.acquisition, 1 ≤ term := by
    rintro ⟨hraised, hfill⟩
    have htotal := hbooks.within hraised
    rw [← hbooks.total_eq] at htotal
    exact one_le_of_mem_readSizeTerms hfill.within htotal
  exact ⟨hterms, fun hfill => ReadSize.unclamped (hterms hfill), hbooks.buffered, hbooks.received,
    hbooks.accounted⟩

/-- A stream of one frame and a bit, read in chunks of at most two bytes. -/
def twoChunks : Acquiring := start ⟨[1, 2, 10, 3], fun _ => 2, 0⟩ (some 2) (some 9)

/-- Its third pass takes the frame, and the fill after that asks for three bytes. -/
theorem twoChunks_exact :
    ∃ x, exec pass [false, false, false] twoChunks = some x ∧ x.frames = [[1, 2]] ∧
      x.acquisition.readSize = 3 ∧ Exact (some 2) (some 9) x := by
  refine ⟨_, rfl, by decide, by decide, ?_⟩
  have hreach : ∀ x, exec pass [false, false, false] twoChunks = some x →
      Reachable pass twoChunks x := fun _ => Reach.of_exec _ fun _ _ => trivial
  exact read_sizes (hreach _ rfl)

/-! ### The reader's own passes -/

section Reading

variable {afterCompletion : Bool}

theorem pass_of_leaves (hraised : x.raised ≠ some totalBudgetExceeded) {a : FrameAcquisition}
    {result : Except ProtocolViolation (Option Bytes)}
    (h : x.acquisition.nextFramePass afterCompletion = .inl (a, result)) :
    ∃ y, pass afterCompletion x = some y ∧ y.acquisition = a ∧
      ∀ frame, result = .ok frame → y.raised = none := by
  unfold pass
  rw [if_neg hraised, h]
  rcases result with violation | frame
  · exact ⟨_, rfl, rfl, nofun⟩
  · exact ⟨_, rfl, rfl, fun _ _ => rfl⟩

theorem pass_of_goes (hraised : x.raised ≠ some totalBudgetExceeded) {a : FrameAcquisition}
    (h : x.acquisition.nextFramePass afterCompletion = .inr a) :
    ∃ y, pass afterCompletion x = some y ∧ y.acquisition = a ∧ y.raised = none := by
  unfold pass
  rw [if_neg hraised, h]
  exact ⟨_, rfl, rfl, rfl⟩

/-- A call of `next_frame` is a run of passes. -/
theorem nextFrame_reaches (hraised : x.raised ≠ some totalBudgetExceeded)
    (afterCompletion : Bool) :
    ∃ y, Reachable pass x y ∧ y.acquisition = (x.acquisition.nextFrame afterCompletion).1 ∧
      ∀ frame, (x.acquisition.nextFrame afterCompletion).2 = .ok frame → y.raised = none := by
  refine Loop.run_rule (nextFrameLoop afterCompletion)
    (I := fun b => ∃ y, Reachable pass x y ∧ y.acquisition = b ∧
      y.raised ≠ some totalBudgetExceeded)
    (Q := fun r => ∃ y, Reachable pass x y ∧ y.acquisition = r.1 ∧
      ∀ frame, r.2 = .ok frame → y.raised = none)
    ⟨x, .refl, rfl, hraised⟩ ?_ ?_
  · rintro b ⟨a, result⟩ ⟨y, hy, rfl, hyraised⟩ hleaves
    obtain ⟨z, hz, ha, hok⟩ := pass_of_leaves hyraised hleaves
    exact ⟨z, hy.tail trivial hz, ha, hok⟩
  · rintro b a ⟨y, hy, rfl, hyraised⟩ hgoes
    obtain ⟨z, hz, ha, hnone⟩ := pass_of_goes hyraised hgoes
    exact ⟨z, hy.tail trivial hz, ha, by simp [hnone]⟩

/-- A stream is left with the count of the acquisition. -/
theorem bytesReceived_of_leaves {C : Codec} {maxDepth : Option ℕ} {a : FrameAcquisition}
    {s : StreamState} {r : ProtocolStreamResult} (h : readPass C maxDepth (a, s) = .inl r) :
    r.bytesReceived = (a.nextFrame s.completed).1.bytesReceived := by
  rw [readPass] at h
  generalize a.nextFrame s.completed = next at h ⊢
  rcases next with ⟨a', violation | _ | frame⟩
  · rw [← Sum.inl.inj h]
  · rw [← Sum.inl.inj h]
  · dsimp only at h
    split_ifs at h
    · rw [← Sum.inl.inj h]
    · split at h
      · rw [← Sum.inl.inj h]
      · split at h
        · rw [← Sum.inl.inj h]
        · cases h

end Reading

/-- **What `read_protocol_stream` acquires is a run of passes**, and it reports the bytes received
by the last of them. -/
theorem readProtocolStream_reaches (C : Codec) (reader : Reader) (requestIdSha256 : Str)
    (selfBudgets : ExecutorSelfBudgets) :
    ∃ x, Reachable pass (start reader selfBudgets.protocolFrameBytes.limit
        selfBudgets.protocolTotalBytes.limit) x ∧
      (readProtocolStream C reader requestIdSha256 selfBudgets).bytesReceived =
        x.acquisition.bytesReceived := by
  refine Loop.run_rule (readLoop C selfBudgets.jsonDepth.limit)
    (I := fun b => ∃ x, Reachable pass (start reader selfBudgets.protocolFrameBytes.limit
        selfBudgets.protocolTotalBytes.limit) x ∧ x.acquisition = b.1 ∧
      x.raised ≠ some totalBudgetExceeded)
    (Q := fun r => ∃ x, Reachable pass (start reader selfBudgets.protocolFrameBytes.limit
        selfBudgets.protocolTotalBytes.limit) x ∧ r.bytesReceived = x.acquisition.bytesReceived)
    ⟨_, .refl, rfl, nofun⟩ ?_ ?_
  · rintro ⟨a, s⟩ r ⟨x, hx, rfl, hraised⟩ hleaves
    obtain ⟨y, hy, hya, -⟩ := nextFrame_reaches hraised s.completed
    exact ⟨y, hx.trans hy, by rw [hya]; exact bytesReceived_of_leaves hleaves⟩
  · rintro ⟨a, s⟩ ⟨a', s'⟩ ⟨x, hx, rfl, hraised⟩ hgoes
    have hpass : readPass C selfBudgets.jsonDepth.limit (x.acquisition, s) = .inr (a', s') := hgoes
    obtain ⟨frame, hnext⟩ := readPass_goes hpass
    obtain ⟨y, hy, hya, hok⟩ := nextFrame_reaches hraised s.completed
    rw [hnext] at hya hok
    exact ⟨y, hx.trans hy, hya, by simp [hok _ rfl]⟩

end DrExec.Runtime.ReadSize
