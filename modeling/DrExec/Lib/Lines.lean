import Mathlib.Data.List.Basic
import Mathlib.Data.List.Induction
import Mathlib.Tactic.Common

/-! # Scanning terminated lines

A stream of symbols is cut into lines by a terminator. A `Scanner` takes the lines one after the
other with `accept`, which changes a state and may refuse the line, and refuses a line that grows
longer than `limit` without waiting for its end. `scan` feeds it symbol by symbol, so that
scanning a stream in pieces is scanning it at once (`scan_append`); `scan_eq_reading_iff` says what
has been scanned without a refusal: accepted lines, each with its terminator, then the unfinished
line. A reader that is handed the stream in pieces joins the same lines from any of them
(`reassemble_eq`). -/

namespace DrExec.Lib.Lines

/-- A finite limit that `n` is above; there is no such thing as too much where no limit is set. -/
def Exceeds : Option ℕ → ℕ → Prop
  | none, _ => False
  | some limit, n => limit < n

instance : ∀ limit n, Decidable (Exceeds limit n)
  | none, _ => inferInstanceAs (Decidable False)
  | some limit, n => inferInstanceAs (Decidable (limit < n))

@[simp] theorem not_exceeds_none (n : ℕ) : ¬ Exceeds none n := id

@[simp] theorem exceeds_some (limit n : ℕ) : Exceeds (some limit) n ↔ limit < n := Iff.rfl

@[simp] theorem not_exceeds_zero (limit : Option ℕ) : ¬ Exceeds limit 0 := by
  cases limit <;> simp

theorem Exceeds.mono {limit : Option ℕ} {n m : ℕ} (h : Exceeds limit n) (hnm : n ≤ m) :
    Exceeds limit m := by
  cases limit with
  | none => exact h
  | some limit => exact Nat.lt_of_lt_of_le h hnm

/-- The first terminator of a stream stands behind its first line. -/
theorem idxOf?_line {α : Type*} [DecidableEq α] {t : α} {line : List α} (h : t ∉ line)
    (rest : List α) : (line ++ t :: rest).idxOf? t = some line.length := by
  induction line with
  | nil => simp [List.idxOf?_cons]
  | cons a line ih =>
    have ha : a ≠ t := fun ha => h (by simp [ha])
    rw [List.cons_append, List.idxOf?_cons, ih fun hl => h (by simp [hl])]
    simp [ha]

/-- What stands before and behind the first terminator. -/
theorem line_inj {α : Type*} [DecidableEq α] {t : α} {line line' rest rest' : List α}
    (hline : t ∉ line) (hline' : t ∉ line') (h : line ++ t :: rest = line' ++ t :: rest') :
    line = line' ∧ rest = rest' := by
  have hfirst := idxOf?_line hline rest
  rw [h, idxOf?_line hline' rest'] at hfirst
  obtain ⟨hbefore, hbehind⟩ := List.append_inj h (Option.some.inj hfirst).symm
  exact ⟨hbefore, (List.cons.inj hbehind).2⟩

/-! ### A text that is cut short -/

section Cut

variable {α β : Type*}

/-- The items whose lines `text`, each with its terminator, end within the first `n` symbols. -/
def endedWithin (text : β → List α) : List β → ℕ → List β
  | [], _ => []
  | b :: items, n =>
    if (text b).length + 1 ≤ n then b :: endedWithin text items (n - ((text b).length + 1)) else []

theorem endedWithin_prefix (text : β → List α) (items : List β) (n : ℕ) :
    endedWithin text items n <+: items := by
  induction items generalizing n with
  | nil => exact List.prefix_rfl
  | cons b items ih =>
    rw [endedWithin]
    split_ifs
    · exact List.prefix_cons_inj b |>.mpr (ih _)
    · exact List.nil_prefix

/-- **A text that is cut short** is the lines that end within it and the start of the next. -/
theorem exists_unfinished {text : β → List α} {t : α} {items : List β} {as : List α}
    (hlines : ∀ b ∈ items, t ∉ text b) (h : as <+: items.flatMap fun b => text b ++ [t]) :
    ∃ line, as = (endedWithin text items as.length).flatMap (fun b => text b ++ [t]) ++ line ∧
      t ∉ line ∧ (line ≠ [] → endedWithin text items as.length ≠ items) := by
  induction items generalizing as with
  | nil =>
    obtain rfl := List.prefix_nil.mp h
    exact ⟨[], rfl, by simp, by simp⟩
  | cons b items ih =>
    rw [List.flatMap_cons] at h
    rw [endedWithin]
    by_cases hlen : (text b).length + 1 ≤ as.length
    · obtain ⟨as', rfl⟩ : text b ++ [t] <+: as :=
        List.prefix_of_prefix_length_le (List.prefix_append _ _) h (by simpa using hlen)
      have hrest := (List.prefix_append_right_inj _).mp h
      obtain ⟨line, has', hline, hne⟩ := ih (fun b hb => hlines b (by simp [hb])) hrest
      have hsub : (text b ++ [t] ++ as').length - ((text b).length + 1) = as'.length := by
        simp only [List.length_append, List.length_singleton]
        omega
      rw [if_pos hlen, hsub]
      refine ⟨line, ?_, hline, fun hl => by simpa using hne hl⟩
      rw [List.flatMap_cons, List.append_assoc _ _ line, ← has']
    · have hpre : as <+: text b := by
        refine List.prefix_of_prefix_length_le h ?_ (by omega)
        rw [List.append_assoc]
        exact List.prefix_append _ _
      rw [if_neg hlen]
      exact ⟨as, rfl, fun hmem => hlines b (by simp) (hpre.subset hmem), by simp⟩

/-- The items whose lines `text` stand whole within the first `n` symbols, with or without the
terminator of the last. -/
def arrivedWithin (text : β → List α) : List β → ℕ → List β
  | [], _ => []
  | b :: items, n =>
    if (text b).length ≤ n then b :: arrivedWithin text items (n - ((text b).length + 1)) else []

theorem arrivedWithin_zero {text : β → List α} {items : List β} (hne : ∀ b ∈ items, text b ≠ []) :
    arrivedWithin text items 0 = [] := by
  rcases items with _ | ⟨b, items⟩
  · rfl
  · have hb := List.length_pos_of_ne_nil (hne b List.mem_cons_self)
    rw [arrivedWithin, if_neg (by omega)]

/-- How the unfinished line of a cut text stands to its items: there is none, it is whole but for
its terminator, or it lacks some of its symbols. -/
inductive Unfinished (text : β → List α) (items ended arrived : List β) (line : List α) : Prop
  | none (hline : line = []) (harrived : arrived = ended)
  | whole (b : β) (hb : b ∈ items) (hline : line = text b) (harrived : arrived = ended ++ [b])
  | part (b : β) (hb : b ∈ items) (hpart : line <+: text b) (hne : line ≠ text b)
      (harrived : arrived = ended)

/-- **A text that is cut short**, by what arrived of it. -/
theorem exists_arrived {text : β → List α} {t : α} {items : List β} {as : List α}
    (hne : ∀ b ∈ items, text b ≠ []) (h : as <+: items.flatMap fun b => text b ++ [t]) :
    ∃ line, as = (endedWithin text items as.length).flatMap (fun b => text b ++ [t]) ++ line ∧
      Unfinished text items (endedWithin text items as.length) (arrivedWithin text items as.length)
        line := by
  induction items generalizing as with
  | nil =>
    obtain rfl := List.prefix_nil.mp h
    exact ⟨[], rfl, .none rfl rfl⟩
  | cons b items ih =>
    rw [List.flatMap_cons] at h
    rw [endedWithin, arrivedWithin]
    by_cases hlen : (text b).length + 1 ≤ as.length
    · obtain ⟨as', rfl⟩ : text b ++ [t] <+: as :=
        List.prefix_of_prefix_length_le (List.prefix_append _ _) h (by simpa using hlen)
      have hrest := (List.prefix_append_right_inj _).mp h
      obtain ⟨line, has', hline⟩ := ih (fun b hb => hne b (by simp [hb])) hrest
      have hsub : (text b ++ [t] ++ as').length - ((text b).length + 1) = as'.length := by
        simp only [List.length_append, List.length_singleton]
        omega
      rw [if_pos hlen, if_pos (by omega), hsub]
      refine ⟨line, ?_, ?_⟩
      · rw [List.flatMap_cons, List.append_assoc _ _ line, ← has']
      · cases hline with
        | none hnil harrived => exact .none hnil (by rw [harrived])
        | whole c hc hwhole harrived =>
          exact .whole c (List.mem_cons_of_mem _ hc) hwhole (by rw [harrived]; rfl)
        | part c hc hpart hshort harrived =>
          exact .part c (List.mem_cons_of_mem _ hc) hpart hshort (by rw [harrived])
    · have hpre : as <+: text b := by
        refine List.prefix_of_prefix_length_le h ?_ (by omega)
        rw [List.append_assoc]
        exact List.prefix_append _ _
      rw [if_neg hlen]
      refine ⟨as, rfl, ?_⟩
      by_cases hwhole : as = text b
      · have hzero : as.length - ((text b).length + 1) = 0 := by rw [hwhole]; omega
        rw [if_pos (Nat.le_of_eq (congrArg List.length hwhole.symm)), hzero, arrivedWithin_zero fun b hb => hne b (by simp [hb])]
        exact .whole b List.mem_cons_self hwhole rfl
      · have hshort : as.length < (text b).length :=
          Nat.lt_of_le_of_ne hpre.length_le fun he => hwhole (hpre.eq_of_length he)
        rw [if_neg (by omega)]
        exact .part b List.mem_cons_self hpre hwhole rfl

end Cut

/-! ### Lines that come in pieces -/

/-- A nonempty piece of a stream that holds the terminator at its end, or not at all. -/
structure Piece {α : Type*} (t : α) where
  symbols : List α
  nonempty : symbols ≠ []
  within : t ∉ symbols.dropLast

section Pieces

variable {α β : Type*} {t : α}

/-- The stream that the pieces are of. -/
def joined (pieces : List (Piece t)) : List α := pieces.flatMap Piece.symbols

theorem joined_cons (piece : Piece t) (pieces : List (Piece t)) :
    joined (piece :: pieces) = piece.symbols ++ joined pieces := List.flatMap_cons

/-- The piece ends its line. -/
def Piece.Ends (piece : Piece t) : Prop := piece.symbols.getLast? = some t

instance [DecidableEq α] (piece : Piece t) : Decidable piece.Ends :=
  inferInstanceAs (Decidable (piece.symbols.getLast? = some t))

theorem Piece.Ends.exists_line {piece : Piece t} (h : piece.Ends) :
    ∃ line, piece.symbols = line ++ [t] ∧ t ∉ line := by
  obtain ⟨line, hline⟩ := List.getLast?_eq_some_iff.mp h
  have hwithin := piece.within
  rw [hline, List.dropLast_concat] at hwithin
  exact ⟨line, hline, hwithin⟩

theorem Piece.notMem_of_not_ends {piece : Piece t} (h : ¬ piece.Ends) : t ∉ piece.symbols := by
  intro hmem
  rw [← List.dropLast_append_getLast piece.nonempty] at hmem
  rcases List.mem_append.mp hmem with hmem | hmem
  · exact piece.within hmem
  · refine h ?_
    rw [Piece.Ends, List.getLast?_eq_getLast_of_ne_nil piece.nonempty, ← List.mem_singleton.mp hmem]

variable [DecidableEq α]

/-- Join pieces into lines, behind what is held of the first: the lines with their terminators, and
what is left of the stream. -/
def reassemble : List α → List (Piece t) → List (List α) × List α
  | held, [] => ([], held)
  | held, piece :: pieces =>
    if piece.Ends then
      ((held ++ piece.symbols) :: (reassemble [] pieces).1, (reassemble [] pieces).2)
    else reassemble (held ++ piece.symbols) pieces

/-- **The lines of a stream do not depend on its pieces.** -/
theorem reassemble_eq {text : β → List α} {items : List β} {held line : List α}
    {pieces : List (Piece t)} (hitems : ∀ b ∈ items, t ∉ text b) (hline : t ∉ line)
    (hheld : t ∉ held)
    (h : held ++ joined pieces = (items.flatMap fun b => text b ++ [t]) ++ line) :
    reassemble held pieces = (items.map fun b => text b ++ [t], line) := by
  induction pieces generalizing held items with
  | nil =>
    rw [joined, List.flatMap_nil, List.append_nil] at h
    rcases items with _ | ⟨b, items⟩
    · rw [reassemble, h]
      rfl
    · exact absurd (by simp [h]) hheld
  | cons piece pieces ih =>
    rw [joined_cons] at h
    rw [reassemble]
    split_ifs with hends
    · obtain ⟨body, hbody, hnot⟩ := hends.exists_line
      rcases items with _ | ⟨b, items⟩
      · -- a terminator of the pieces, but none on the other side
        refine absurd ?_ hline
        rw [List.flatMap_nil, List.nil_append] at h
        simp [← h, hbody]
      · have hterminated : (held ++ body) ++ t :: joined pieces =
            text b ++ t :: ((items.flatMap fun b => text b ++ [t]) ++ line) := by
          simpa [hbody, List.append_assoc] using h
        obtain ⟨hfirst, hrest⟩ :=
          line_inj (by simp [hheld, hnot]) (hitems b List.mem_cons_self) hterminated
        rw [ih (fun b hb => hitems b (List.mem_cons_of_mem _ hb)) List.not_mem_nil hrest, hbody,
          ← List.append_assoc, hfirst]
        rfl
    · have hnot : t ∉ held ++ piece.symbols := by
        simp [hheld, piece.notMem_of_not_ends hends]
      exact ih hitems hnot (by rw [List.append_assoc, h])

end Pieces

/-! ### Scanners -/

/-- What takes a stream's lines: it may refuse a line, and it refuses one longer than `limit`. -/
structure Scanner (α τ ε : Type*) where
  terminator : α
  limit : Option ℕ
  tooLong : ε
  accept : τ → List α → τ × Option ε

/-- Where the scan of a stream stands: within a line, or at a refusal. -/
inductive Scan (α τ ε : Type*)
  | reading (state : τ) (line : List α)
  | refused (state : τ) (error : ε)

namespace Scanner

variable {α τ ε : Type*} (M : Scanner α τ ε)

/-- After a complete line. -/
def endLine (s : τ) (line : List α) : Scan α τ ε :=
  match M.accept s line with
  | (s', none) => .reading s' []
  | (s', some e) => .refused s' e

/-- Accept complete lines in turn, up to the first refusal. -/
def acceptAll : τ → List (List α) → τ × Option ε
  | s, [] => (s, none)
  | s, line :: lines =>
    match M.accept s line with
    | (s', none) => acceptAll s' lines
    | (s', some e) => (s', some e)

/-- A line that a scanner would take as far as its length and its symbols go. -/
structure FitsLine (line : List α) : Prop where
  noTerminator : M.terminator ∉ line
  short : ¬ Exceeds M.limit line.length

theorem fitsLine_nil : M.FitsLine [] := ⟨by simp, by simp⟩

theorem endLine_eq_reading {s s' : τ} {line l : List α} :
    M.endLine s line = .reading s' l ↔ M.accept s line = (s', none) ∧ l = [] := by
  unfold endLine
  split <;> rename_i h <;> simp [h, eq_comm]

theorem acceptAll_concat {s s' : τ} {lines : List (List α)} {line : List α} :
    M.acceptAll s (lines ++ [line]) = (s', none) ↔
      ∃ t, M.acceptAll s lines = (t, none) ∧ M.accept t line = (s', none) := by
  induction lines generalizing s with
  | nil =>
    rw [List.nil_append, acceptAll, acceptAll]
    rcases hl : M.accept s line with ⟨t, _ | e⟩ <;> simp [acceptAll, hl]
  | cons l lines ih =>
    rw [List.cons_append, acceptAll, acceptAll]
    rcases M.accept s l with ⟨t, _ | e⟩
    · exact ih
    · simp

variable [DecidableEq α]

/-- After one more symbol. -/
def feed : Scan α τ ε → α → Scan α τ ε
  | .reading s line, a =>
    if a = M.terminator then M.endLine s line
    else if Exceeds M.limit (line.length + 1) then .refused s M.tooLong
    else .reading s (line ++ [a])
  | .refused s e, _ => .refused s e

/-- After more symbols. -/
def scan (c : Scan α τ ε) (as : List α) : Scan α τ ε := as.foldl M.feed c

@[simp] theorem scan_nil (c : Scan α τ ε) : M.scan c [] = c := rfl

theorem scan_cons (c : Scan α τ ε) (a : α) (as : List α) :
    M.scan c (a :: as) = M.scan (M.feed c a) as := rfl

theorem scan_append (c : Scan α τ ε) (as bs : List α) :
    M.scan c (as ++ bs) = M.scan (M.scan c as) bs := List.foldl_append

@[simp] theorem scan_refused (s : τ) (e : ε) (as : List α) :
    M.scan (.refused s e) as = .refused s e := by
  induction as with
  | nil => rfl
  | cons a as ih => rw [scan_cons]; exact ih

/-- What is refused stays refused when more of the stream is scanned. -/
theorem scan_take_refused {c : Scan α τ ε} {as : List α} {n : ℕ} {s : τ} {e : ε}
    (h : M.scan c (as.take n) = .refused s e) : M.scan c as = .refused s e := by
  rw [← List.take_append_drop n as, scan_append, h, scan_refused]

/-- Symbols within a line extend it, up to the limit. -/
theorem scan_within {s : τ} {line as : List α} (hline : ¬ Exceeds M.limit line.length)
    (has : M.terminator ∉ as) :
    M.scan (.reading s line) as =
      if Exceeds M.limit (line ++ as).length then .refused s M.tooLong
      else .reading s (line ++ as) := by
  induction as generalizing line with
  | nil => simp [hline]
  | cons a as ih =>
    have ha : a ≠ M.terminator := fun h => has (by simp [h])
    have has' : M.terminator ∉ as := fun h => has (by simp [h])
    rw [scan_cons, feed, if_neg ha]
    by_cases h : Exceeds M.limit (line.length + 1)
    · have hlong : Exceeds M.limit (line ++ a :: as).length := h.mono (by simp)
      rw [if_pos h, scan_refused, if_pos hlong]
    · rw [if_neg h, ih (by simpa using h) has']
      simp [List.append_assoc]

/-- A whole line is taken with its terminator. -/
theorem scan_line {s : τ} {line : List α} (h : M.FitsLine line) (rest : List α) :
    M.scan (.reading s []) (line ++ M.terminator :: rest) = M.scan (M.endLine s line) rest := by
  rw [scan_append, M.scan_within (by simp) h.noTerminator, List.nil_append, if_neg h.short,
    scan_cons, feed, if_pos rfl]

/-- A line above the limit is refused, whatever follows. -/
theorem scan_long {s : τ} {line : List α} (hline : M.terminator ∉ line)
    (h : Exceeds M.limit line.length) (rest : List α) :
    M.scan (.reading s []) (line ++ rest) = .refused s M.tooLong := by
  rw [scan_append, M.scan_within (by simp) hline, List.nil_append, if_pos h, scan_refused]

/-- Accepted lines are scanned through. -/
theorem scan_lines {s s' : τ} {lines : List (List α)} (hlines : ∀ line ∈ lines, M.FitsLine line)
    (h : M.acceptAll s lines = (s', none)) (rest : List α) :
    M.scan (.reading s []) (lines.flatMap (· ++ [M.terminator]) ++ rest) =
      M.scan (.reading s' []) rest := by
  induction lines generalizing s with
  | nil => cases h; rfl
  | cons line lines ih =>
    rw [acceptAll] at h
    split at h
    · rename_i s₁ hs₁
      have he : M.endLine s line = .reading s₁ [] := M.endLine_eq_reading.mpr ⟨hs₁, rfl⟩
      have := M.scan_line (s := s) (hlines line (by simp))
        (lines.flatMap (· ++ [M.terminator]) ++ rest)
      rw [he, ih (fun l hl => hlines l (by simp [hl])) h] at this
      simpa [List.append_assoc] using this
    · cases h

/-- **What has been scanned without a refusal**: accepted lines with their terminators, and then
the unfinished line. -/
theorem scan_eq_reading_iff {s s' : τ} {as line : List α} :
    M.scan (.reading s []) as = .reading s' line ↔
      ∃ lines, as = lines.flatMap (· ++ [M.terminator]) ++ line ∧
        (∀ l ∈ lines, M.FitsLine l) ∧ M.FitsLine line ∧ M.acceptAll s lines = (s', none) := by
  constructor
  · intro h
    induction as using List.reverseRecOn generalizing s' line with
    | nil =>
      cases h
      exact ⟨[], rfl, by simp, M.fitsLine_nil, rfl⟩
    | append_singleton as a ih =>
      rw [scan_append] at h
      rcases hc : M.scan (.reading s []) as with ⟨s₁, l₁⟩ | ⟨s₁, e⟩
      · rw [hc, scan_cons, scan_nil, feed] at h
        obtain ⟨lines, has, hlines, hl₁, hacc⟩ := ih hc
        split_ifs at h with ha hlong
        · -- the symbol ends the line `l₁`
          obtain ⟨haccept, rfl⟩ := M.endLine_eq_reading.mp h
          refine ⟨lines ++ [l₁], by simp [has, ha], ?_, M.fitsLine_nil, ?_⟩
          · intro l hl
            rcases List.mem_append.mp hl with hl | hl
            · exact hlines l hl
            · rwa [List.mem_singleton.mp hl]
          · exact M.acceptAll_concat.mpr ⟨s₁, hacc, haccept⟩
        · cases h
          refine ⟨lines, by simp [has], hlines, ⟨?_, by simpa using hlong⟩, hacc⟩
          simpa [hl₁.noTerminator] using fun h => ha h.symm
      · rw [hc, scan_refused] at h
        cases h
  · rintro ⟨lines, rfl, hlines, hline, hacc⟩
    rw [M.scan_lines hlines hacc, M.scan_within (by simp) hline.noTerminator, List.nil_append,
      if_neg hline.short]

end Scanner

end DrExec.Lib.Lines
