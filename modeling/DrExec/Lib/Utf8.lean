import DrExec.Lib.JsonText

/-! # UTF-8

The encoder of Python with `errors="backslashreplace"` and its decoder with `errors="replace"` or
`errors="ignore"`, which skips as many bytes as could still have begun a character. What the encoder
writes of a text without surrogates, the decoder reads back (`decode_encode`); of bytes cut at any
point it reads the longest prefix of whole characters (`decode_take_encode`). The strict decoder
reads what stands before a cut, if it reads it, as the start of the whole
(`decodeStrictBelow_append`). -/

namespace DrExec.Lib.Utf8

open DrExec.Lib.Json

/-! ### Writing -/

/-- The bytes of a code point that is no surrogate. -/
def encodeScalar (c : CodePoint) : Bytes :=
  if c.val < 0x80 then [.ofNat c.val]
  else if c.val < 0x800 then [.ofNat (0xC0 + c.val / 64), .ofNat (0x80 + c.val % 64)]
  else if c.val < 0x10000 then
    [.ofNat (0xE0 + c.val / 4096), .ofNat (0x80 + c.val / 64 % 64), .ofNat (0x80 + c.val % 64)]
  else
    [.ofNat (0xF0 + c.val / 262144), .ofNat (0x80 + c.val / 4096 % 64),
      .ofNat (0x80 + c.val / 64 % 64), .ofNat (0x80 + c.val % 64)]

/-- `s.encode("utf-8", errors="backslashreplace")` -/
def encode (s : Str) : Bytes :=
  s.flatMap fun c => if IsScalar c then encodeScalar c else unicodeEscape c.val

/-! ### Reading -/

/-- What a first byte announces: how many bytes follow, its own bits, and the range of the second.
-/
structure Lead where
  more : ℕ
  bits : ℕ
  low : ℕ
  high : ℕ

/-- The first bytes that there are. -/
def lead (b : UInt8) : Option Lead :=
  let n := b.toNat
  if n < 0x80 then some ⟨0, n, 0x80, 0xBF⟩
  else if 0xC2 ≤ n ∧ n ≤ 0xDF then some ⟨1, n - 0xC0, 0x80, 0xBF⟩
  else if 0xE0 ≤ n ∧ n ≤ 0xEF then
    some ⟨2, n - 0xE0, if n = 0xE0 then 0xA0 else 0x80, if n = 0xED then 0x9F else 0xBF⟩
  else if 0xF0 ≤ n ∧ n ≤ 0xF4 then
    some ⟨3, n - 0xF0, if n = 0xF0 then 0x90 else 0x80, if n = 0xF4 then 0x8F else 0xBF⟩
  else none

/-- The bytes after a first one: a character, or nothing, and what is left. -/
def readTail : ℕ → ℕ → ℕ → ℕ → Bytes → Option CodePoint × Bytes
  | 0, _, _, bits, bytes => (some (Fin.ofNat _ bits), bytes)
  | _ + 1, _, _, _, [] => (none, [])
  | more + 1, low, high, bits, b :: bytes =>
    if low ≤ b.toNat ∧ b.toNat ≤ high then
      readTail more 0x80 0xBF (bits * 64 + (b.toNat - 0x80)) bytes
    else (none, b :: bytes)

/-- One character, or one part of the bytes that is none. -/
def readOne (b : UInt8) (bytes : Bytes) : Option CodePoint × Bytes :=
  match lead b with
  | none => (none, bytes)
  | some l => readTail l.more l.low l.high l.bits bytes

/-- Read at most so many characters, with `replacement` for what is none. -/
def decodeBelow (replacement : Str) : ℕ → Bytes → Str
  | 0, _ => []
  | _ + 1, [] => []
  | fuel + 1, b :: bytes =>
    let one := readOne b bytes
    (one.1.map ([·])).getD replacement ++ decodeBelow replacement fuel one.2

/-- `bytes.decode("utf-8", errors=..)`; every character takes a byte. -/
def decode (replacement : Str) (bytes : Bytes) : Str := decodeBelow replacement bytes.length bytes

theorem length_readTail_le (more low high bits : ℕ) (bytes : Bytes) :
    (readTail more low high bits bytes).2.length ≤ bytes.length := by
  induction bytes generalizing more low high bits with
  | nil => cases more <;> simp [readTail]
  | cons b bytes ih =>
    cases more with
    | zero => simp [readTail]
    | succ more =>
      simp only [readTail]
      split_ifs
      · exact (ih more _ _ _).trans (Nat.le_succ _)
      · exact le_rfl

theorem length_readOne_le (b : UInt8) (bytes : Bytes) :
    (readOne b bytes).2.length ≤ bytes.length := by
  unfold readOne
  split
  · exact le_rfl
  · exact length_readTail_le _ _ _ _ _

/-- Fuel for every byte is fuel enough. -/
theorem decodeBelow_congr (replacement : Str) {fuel fuel' : ℕ} {bytes : Bytes}
    (h : bytes.length ≤ fuel) (h' : bytes.length ≤ fuel') :
    decodeBelow replacement fuel bytes = decodeBelow replacement fuel' bytes := by
  induction fuel generalizing fuel' bytes with
  | zero =>
    obtain rfl := List.eq_nil_of_length_eq_zero (Nat.le_zero.mp h)
    cases fuel' <;> rfl
  | succ fuel ih =>
    rcases bytes with _ | ⟨b, bytes⟩
    · cases fuel' <;> rfl
    · have hle := length_readOne_le b bytes
      simp only [List.length_cons] at h h'
      obtain ⟨fuel', rfl⟩ := Nat.exists_eq_succ_of_ne_zero (show fuel' ≠ 0 by omega)
      simp only [decodeBelow]
      rw [ih (show (readOne b bytes).2.length ≤ fuel by omega)
        (show (readOne b bytes).2.length ≤ fuel' by omega)]

@[simp] theorem decode_nil (replacement : Str) : decode replacement [] = [] := rfl

theorem decode_cons (replacement : Str) (b : UInt8) (bytes : Bytes) :
    decode replacement (b :: bytes) =
      ((readOne b bytes).1.map ([·])).getD replacement ++
        decode replacement (readOne b bytes).2 := by
  have hle := length_readOne_le b bytes
  unfold decode
  rw [List.length_cons, decodeBelow, decodeBelow_congr replacement hle le_rfl]

/-- `errors="replace"` -/
def replace : Str := [0xFFFD]

/-- `errors="ignore"` -/
def ignore : Str := []

/-! ### What is written is read back -/

theorem toNat_ofNat {n : ℕ} (h : n < 256) : (UInt8.ofNat n).toNat = n := by
  rw [UInt8.toNat_ofNat']
  exact Nat.mod_eq_of_lt h

/-- A continuation byte in its range is taken. -/
theorem readTail_cons {more low high bits n : ℕ} (hlow : low ≤ 0x80 + n) (hhigh : 0x80 + n ≤ high)
    (hn : n < 64) (bytes : Bytes) :
    readTail (more + 1) low high bits (.ofNat (0x80 + n) :: bytes) =
      readTail more 0x80 0xBF (bits * 64 + n) bytes := by
  rw [readTail, toNat_ofNat (by omega), if_pos ⟨hlow, hhigh⟩, Nat.add_sub_cancel_left]

theorem readTail_zero {low high bits : ℕ} {c : CodePoint} (h : bits = c.val) (bytes : Bytes) :
    readTail 0 low high bits bytes = (some c, bytes) := by
  cases bytes <;> rw [readTail, ofNat_val h]

theorem readOne_of_lead {b : UInt8} {l : Lead} (h : lead b = some l) (bytes : Bytes) :
    readOne b bytes = readTail l.more l.low l.high l.bits bytes := by
  rw [readOne, h]

theorem decode_of_readOne {b : UInt8} {bytes rest : Bytes} {c : CodePoint}
    (h : readOne b bytes = (some c, rest)) (replacement : Str) :
    decode replacement (b :: bytes) = c :: decode replacement rest := by
  rw [decode_cons, h]
  rfl

/-- A character is read from its bytes, whatever follows. -/
theorem readOne_encodeScalar {c : CodePoint} (hc : IsScalar c) :
    ∃ b bytes, encodeScalar c = b :: bytes ∧
      ∀ rest, readOne b (bytes ++ rest) = (some c, rest) := by
  have hlt := c.isLt
  unfold IsScalar at hc
  unfold encodeScalar
  split_ifs with h1 h2 h3
  · have hlead : lead (.ofNat c.val) = some ⟨0, c.val, 0x80, 0xBF⟩ := by
      rw [lead, toNat_ofNat (by omega), if_pos h1]
    refine ⟨_, _, rfl, fun rest => ?_⟩
    rw [readOne_of_lead hlead, readTail_zero rfl]
    rfl
  · have hlead : lead (.ofNat (0xC0 + c.val / 64)) = some ⟨1, c.val / 64, 0x80, 0xBF⟩ := by
      rw [lead, toNat_ofNat (by omega), if_neg (by omega), if_pos (by omega),
        Nat.add_sub_cancel_left]
    have hbits : c.val / 64 * 64 + c.val % 64 = c.val := Nat.div_add_mod' _ _
    refine ⟨_, _, rfl, fun rest => ?_⟩
    rw [readOne_of_lead hlead]
    refine (readTail_cons (Nat.le_add_right _ _) (show 0x80 + c.val % 64 ≤ 0xBF by omega)
      (Nat.mod_lt _ (by decide)) _).trans ?_
    exact readTail_zero hbits rest
  · have hlead : lead (.ofNat (0xE0 + c.val / 4096)) =
        some ⟨2, c.val / 4096, if 0xE0 + c.val / 4096 = 0xE0 then 0xA0 else 0x80,
          if 0xE0 + c.val / 4096 = 0xED then 0x9F else 0xBF⟩ := by
      rw [lead, toNat_ofNat (by omega), if_neg (by omega), if_neg (by omega), if_pos (by omega),
        Nat.add_sub_cancel_left]
    have hlow : (if 0xE0 + c.val / 4096 = 0xE0 then 0xA0 else 0x80) ≤ 0x80 + c.val / 64 % 64 := by
      split_ifs <;> omega
    have hhigh : 0x80 + c.val / 64 % 64 ≤ if 0xE0 + c.val / 4096 = 0xED then 0x9F else 0xBF := by
      split_ifs <;> omega
    have hbits : (c.val / 4096 * 64 + c.val / 64 % 64) * 64 + c.val % 64 = c.val := by omega
    refine ⟨_, _, rfl, fun rest => ?_⟩
    rw [readOne_of_lead hlead]
    refine (readTail_cons hlow hhigh (Nat.mod_lt _ (by decide)) _).trans ?_
    refine (readTail_cons (Nat.le_add_right _ _) (show 0x80 + c.val % 64 ≤ 0xBF by omega)
      (Nat.mod_lt _ (by decide)) _).trans ?_
    exact readTail_zero hbits rest
  · have hlead : lead (.ofNat (0xF0 + c.val / 262144)) =
        some ⟨3, c.val / 262144, if 0xF0 + c.val / 262144 = 0xF0 then 0x90 else 0x80,
          if 0xF0 + c.val / 262144 = 0xF4 then 0x8F else 0xBF⟩ := by
      rw [lead, toNat_ofNat (by omega), if_neg (by omega), if_neg (by omega), if_neg (by omega),
        if_pos (by omega), Nat.add_sub_cancel_left]
    have hlow : (if 0xF0 + c.val / 262144 = 0xF0 then 0x90 else 0x80) ≤
        0x80 + c.val / 4096 % 64 := by
      split_ifs <;> omega
    have hhigh : 0x80 + c.val / 4096 % 64 ≤
        if 0xF0 + c.val / 262144 = 0xF4 then 0x8F else 0xBF := by
      split_ifs <;> omega
    have hbits : ((c.val / 262144 * 64 + c.val / 4096 % 64) * 64 + c.val / 64 % 64) * 64 +
        c.val % 64 = c.val := by omega
    refine ⟨_, _, rfl, fun rest => ?_⟩
    rw [readOne_of_lead hlead]
    refine (readTail_cons hlow hhigh (Nat.mod_lt _ (by decide)) _).trans ?_
    refine (readTail_cons (Nat.le_add_right _ _) (show 0x80 + c.val / 64 % 64 ≤ 0xBF by omega)
      (Nat.mod_lt _ (by decide)) _).trans ?_
    refine (readTail_cons (Nat.le_add_right _ _) (show 0x80 + c.val % 64 ≤ 0xBF by omega)
      (Nat.mod_lt _ (by decide)) _).trans ?_
    exact readTail_zero hbits rest

theorem decode_encodeScalar {c : CodePoint} (hc : IsScalar c) (replacement : Str) (rest : Bytes) :
    decode replacement (encodeScalar c ++ rest) = c :: decode replacement rest := by
  obtain ⟨b, bytes, hbytes, hread⟩ := readOne_encodeScalar hc
  rw [hbytes]
  exact decode_of_readOne (hread rest) replacement

/-- **Text without surrogates is read back.** -/
theorem decode_encode {s : Str} (hs : ∀ c ∈ s, IsScalar c) (replacement : Str) :
    decode replacement (encode s) = s := by
  induction s with
  | nil => rfl
  | cons c s ih =>
    rw [encode, List.flatMap_cons, if_pos (hs c (by simp)),
      decode_encodeScalar (hs c (by simp))]
    exact congrArg (c :: ·) (ih fun d hd => hs d (by simp [hd]))

/-! ### Strict text -/

/-- `s.encode("utf-8")`, which refuses surrogates. -/
def encodeStrict (s : Str) : Option Bytes :=
  if ∀ c ∈ s, IsScalar c then some (s.flatMap encodeScalar) else none

/-- The text with each surrogate replaced by the characters of its escape. -/
def escapeSurrogates (s : Str) : Str :=
  s.flatMap fun c =>
    if IsScalar c then [c] else (unicodeEscape c.val).map fun b => Fin.ofNat _ b.toNat

@[simp] theorem encode_nil : encode [] = [] := rfl

theorem encode_append (s t : Str) : encode (s ++ t) = encode s ++ encode t := List.flatMap_append

theorem encode_cons {c : CodePoint} (hc : IsScalar c) (s : Str) :
    encode (c :: s) = encodeScalar c ++ encode s := by
  rw [encode, List.flatMap_cons, if_pos hc]
  rfl

theorem encodeStrict_eq {s : Str} (hs : ∀ c ∈ s, IsScalar c) :
    encodeStrict s = some (encode s) := by
  rw [encodeStrict, if_pos hs, encode]
  congr 1
  exact List.flatMap_congr fun c hc => (if_pos (hs c hc)).symm

/-- A printable byte is a character, written as itself. -/
theorem printable_character {b : UInt8} (hb : Printable b) :
    IsScalar (Fin.ofNat 0x110000 b.toNat) ∧ encodeScalar (Fin.ofNat 0x110000 b.toNat) = [b] := by
  obtain ⟨hlow, hhigh⟩ := hb
  have hval : (Fin.ofNat 0x110000 b.toNat).val = b.toNat := Nat.mod_eq_of_lt (by omega)
  refine ⟨Or.inl (by omega), ?_⟩
  rw [encodeScalar, hval, if_pos (by omega), UInt8.ofNat_toNat]

theorem encode_printable {bytes : Bytes} (h : ∀ b ∈ bytes, Printable b) :
    encode (bytes.map fun b => Fin.ofNat _ b.toNat) = bytes := by
  induction bytes with
  | nil => rfl
  | cons b bytes ih =>
    obtain ⟨hscalar, hbytes⟩ := printable_character (h b (by simp))
    rw [List.map_cons, encode_cons hscalar, hbytes, ih fun c hc => h c (by simp [hc])]
    rfl

theorem isScalar_of_mem_escapeSurrogates {s : Str} :
    ∀ c ∈ escapeSurrogates s, IsScalar c := by
  intro c hc
  obtain ⟨d, -, hd⟩ := List.mem_flatMap.mp hc
  split_ifs at hd with hscalar
  · obtain rfl := List.mem_singleton.mp hd
    exact hscalar
  · obtain ⟨b, hb, rfl⟩ := List.mem_map.mp hd
    exact (printable_character (printable_unicodeEscape _ b hb)).1

/-- The encoder writes the escaped text. -/
theorem encode_escapeSurrogates (s : Str) : encode (escapeSurrogates s) = encode s := by
  induction s with
  | nil => rfl
  | cons c s ih =>
    rw [escapeSurrogates, List.flatMap_cons, encode_append]
    refine Eq.trans (congrArg₂ (· ++ ·) ?_ ih) (List.flatMap_cons ..).symm
    split_ifs with hscalar
    · rw [encode_cons hscalar, encode_nil, List.append_nil]
    · exact encode_printable (printable_unicodeEscape _)

/-! ### A cut between any two bytes -/

/-- The longest prefix of the text whose bytes are at most `budget`. -/
structure LongestWithin (budget : ℕ) (s kept : Str) : Prop where
  isPrefix : kept <+: s
  within : (encode kept).length ≤ budget
  longest : ∀ u, u <+: s → (encode u).length ≤ budget → u <+: kept

/-- A character that takes all the bytes is none without the last of them. -/
theorem readTail_take {more low high bits : ℕ} {bytes : Bytes} {c : CodePoint}
    (h : readTail more low high bits bytes = (some c, [])) {n : ℕ} (hn : n < bytes.length) :
    readTail more low high bits (bytes.take n) = (none, []) := by
  induction bytes generalizing more low high bits n with
  | nil => simp at hn
  | cons b bytes ih =>
    rcases more with _ | more
    · simp [readTail] at h
    · rw [readTail] at h
      split_ifs at h with hb
      · rcases n with _ | n
        · rfl
        · rw [List.take_succ_cons, readTail, if_pos hb]
          exact ih h (by simpa using hn)
      · simp at h

/-- What a cut leaves of a character is skipped. -/
theorem decode_take_encodeScalar {c : CodePoint} (hc : IsScalar c) {n : ℕ}
    (hn : n < (encodeScalar c).length) : decode ignore ((encodeScalar c).take n) = [] := by
  obtain ⟨b, bytes, hbytes, hread⟩ := readOne_encodeScalar hc
  have hwhole : readOne b bytes = (some c, []) := by simpa using hread []
  rw [hbytes] at hn ⊢
  rcases n with _ | n
  · rfl
  rw [List.take_succ_cons, decode_cons]
  have hnone : readOne b (bytes.take n) = (none, []) := by
    rw [List.length_cons, Nat.add_lt_add_iff_right] at hn
    unfold readOne at hwhole ⊢
    split at hwhole
    · cases hwhole
    · exact readTail_take hwhole hn
  rw [hnone]
  rfl

/-- **Decoding a cut text leaves its longest prefix of whole characters.** -/
theorem decode_take_encode {s : Str} (hs : ∀ c ∈ s, IsScalar c) (n : ℕ) :
    LongestWithin n s (decode ignore ((encode s).take n)) := by
  induction s generalizing n with
  | nil =>
    rw [encode_nil, List.take_nil, decode_nil]
    exact ⟨List.nil_prefix, Nat.zero_le n, fun u hu _ => hu⟩
  | cons c s ih =>
    have hc := hs c (by simp)
    rw [encode_cons hc]
    rcases Nat.lt_or_ge n (encodeScalar c).length with hlt | hge
    · -- not even the first character fits
      rw [List.take_append_of_le_length hlt.le, decode_take_encodeScalar hc hlt]
      refine ⟨List.nil_prefix, Nat.zero_le n, fun u hu hlen => ?_⟩
      rcases u with _ | ⟨d, u⟩
      · exact List.nil_prefix
      · obtain ⟨rfl, -⟩ := List.cons_prefix_cons.mp hu
        rw [encode_cons hc, List.length_append] at hlen
        omega
    · obtain ⟨m, rfl⟩ := Nat.exists_eq_add_of_le hge
      obtain ⟨hkept, hwithin, hlongest⟩ := ih (fun d hd => hs d (by simp [hd])) m
      rw [List.take_length_add_append, decode_encodeScalar hc]
      refine ⟨List.cons_prefix_cons.mpr ⟨rfl, hkept⟩, ?_, fun u hu hlen => ?_⟩
      · rw [encode_cons hc, List.length_append]
        omega
      · rcases u with _ | ⟨d, u⟩
        · exact List.nil_prefix
        · obtain ⟨rfl, hu'⟩ := List.cons_prefix_cons.mp hu
          rw [encode_cons hc, List.length_append] at hlen
          exact List.cons_prefix_cons.mpr ⟨rfl, hlongest u hu' (by omega)⟩

/-! ### Strict reading -/

/-- Read at most so many characters, none of which may be missing. -/
def decodeStrictBelow : ℕ → Bytes → Option Str
  | _, [] => some []
  | 0, _ :: _ => none
  | fuel + 1, b :: bytes =>
    match readOne b bytes with
    | (some c, rest) => (decodeStrictBelow fuel rest).map (c :: ·)
    | (none, _) => none

/-- `bytes.decode("utf-8")` -/
def decodeStrict (bytes : Bytes) : Option Str := decodeStrictBelow bytes.length bytes

theorem readTail_append {more low high bits : ℕ} {bytes rest : Bytes} {c : CodePoint}
    (h : readTail more low high bits bytes = (some c, rest)) (x : Bytes) :
    readTail more low high bits (bytes ++ x) = (some c, rest ++ x) := by
  induction bytes generalizing more low high bits with
  | nil =>
    rcases more with _ | more
    · cases h
      rw [List.nil_append, readTail]
    · cases h
  | cons b bytes ih =>
    rcases more with _ | more
    · cases h
      rfl
    · rw [List.cons_append]
      rw [readTail] at h ⊢
      split_ifs at h ⊢
      · exact ih h
      · cases h

theorem readOne_append {b : UInt8} {bytes rest : Bytes} {c : CodePoint}
    (h : readOne b bytes = (some c, rest)) (x : Bytes) :
    readOne b (bytes ++ x) = (some c, rest ++ x) := by
  unfold readOne at h ⊢
  split at h
  · cases h
  · exact readTail_append h x

theorem decodeStrictBelow_ne_nil {fuel : ℕ} {bytes : Bytes} {s : Str}
    (h : decodeStrictBelow fuel bytes = some s) (hbytes : bytes ≠ []) : s ≠ [] := by
  rcases bytes with _ | ⟨b, bytes⟩
  · exact absurd rfl hbytes
  rcases fuel with _ | fuel
  · cases h
  · rw [decodeStrictBelow] at h
    split at h
    · obtain ⟨u, -, rfl⟩ := Option.map_eq_some_iff.mp h
      exact List.cons_ne_nil _ u
    · cases h

theorem decodeStrictBelow_mono {fuel fuel' : ℕ} (hfuel : fuel ≤ fuel') {bytes : Bytes} {s : Str}
    (h : decodeStrictBelow fuel bytes = some s) : decodeStrictBelow fuel' bytes = some s := by
  induction fuel generalizing fuel' bytes s with
  | zero =>
    rcases bytes with _ | ⟨b, bytes⟩
    · rwa [decodeStrictBelow] at h ⊢
    · cases h
  | succ fuel ih =>
    obtain ⟨fuel', rfl⟩ := Nat.exists_eq_succ_of_ne_zero (show fuel' ≠ 0 by omega)
    rcases bytes with _ | ⟨b, bytes⟩
    · rwa [decodeStrictBelow] at h ⊢
    rw [decodeStrictBelow] at h ⊢
    split at h
    · obtain ⟨u, hu, rfl⟩ := Option.map_eq_some_iff.mp h
      rw [ih (by omega) hu]
      rfl
    · cases h

theorem decodeStrictBelow_add {fuel fuel' : ℕ} {bytes bytes' : Bytes} {s t : Str}
    (h : decodeStrictBelow fuel bytes = some s) (h' : decodeStrictBelow fuel' bytes' = some t) :
    decodeStrictBelow (fuel + fuel') (bytes ++ bytes') = some (s ++ t) := by
  induction fuel generalizing bytes s with
  | zero =>
    rcases bytes with _ | ⟨b, bytes⟩
    · cases h
      exact decodeStrictBelow_mono (Nat.le_add_left _ _) h'
    · cases h
  | succ fuel ih =>
    rcases bytes with _ | ⟨b, bytes⟩
    · cases h
      exact decodeStrictBelow_mono (Nat.le_add_left _ _) h'
    rw [decodeStrictBelow] at h
    rw [Nat.succ_add, List.cons_append, decodeStrictBelow]
    rcases hone : readOne b bytes with ⟨_ | c, rest⟩
    · rw [hone] at h
      cases h
    rw [hone] at h
    rw [readOne_append hone]
    obtain ⟨u, hu, rfl⟩ := Option.map_eq_some_iff.mp h
    dsimp only
    rw [ih hu]
    rfl

/-- Texts that are read one behind the other. -/
theorem decodeStrict_append {bytes bytes' : Bytes} {s t : Str} (h : decodeStrict bytes = some s)
    (h' : decodeStrict bytes' = some t) : decodeStrict (bytes ++ bytes') = some (s ++ t) := by
  rw [decodeStrict, List.length_append]
  exact decodeStrictBelow_add h h'

/-- **Strict reading goes on**: what the bytes before a cut read as, if they read, begins what all
of them read as, and something follows it if there are more bytes. -/
theorem decodeStrictBelow_append {fuel fuel' : ℕ} {bytes x : Bytes} {s t : Str}
    (h : decodeStrictBelow fuel bytes = some s)
    (hall : decodeStrictBelow fuel' (bytes ++ x) = some t) :
    ∃ u, t = s ++ u ∧ (x ≠ [] → u ≠ []) := by
  induction fuel generalizing fuel' bytes s t with
  | zero =>
    rcases bytes with _ | ⟨b, bytes⟩
    · cases h
      exact ⟨t, rfl, decodeStrictBelow_ne_nil hall⟩
    · cases h
  | succ fuel ih =>
    rcases bytes with _ | ⟨b, bytes⟩
    · cases h
      exact ⟨t, rfl, decodeStrictBelow_ne_nil hall⟩
    rcases fuel' with _ | fuel'
    · cases hall
    rw [List.cons_append] at hall
    rw [decodeStrictBelow] at h hall
    rcases hone : readOne b bytes with ⟨_ | c, rest⟩
    · rw [hone] at h
      cases h
    rw [hone] at h
    rw [readOne_append hone] at hall
    obtain ⟨s', hs', rfl⟩ := Option.map_eq_some_iff.mp h
    obtain ⟨t', ht', rfl⟩ := Option.map_eq_some_iff.mp hall
    obtain ⟨u, rfl, hu⟩ := ih hs' ht'
    exact ⟨u, rfl, hu⟩

end DrExec.Lib.Utf8
