import DrExec.Core.Scalars

/-! # One spelling for each scalar

The validators of `core/model.py` let a permissive parser read a string and check its spelling by
hand. Each of `UtcDatetime`, `CanonicalUuid` and `Base64UrlBytes` accepts exactly what its
serializer writes (`scalars_spelled_once`): what a validator lets through is taken apart digit by
digit, or written again and compared. -/

namespace DrExec.Core.Spellings

open DrExec.Core.Model DrExec.Core.Scalars DrExec.Lib DrExec.Lib.Json

/-- Every accepted string is the one that its value is written as, and every value's is accepted. -/
structure SpelledOnce {α : Type} (serialize : α → Str) (validate : Str → Option α) : Prop where
  serializes_back : ∀ s v, validate s = some v → serialize v = s
  reads_back : ∀ v, validate (serialize v) = some v
  unique : ∀ s s' v, validate s = some v → validate s' = some v → s = s'

theorem SpelledOnce.of_eq_some_iff {α : Type} {serialize : α → Str} {validate : Str → Option α}
    (h : ∀ s v, validate s = some v ↔ serialize v = s) : SpelledOnce serialize validate where
  serializes_back s v := (h s v).mp
  reads_back v := (h _ v).mpr rfl
  unique s s' v hs hs' := ((h s v).mp hs).symm.trans ((h s' v).mp hs')

/-! ### What digits are read from -/

/-- A digit is read from its own character only. -/
theorem digitValue_eq_some {c : CodePoint} {n : ℕ} (h : digitValue c = some n) :
    n < 16 ∧ c = digit n := by
  unfold digitValue at h
  split_ifs at h with hdecimal hletter
  · obtain rfl := Option.some.inj h
    refine ⟨by omega, Fin.ext ?_⟩
    rw [digit_val (by omega), if_pos (by omega)]
    omega
  · obtain rfl := Option.some.inj h
    refine ⟨by omega, Fin.ext ?_⟩
    rw [digit_val (by omega), if_neg (by omega)]
    omega

theorem readDigit_eq_some {b n m : ℕ} {c : CodePoint} (h : readDigit b n c = some m) :
    ∃ d < b, c = digit d ∧ m = n * b + d := by
  obtain ⟨d, hd, h⟩ := Option.bind_eq_some_iff.mp h
  split_ifs at h with hlt
  exact ⟨d, hlt, (digitValue_eq_some hd).2, (Option.some.inj h).symm⟩

theorem digits_succ {b width lead d : ℕ} (hlead : lead < b) (hd : d < b ^ width) :
    digits b (width + 1) (lead * b ^ width + d) = digit lead :: digits b width d := by
  have hb : 0 < b := by omega
  induction width generalizing d with
  | zero =>
    obtain rfl : d = 0 := by simpa using hd
    simp [digits, Nat.mod_eq_of_lt hlead]
  | succ width ih =>
    have hsplit : lead * b ^ (width + 1) + d = (lead * b ^ width + d / b) * b + d % b := by
      rw [pow_succ, Nat.add_mul, Nat.mul_assoc, Nat.add_assoc, Nat.mul_comm (d / b) b,
        Nat.div_add_mod]
    have hmod := Nat.mod_lt d hb
    have hquotient : (lead * b ^ (width + 1) + d) / b = lead * b ^ width + d / b := by
      rw [hsplit, Nat.mul_comm, Nat.mul_add_div hb, Nat.div_eq_of_lt hmod, Nat.add_zero]
    have hremainder : (lead * b ^ (width + 1) + d) % b = d % b := by
      rw [hsplit, Nat.mul_comm, Nat.mul_add_mod, Nat.mod_mod]
    have hdiv : d / b < b ^ width := by
      rw [Nat.div_lt_iff_lt_mul hb]
      rwa [pow_succ] at hd
    rw [digits, hquotient, hremainder, ih hdiv]
    rfl

/-- As many digits are read from the text of a number that has no more. -/
theorem readDigits_eq_some {b width n m : ℕ} {s rest : Str}
    (h : readDigits b width n s = some (m, rest)) :
    ∃ k < b ^ width, m = n * b ^ width + k ∧ s = digits b width k ++ rest := by
  induction width generalizing n s with
  | zero =>
    obtain ⟨rfl, rfl⟩ := Prod.mk.inj (Option.some.inj h)
    exact ⟨0, by simp, by simp, rfl⟩
  | succ width ih =>
    rcases s with _ | ⟨c, s⟩
    · cases h
    obtain ⟨n', hn', h⟩ := Option.bind_eq_some_iff.mp h
    obtain ⟨d, hd, rfl, rfl⟩ := readDigit_eq_some hn'
    obtain ⟨k, hk, rfl, rfl⟩ := ih h
    refine ⟨d * b ^ width + k, ?_, ?_, ?_⟩
    · calc d * b ^ width + k < d * b ^ width + b ^ width := by omega
        _ = (d + 1) * b ^ width := by rw [Nat.add_mul, Nat.one_mul]
        _ ≤ b * b ^ width := Nat.mul_le_mul_right _ hd
        _ = b ^ (width + 1) := by rw [pow_succ, Nat.mul_comm]
    · rw [Nat.add_mul, pow_succ, Nat.mul_assoc, Nat.mul_comm b, Nat.add_assoc]
    · rw [digits_succ hd hk]
      rfl

theorem readDigits_ten_iff {width n : ℕ} {s rest : Str} :
    readDigits 10 width 0 s = some (n, rest) ↔ n < 10 ^ width ∧ s = digits 10 width n ++ rest := by
  constructor
  · intro h
    obtain ⟨k, hk, hn, hs⟩ := readDigits_eq_some h
    rw [Nat.zero_mul, Nat.zero_add] at hn
    subst hn
    exact ⟨hk, hs⟩
  · rintro ⟨hn, rfl⟩
    exact readDigits_ten hn rest

theorem skipChar_eq_some_iff {c : CodePoint} {s rest : Str} :
    skipChar c s = some rest ↔ s = c :: rest := by
  constructor
  · intro h
    rcases s with _ | ⟨c', s⟩
    · cases h
    · rw [skipChar] at h
      split_ifs at h with hc
      rw [hc, Option.some.inj h]
  · rintro rfl
    exact skipChar_cons c rest

/-! ### Timestamps -/

/-- `\d`: the decimal digits of the Unicode database, the ASCII ones among them. -/
structure DecimalDigits where
  isDecimal : CodePoint → Bool
  ascii : ∀ n < 10, isDecimal (digit n) = true

/-- The digits of ASCII alone. -/
def asciiDigits : DecimalDigits where
  isDecimal c := 48 ≤ c.val ∧ c.val ≤ 57
  ascii := by decide

/-- `fullmatch` of a pattern that is a character class after another. -/
def fullmatch : List (CodePoint → Bool) → Str → Bool
  | [], [] => true
  | class' :: pattern, c :: s => class' c && fullmatch pattern s
  | _, _ => false

def exactly (c : CodePoint) : CodePoint → Bool := fun c' => c' = c

/-- `_UTC_TIMESTAMP_PATTERN` -/
def utcTimestampPattern (d : CodePoint → Bool) : List (CodePoint → Bool) :=
  List.replicate 4 d ++ exactly hyphen :: (List.replicate 2 d ++ exactly hyphen ::
    (List.replicate 2 d ++ exactly letterT :: (List.replicate 2 d ++ exactly colon ::
      (List.replicate 2 d ++ exactly colon :: (List.replicate 2 d ++ exactly dot ::
        (List.replicate 6 d ++ [exactly letterZ]))))))

/-- `isoformat(timespec="microseconds")`, up to the offset. -/
def isoformat (t : UtcDatetime) (offset : Str) : Str :=
  digits 10 4 t.year ++ hyphen :: (digits 10 2 t.month ++ hyphen :: (digits 10 2 t.day ++
    letterT :: (digits 10 2 t.hour ++ colon :: (digits 10 2 t.minute ++ colon ::
      (digits 10 2 t.second ++ dot :: (digits 10 6 t.microsecond ++ offset))))))

/-- `s.removesuffix(suffix)` -/
def removesuffix (suffix s : Str) : Str :=
  if suffix <:+ s then s.take (s.length - suffix.length) else s

/-- `datetime.fromisoformat` of a text with microseconds, in Python 3.12 and 3.13: it takes the
digits of ASCII only, and no hour 24. -/
def fromisoformat (offset s : Str) : Option UtcDatetime := do
  let (year, s) ← readDigits 10 4 0 s
  let (month, s) ← readDigits 10 2 0 (← skipChar hyphen s)
  let (day, s) ← readDigits 10 2 0 (← skipChar hyphen s)
  let (hour, s) ← readDigits 10 2 0 (← skipChar letterT s)
  let (minute, s) ← readDigits 10 2 0 (← skipChar colon s)
  let (second, s) ← readDigits 10 2 0 (← skipChar colon s)
  let (microsecond, s) ← readDigits 10 6 0 (← skipChar dot s)
  if s = offset then
    if h : ValidTime year month day hour minute second microsecond then
      some ⟨year, month, day, hour, minute, second, microsecond, h⟩
    else none
  else none

def utcOffset : Str := text "+00:00"

/-- `_require_pinned_utc_spelling`, with `require_utc` after it: the offset is that of UTC. -/
def validateUtc (decimal : DecimalDigits) (s : Str) : Option UtcDatetime :=
  if fullmatch (utcTimestampPattern decimal.isDecimal) s then
    fromisoformat utcOffset (removesuffix [letterZ] s ++ utcOffset)
  else none

theorem removesuffix_append (s suffix : Str) : removesuffix suffix (s ++ suffix) = s := by
  rw [removesuffix, if_pos (List.suffix_append s suffix), List.length_append,
    Nat.add_sub_cancel, List.take_left]

theorem isoformat_append (t : UtcDatetime) (offset : Str) :
    isoformat t offset = isoformat t [] ++ offset := by
  simp [isoformat, List.append_assoc]

theorem serializeUtc_eq (t : UtcDatetime) :
    serializeUtc t = removesuffix utcOffset (isoformat t utcOffset) ++ [letterZ] := by
  rw [isoformat_append t utcOffset, removesuffix_append, ← isoformat_append]
  rfl

/-- The two readers differ in the offset alone. -/
theorem requirePinnedUtcSpelling_eq (s : Str) :
    requirePinnedUtcSpelling s = fromisoformat [letterZ] s := rfl

/-- A separator and the field after it. -/
theorem readField_eq_some_iff {α : Type} {c : CodePoint} {width : ℕ} {s : Str}
    {f : ℕ × Str → Option α} {x : α} :
    ((skipChar c s).bind fun s => (readDigits 10 width 0 s).bind f) = some x ↔
      ∃ n rest, s = c :: (digits 10 width n ++ rest) ∧ n < 10 ^ width ∧ f (n, rest) = some x := by
  constructor
  · intro h
    obtain ⟨_, hs, hread⟩ := Option.bind_eq_some_iff.mp h
    obtain ⟨⟨n, rest⟩, hn, hf⟩ := Option.bind_eq_some_iff.mp hread
    obtain ⟨hlt, rfl⟩ := readDigits_ten_iff.mp hn
    exact ⟨n, rest, skipChar_eq_some_iff.mp hs, hlt, hf⟩
  · rintro ⟨n, rest, hs, hlt, h⟩
    refine Option.bind_eq_some_iff.mpr ⟨_, skipChar_eq_some_iff.mpr hs, ?_⟩
    exact Option.bind_eq_some_iff.mpr ⟨(n, rest), readDigits_ten_iff.mpr ⟨hlt, rfl⟩, h⟩

theorem fromisoformat_eq_some_iff {offset s : Str} {t : UtcDatetime} :
    fromisoformat offset s = some t ↔ isoformat t offset = s := by
  constructor
  · intro h
    obtain ⟨⟨year, _⟩, hyear, hmonth⟩ := Option.bind_eq_some_iff.mp h
    obtain ⟨-, rfl⟩ := readDigits_ten_iff.mp hyear
    obtain ⟨month, _, rfl, -, hday⟩ := readField_eq_some_iff.mp hmonth
    obtain ⟨day, _, rfl, -, hhour⟩ := readField_eq_some_iff.mp hday
    obtain ⟨hour, _, rfl, -, hminute⟩ := readField_eq_some_iff.mp hhour
    obtain ⟨minute, _, rfl, -, hsecond⟩ := readField_eq_some_iff.mp hminute
    obtain ⟨second, _, rfl, -, hmicrosecond⟩ := readField_eq_some_iff.mp hsecond
    obtain ⟨microsecond, _, rfl, -, hend⟩ := readField_eq_some_iff.mp hmicrosecond
    obtain ⟨rfl, hbuild⟩ := Option.ite_none_right_eq_some.mp hend
    obtain ⟨hvalid, ht⟩ := Option.dite_none_right_eq_some.mp hbuild
    rw [← Option.some.inj ht]
    rfl
  · rintro rfl
    obtain ⟨-, hyear, -, hmonth, -, -, hhour, hminute, hsecond, hmicrosecond⟩ := t.valid
    refine Option.bind_eq_some_iff.mpr ⟨(t.year, _), readDigits_ten_iff.mpr ⟨by omega, rfl⟩, ?_⟩
    refine readField_eq_some_iff.mpr ⟨t.month, _, rfl, by omega, ?_⟩
    refine readField_eq_some_iff.mpr ⟨t.day, _, rfl, t.day_lt, ?_⟩
    refine readField_eq_some_iff.mpr ⟨t.hour, _, rfl, by omega, ?_⟩
    refine readField_eq_some_iff.mpr ⟨t.minute, _, rfl, by omega, ?_⟩
    refine readField_eq_some_iff.mpr ⟨t.second, _, rfl, by omega, ?_⟩
    refine readField_eq_some_iff.mpr ⟨t.microsecond, _, rfl, by omega, ?_⟩
    exact (if_pos rfl).trans (dif_pos t.valid)

theorem fullmatch_append {p q : List (CodePoint → Bool)} {s t : Str} (hs : fullmatch p s = true)
    (ht : fullmatch q t = true) : fullmatch (p ++ q) (s ++ t) = true := by
  induction p, s using fullmatch.induct with
  | case1 => exact ht
  | case2 class' p c s ih =>
    simp only [fullmatch, Bool.and_eq_true] at hs
    simp only [List.cons_append, fullmatch, Bool.and_eq_true]
    exact ⟨hs.1, ih hs.2⟩
  | case3 => simp [fullmatch] at hs

theorem fullmatch_digits (decimal : DecimalDigits) (width n : ℕ) :
    fullmatch (List.replicate width decimal.isDecimal) (digits 10 width n) = true := by
  induction width generalizing n with
  | zero => rfl
  | succ width ih =>
    rw [List.replicate_succ', digits]
    refine fullmatch_append (ih (n / 10)) ?_
    simp only [fullmatch, Bool.and_true]
    exact decimal.ascii _ (Nat.mod_lt n (by omega))

/-- What ends in a pattern's last character ends in it. -/
theorem eq_append_of_fullmatch {p : List (CodePoint → Bool)} {c : CodePoint} {s : Str}
    (h : fullmatch (p ++ [exactly c]) s = true) : ∃ t, s = t ++ [c] := by
  induction p generalizing s with
  | nil =>
    rcases s with _ | ⟨c', _ | ⟨c'', s⟩⟩
    · cases h
    · obtain rfl : c' = c := by simpa [fullmatch, exactly] using h
      exact ⟨[], rfl⟩
    · simp [fullmatch] at h
  | cons class' p ih =>
    rcases s with _ | ⟨c', s⟩
    · cases h
    · simp only [List.cons_append, fullmatch, Bool.and_eq_true] at h
      obtain ⟨t, rfl⟩ := ih h.2
      exact ⟨c' :: t, rfl⟩

theorem fullmatch_serializeUtc (decimal : DecimalDigits) (t : UtcDatetime) :
    fullmatch (utcTimestampPattern decimal.isDecimal) (serializeUtc t) = true := by
  have hdigits := fullmatch_digits decimal
  have hchar : ∀ {c : CodePoint} {p : List (CodePoint → Bool)} {s : Str},
      fullmatch p s = true → fullmatch (exactly c :: p) (c :: s) = true := by
    intro c p s h
    simp [fullmatch, exactly, h]
  exact fullmatch_append (hdigits _ _) <| hchar <| fullmatch_append (hdigits _ _) <| hchar <|
    fullmatch_append (hdigits _ _) <| hchar <| fullmatch_append (hdigits _ _) <| hchar <|
    fullmatch_append (hdigits _ _) <| hchar <| fullmatch_append (hdigits _ _) <| hchar <|
    fullmatch_append (hdigits _ _) <| hchar rfl

theorem validateUtc_eq_some_iff (decimal : DecimalDigits) {s : Str} {t : UtcDatetime} :
    validateUtc decimal s = some t ↔ serializeUtc t = s := by
  have hserialize : serializeUtc t = isoformat t [] ++ [letterZ] := isoformat_append t [letterZ]
  rw [validateUtc, Option.ite_none_right_eq_some, fromisoformat_eq_some_iff,
    isoformat_append t utcOffset, List.append_left_inj]
  constructor
  · rintro ⟨hmatch, h⟩
    rw [utcTimestampPattern] at hmatch
    simp only [← List.append_assoc, ← List.cons_append] at hmatch
    obtain ⟨u, rfl⟩ := eq_append_of_fullmatch hmatch
    rw [removesuffix_append] at h
    rw [hserialize, h]
  · rintro rfl
    exact ⟨fullmatch_serializeUtc decimal t, by rw [hserialize, removesuffix_append]⟩

/-- The pattern's other digits are refused by the parser. -/
theorem validateUtc_eq (decimal : DecimalDigits) (s : Str) :
    validateUtc decimal s = requirePinnedUtcSpelling s := by
  rw [requirePinnedUtcSpelling_eq]
  refine Option.ext fun t => ?_
  rw [validateUtc_eq_some_iff, fromisoformat_eq_some_iff]
  rfl

/-! ### UUIDs -/

theorem readGroup_eq_some_iff {width : ℕ} {s rest : Str} {n : Fin (16 ^ width)} :
    readGroup width s = some (n, rest) ↔ s = digits 16 width n ++ rest := by
  constructor
  · intro h
    obtain ⟨⟨m, rest'⟩, hread, h⟩ := Option.bind_eq_some_iff.mp h
    split_ifs at h with hm
    obtain ⟨rfl, rfl⟩ := Prod.mk.inj (Option.some.inj h)
    obtain ⟨k, hk, hmk, rfl⟩ := readDigits_eq_some hread
    obtain rfl : m = k := by simpa using hmk
    rfl
  · rintro rfl
    exact readGroup_digits width n rest

theorem requirePinnedUuidSpelling_eq_some_iff {s : Str} {u : Uuid} :
    requirePinnedUuidSpelling s = some u ↔ u.spelling = s := by
  constructor
  · intro h
    simp only [requirePinnedUuidSpelling, Option.bind_eq_bind, Option.bind_eq_some_iff,
      readGroup_eq_some_iff, skipChar_eq_some_iff, Prod.exists,
      Option.ite_none_right_eq_some] at h
    obtain ⟨timeLow, -, rfl, -, rfl, timeMid, -, rfl, -, rfl, timeHi, -, rfl, -, rfl, clockSeq, -,
      rfl, -, rfl, node, -, rfl, rfl, h⟩ := h
    rw [← Option.some.inj h, List.append_nil]
    rfl
  · rintro rfl
    exact requirePinnedUuidSpelling_spelling u

/-! ### Base64 -/

/-- The padding character. -/
def pad : CodePoint := 61

/-- The standard alphabet. -/
def sextet (n : ℕ) : CodePoint :=
  Fin.ofNat _ (if n < 26 then 65 + n else if n < 52 then 71 + n else if n < 62 then n - 4
    else if n = 62 then 43 else 47)

/-- `binascii.b2a_base64` -/
def b2aBase64 : Bytes → Str
  | [] => []
  | [a] => [sextet (a.toNat / 4), sextet (a.toNat % 4 * 16), pad, pad]
  | [a, b] => [sextet (a.toNat / 4), sextet (a.toNat % 4 * 16 + b.toNat / 16),
      sextet (b.toNat % 16 * 4), pad]
  | a :: b :: c :: rest => sextet (a.toNat / 4) :: sextet (a.toNat % 4 * 16 + b.toNat / 16) ::
      sextet (b.toNat % 16 * 4 + c.toNat / 64) :: sextet (c.toNat % 64) :: b2aBase64 rest

/-- `urlsafe_b64encode` -/
def urlsafeB64encode (bytes : Bytes) : Str :=
  (b2aBase64 bytes).map fun c => if c = 43 then 45 else if c = 47 then 95 else c

/-- The value of a character of the standard alphabet. -/
def sextetValue (c : CodePoint) : Option ℕ :=
  if 65 ≤ c.val ∧ c.val ≤ 90 then some (c.val - 65)
  else if 97 ≤ c.val ∧ c.val ≤ 122 then some (c.val - 71)
  else if 48 ≤ c.val ∧ c.val ≤ 57 then some (c.val + 4)
  else if c.val = 43 then some 62
  else if c.val = 47 then some 63
  else none

/-- Where `binascii.a2b_base64` is in a group of four: its place, and the bits it has yet to give.
-/
inductive Quad
  | zero
  | one (left : ℕ)
  | two (left : ℕ)
  | three (left : ℕ)

def Quad.pos : Quad → ℕ
  | zero => 0
  | one _ => 1
  | two _ => 2
  | three _ => 3

/-- One more value: the byte it completes, and the place after it. -/
def Quad.take (v : ℕ) : Quad → Bytes × Quad
  | zero => ([], .one v)
  | one left => ([.ofNat (left * 4 + v / 16)], .two (v % 16))
  | two left => ([.ofNat (left * 16 + v / 4)], .three (v % 4))
  | three left => ([.ofNat (left * 64 + v)], .zero)

/-- The loop of `binascii.a2b_base64(.., strict_mode=True)`. -/
def a2bLoop (pads : ℕ) (paddingStarted : Bool) : Quad → Str → Option Bytes
  | quad, [] => if quad.pos = 0 then some [] else none
  | quad, c :: s =>
    if c = pad then
      if 2 ≤ quad.pos then
        if 4 ≤ quad.pos + (pads + 1) then
          if s = [] then some [] else none
        else a2bLoop (pads + 1) true quad s
      else a2bLoop pads true quad s
    else
      match sextetValue c with
      | none => none
      | some v =>
        if paddingStarted then none
        else (a2bLoop 0 false (quad.take v).2 s).map ((quad.take v).1 ++ ·)

/-- `binascii.a2b_base64(.., strict_mode=True)` -/
def a2bBase64 (s : Str) : Option Bytes :=
  if s.head? = some pad then none else a2bLoop 0 false .zero s

/-- `b64decode(.., altchars=b"-_", validate=True)` of the ASCII encoding of a string. -/
def b64decode (s : Str) : Option Bytes :=
  if s.all fun c => c.val < 128 then
    a2bBase64 (s.map fun c => if c = 45 then 43 else if c = 95 then 47 else c)
  else none

/-- `_require_pinned_base64_spelling` -/
def requirePinnedBase64Spelling (s : Str) : Option Bytes :=
  (b64decode s).bind fun decoded => if urlsafeB64encode decoded = s then some decoded else none

theorem sextet_spec {n : ℕ} (h : n < 64) :
    sextetValue (sextet n) = some n ∧ sextet n ≠ pad ∧ sextet n ≠ 45 ∧ sextet n ≠ 95 ∧
      (sextet n).val < 128 := by
  have key : ∀ n : Fin 64, sextetValue (sextet n) = some n.val ∧ sextet n ≠ pad ∧
      sextet n ≠ 45 ∧ sextet n ≠ 95 ∧ (sextet n).val < 128 := by decide
  exact key ⟨n, h⟩

/-- A character of the alphabet is one more value. -/
theorem a2bLoop_sextet {n : ℕ} (h : n < 64) (quad : Quad) (s : Str) :
    a2bLoop 0 false quad (sextet n :: s) =
      (a2bLoop 0 false (quad.take n).2 s).map ((quad.take n).1 ++ ·) := by
  obtain ⟨hvalue, hpad, -⟩ := sextet_spec h
  rw [a2bLoop, if_neg hpad, hvalue]
  rfl

theorem ofNat_eq {b : UInt8} {n : ℕ} (h : n = b.toNat) : UInt8.ofNat n = b := by
  rw [h, UInt8.ofNat_toNat]

theorem a2bLoop_two_pads (left : ℕ) : a2bLoop 0 false (.two left) [pad, pad] = some [] := rfl

theorem a2bLoop_one_pad (left : ℕ) : a2bLoop 0 false (.three left) [pad] = some [] := rfl

/-- What is written is read. -/
theorem a2bLoop_b2aBase64 (bytes : Bytes) :
    a2bLoop 0 false .zero (b2aBase64 bytes) = some bytes := by
  induction bytes using b2aBase64.induct with
  | case1 => rfl
  | case2 a =>
    have ha := a.toNat_lt
    have hfirst : UInt8.ofNat (a.toNat / 4 * 4 + a.toNat % 4 * 16 / 16) = a := ofNat_eq (by omega)
    rw [b2aBase64, a2bLoop_sextet (by omega), Quad.take, a2bLoop_sextet (by omega), Quad.take,
      a2bLoop_two_pads, hfirst]
    rfl
  | case3 a b =>
    have ha := a.toNat_lt
    have hb := b.toNat_lt
    have hfirst : UInt8.ofNat (a.toNat / 4 * 4 + (a.toNat % 4 * 16 + b.toNat / 16) / 16) = a :=
      ofNat_eq (by omega)
    have hsecond : UInt8.ofNat ((a.toNat % 4 * 16 + b.toNat / 16) % 16 * 16 +
        b.toNat % 16 * 4 / 4) = b := ofNat_eq (by omega)
    rw [b2aBase64, a2bLoop_sextet (by omega), Quad.take, a2bLoop_sextet (by omega), Quad.take,
      a2bLoop_sextet (by omega), Quad.take, a2bLoop_one_pad, hfirst, hsecond]
    rfl
  | case4 a b c rest ih =>
    have ha := a.toNat_lt
    have hb := b.toNat_lt
    have hc := c.toNat_lt
    have hfirst : UInt8.ofNat (a.toNat / 4 * 4 + (a.toNat % 4 * 16 + b.toNat / 16) / 16) = a :=
      ofNat_eq (by omega)
    have hsecond : UInt8.ofNat ((a.toNat % 4 * 16 + b.toNat / 16) % 16 * 16 +
        (b.toNat % 16 * 4 + c.toNat / 64) / 4) = b := ofNat_eq (by omega)
    have hthird : UInt8.ofNat ((b.toNat % 16 * 4 + c.toNat / 64) % 4 * 64 + c.toNat % 64) = c :=
      ofNat_eq (by omega)
    rw [b2aBase64, a2bLoop_sextet (by omega), Quad.take, a2bLoop_sextet (by omega), Quad.take,
      a2bLoop_sextet (by omega), Quad.take, a2bLoop_sextet (by omega), Quad.take, ih, hfirst,
      hsecond, hthird]
    rfl

/-- A character of the standard spelling. -/
def Standard (c : CodePoint) : Prop := c ≠ 45 ∧ c ≠ 95 ∧ c.val < 128

instance : DecidablePred Standard := fun _ => inferInstanceAs (Decidable (_ ∧ _))

theorem standard_b2aBase64 (bytes : Bytes) : ∀ c ∈ b2aBase64 bytes, Standard c := by
  have hsextet : ∀ n, n < 64 → Standard (sextet n) := fun n h => (sextet_spec h).2.2
  have hpad : Standard pad := by decide
  induction bytes using b2aBase64.induct with
  | case1 => simp [b2aBase64]
  | case2 a =>
    have ha := a.toNat_lt
    simp only [b2aBase64, List.forall_mem_cons, List.not_mem_nil, false_imp_iff, forall_const,
      and_true]
    exact ⟨hsextet _ (by omega), hsextet _ (by omega), hpad, hpad⟩
  | case3 a b =>
    have ha := a.toNat_lt
    have hb := b.toNat_lt
    simp only [b2aBase64, List.forall_mem_cons, List.not_mem_nil, false_imp_iff, forall_const,
      and_true]
    exact ⟨hsextet _ (by omega), hsextet _ (by omega), hsextet _ (by omega), hpad⟩
  | case4 a b c rest ih =>
    have ha := a.toNat_lt
    have hb := b.toNat_lt
    have hc := c.toNat_lt
    simp only [b2aBase64, List.forall_mem_cons]
    exact ⟨hsextet _ (by omega), hsextet _ (by omega), hsextet _ (by omega), hsextet _ (by omega),
      ih⟩

/-- The standard alphabet is told from the other again. -/
theorem map_urlsafeB64encode (bytes : Bytes) :
    (urlsafeB64encode bytes).map (fun c => if c = 45 then 43 else if c = 95 then 47 else c) =
      b2aBase64 bytes := by
  rw [urlsafeB64encode, List.map_map]
  refine Eq.trans (List.map_congr_left fun c hc => ?_) (List.map_id _)
  obtain ⟨hhyphen, hunderscore, -⟩ := standard_b2aBase64 bytes c hc
  rcases eq_or_ne c 43 with rfl | hplus
  · rfl
  rcases eq_or_ne c 47 with rfl | hslash
  · rfl
  simp only [Function.comp_apply, id, if_neg hplus, if_neg hslash, if_neg hhyphen,
    if_neg hunderscore]

theorem ascii_urlsafeB64encode (bytes : Bytes) : ∀ c ∈ urlsafeB64encode bytes, c.val < 128 := by
  intro c hc
  obtain ⟨d, hd, rfl⟩ := List.mem_map.mp hc
  have hascii := (standard_b2aBase64 bytes d hd).2.2
  split_ifs
  · decide
  · decide
  · exact hascii

theorem head_b2aBase64 (bytes : Bytes) : (b2aBase64 bytes).head? ≠ some pad := by
  have hpad : ∀ (a : UInt8) (s : Str), (sextet (a.toNat / 4) :: s).head? ≠ some pad := by
    intro a s h
    have ha := a.toNat_lt
    exact (sextet_spec (show a.toNat / 4 < 64 by omega)).2.1 (Option.some.inj h)
  rcases bytes with _ | ⟨a, _ | ⟨b, _ | ⟨c, rest⟩⟩⟩
  · nofun
  · exact hpad a _
  · exact hpad a _
  · exact hpad a _

theorem b64decode_urlsafeB64encode (bytes : Bytes) :
    b64decode (urlsafeB64encode bytes) = some bytes := by
  have hascii : ((urlsafeB64encode bytes).all fun c => c.val < 128) = true := by
    simpa using ascii_urlsafeB64encode bytes
  rw [b64decode, if_pos hascii, map_urlsafeB64encode, a2bBase64, if_neg (head_b2aBase64 bytes),
    a2bLoop_b2aBase64]

theorem requirePinnedBase64Spelling_eq_some_iff {s : Str} {bytes : Bytes} :
    requirePinnedBase64Spelling s = some bytes ↔ urlsafeB64encode bytes = s := by
  constructor
  · intro h
    obtain ⟨decoded, -, h⟩ := Option.bind_eq_some_iff.mp h
    split_ifs at h with hs
    rwa [← Option.some.inj h]
  · rintro rfl
    rw [requirePinnedBase64Spelling, b64decode_urlsafeB64encode, Option.bind_some, if_pos rfl]

/-- **Timestamps, UUIDs and bytes are spelled once**: each validator accepts the text of every
value, reads that value from it, and accepts no other text. -/
theorem scalars_spelled_once (decimal : DecimalDigits) :
    SpelledOnce serializeUtc (validateUtc decimal) ∧
      SpelledOnce Uuid.spelling requirePinnedUuidSpelling ∧
      SpelledOnce urlsafeB64encode requirePinnedBase64Spelling :=
  ⟨.of_eq_some_iff fun _ _ => validateUtc_eq_some_iff decimal,
    .of_eq_some_iff fun _ _ => requirePinnedUuidSpelling_eq_some_iff,
    .of_eq_some_iff fun _ _ => requirePinnedBase64Spelling_eq_some_iff⟩

end DrExec.Core.Spellings
