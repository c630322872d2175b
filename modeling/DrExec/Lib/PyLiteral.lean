import DrExec.Lib.JsonLoads
import Mathlib.Tactic.Ring

/-! # Python string literals

`repr` of a string, and how Python reads a short string literal. Which characters past ASCII are
printable is a parameter. A `repr` holds no control character, so it is one line of source whatever
the string is, and it reads back as the string (`readLiteral_pyRepr`). -/

namespace DrExec.Lib.PyLiteral

open DrExec.Lib.Json DrExec.Lib.JsonLoads

def singleQuote : CodePoint := 39

def doubleQuote : CodePoint := 34

def backslash : CodePoint := 92

/-! ### Writing -/

def hexDigit (n : ℕ) : CodePoint := Fin.ofNat _ (if n < 10 then 48 + n else 87 + n)

/-- The last hexadecimal digits of a number. -/
def hexDigits : ℕ → ℕ → Str
  | 0, _ => []
  | width + 1, n => hexDigit (n / 16 ^ width % 16) :: hexDigits width n

/-- The quote around a string: a single one, unless that alone would have to be escaped. -/
def quoteOf (s : Str) : CodePoint :=
  if singleQuote ∈ s ∧ doubleQuote ∉ s then doubleQuote else singleQuote

/-- The escape of a character by its number. -/
def numbered (c : CodePoint) : Str :=
  if c.val < 0x100 then [backslash, 120] ++ hexDigits 2 c
  else if c.val < 0x10000 then [backslash, 117] ++ hexDigits 4 c
  else [backslash, 85] ++ hexDigits 8 c

/-- A character of a string in its `repr`. -/
def escape (printable : CodePoint → Bool) (quote c : CodePoint) : Str :=
  if c = quote ∨ c = backslash then [backslash, c]
  else if c = 9 then [backslash, 116]
  else if c = 10 then [backslash, 110]
  else if c = 13 then [backslash, 114]
  else if c.val < 32 ∨ c = 127 then numbered c
  else if c.val < 127 ∨ printable c then [c]
  else numbered c

/-- `repr` of a string. -/
def pyRepr (printable : CodePoint → Bool) (s : Str) : Str :=
  quoteOf s :: (s.flatMap (escape printable (quoteOf s)) ++ [quoteOf s])

/-! ### Reading -/

/-- A number of as many hexadecimal digits, after those that gave `n`. -/
def readHex : ℕ → ℕ → Str → Option (ℕ × Str)
  | 0, n, s => some (n, s)
  | _ + 1, _, [] => none
  | width + 1, n, c :: s => (JsonLoads.hexValue c).bind fun d => readHex width (n * 16 + d) s

/-- A character by its number. -/
def readNumbered (width : ℕ) (s : Str) : Option (Str × Str) :=
  (readHex width 0 s).bind fun r => if h : r.1 < 0x110000 then some ([⟨r.1, h⟩], r.2) else none

/-- The value of an octal digit. -/
def octalValue (c : CodePoint) : Option ℕ :=
  if 48 ≤ c.val ∧ c.val ≤ 55 then some (c.val - 48) else none

/-- An octal escape: up to three digits. -/
def readOctal : ℕ → ℕ → Str → ℕ × Str
  | 0, n, s => (n, s)
  | _ + 1, n, [] => (n, [])
  | more + 1, n, c :: s =>
    match octalValue c with
    | some d => readOctal more (n * 8 + d) s
    | none => (n, c :: s)

/-- The escape behind a backslash: what it stands for, and what is left. An escape that is not known
stands for itself, and one by a name is not read. -/
def readEscape : Str → Option (Str × Str)
  | [] => none
  | c :: s =>
    if c = 10 then some ([], s)
    else if c = backslash ∨ c = singleQuote ∨ c = doubleQuote then some ([c], s)
    else if c = 97 then some ([7], s)
    else if c = 98 then some ([8], s)
    else if c = 116 then some ([9], s)
    else if c = 110 then some ([10], s)
    else if c = 118 then some ([11], s)
    else if c = 102 then some ([12], s)
    else if c = 114 then some ([13], s)
    else if c = 120 then readNumbered 2 s
    else if c = 117 then readNumbered 4 s
    else if c = 85 then readNumbered 8 s
    else if c = 78 then none
    else if (octalValue c).isSome then
      let (n, rest) := readOctal 3 0 (c :: s)
      some ([Fin.ofNat _ n], rest)
    else some ([backslash, c], s)

/-- The characters of a literal up to its quote. A literal ends on its line. -/
def readBody (quote : CodePoint) : ℕ → Str → Option (Str × Str)
  | 0, _ | _ + 1, [] => none
  | fuel + 1, c :: s =>
    if c = quote then some ([], s)
    else if c = 10 ∨ c = 13 then none
    else if c = backslash then
      (readEscape s).bind fun e => (readBody quote fuel e.2).map fun r => (e.1 ++ r.1, r.2)
    else (readBody quote fuel s).map fun r => (c :: r.1, r.2)

/-- A short string literal without a letter before it. Three quotes begin a long one. -/
def readLiteral : Str → Option (Str × Str)
  | [] => none
  | quote :: s =>
    if (quote = singleQuote ∨ quote = doubleQuote) ∧ ¬ [quote, quote] <+: s then
      readBody quote s.length s
    else none

/-! ### The characters of a `repr` -/

variable {printable : CodePoint → Bool} {quote c : CodePoint} {s : Str}

theorem hexDigit_val {n : ℕ} (h : n < 16) : (hexDigit n).val = if n < 10 then 48 + n else 87 + n := by
  simp only [hexDigit, Fin.val_ofNat]
  split_ifs <;> omega

/-- Printable ASCII, or past it. -/
def Inert (c : CodePoint) : Prop := 32 ≤ c.val ∧ c.val ≠ 127

theorem inert_hexDigits (width n : ℕ) : ∀ c ∈ hexDigits width n, Inert c := by
  induction width with
  | zero => simp [hexDigits]
  | succ width ih =>
    intro c hc
    rcases List.mem_cons.mp hc with rfl | hc
    · have hval := hexDigit_val (n := n / 16 ^ width % 16) (Nat.mod_lt _ (by omega))
      unfold Inert
      split_ifs at hval <;> omega
    · exact ih c hc

theorem inert_numbered (c : CodePoint) : ∀ d ∈ numbered c, Inert d := by
  have hescape : Inert backslash ∧ Inert 120 ∧ Inert 117 ∧ Inert 85 := by
    unfold Inert backslash
    decide
  intro d hd
  unfold numbered at hd
  split_ifs at hd
  all_goals
    rcases List.mem_append.mp hd with hd | hd
    · simp only [List.mem_cons, List.not_mem_nil, or_false] at hd
      rcases hd with rfl | rfl <;> tauto
    · exact inert_hexDigits _ _ d hd

theorem inert_pair {a b : CodePoint} (ha : Inert a) (hb : Inert b) : ∀ d ∈ [a, b], Inert d := by
  simp [ha, hb]

theorem inert_escape (hquote : Inert quote) : ∀ d ∈ escape printable quote c, Inert d := by
  have hescape : Inert backslash ∧ Inert 116 ∧ Inert 110 ∧ Inert 114 := by
    unfold Inert backslash
    decide
  obtain ⟨hbackslash, ht, hn, hr⟩ := hescape
  unfold escape
  split_ifs with hquoted _ _ _ hcontrol hshown
  · rcases hquoted with rfl | rfl
    · exact inert_pair hbackslash hquote
    · exact inert_pair hbackslash hbackslash
  · exact inert_pair hbackslash ht
  · exact inert_pair hbackslash hn
  · exact inert_pair hbackslash hr
  · exact inert_numbered c
  · rintro d hd
    obtain rfl := List.mem_singleton.mp hd
    push Not at hcontrol
    exact ⟨hcontrol.1, fun h => hcontrol.2 (Fin.ext h)⟩
  · exact inert_numbered c

theorem inert_quoteOf (s : Str) : Inert (quoteOf s) := by
  have hquotes : Inert singleQuote ∧ Inert doubleQuote := by
    unfold Inert singleQuote doubleQuote
    decide
  unfold quoteOf
  split_ifs
  · exact hquotes.2
  · exact hquotes.1

/-- **A `repr` holds no control character**, no line break in particular. -/
theorem inert_pyRepr (printable : CodePoint → Bool) (s : Str) : ∀ c ∈ pyRepr printable s, Inert c := by
  intro c hc
  rcases List.mem_cons.mp hc with rfl | hc
  · exact inert_quoteOf s
  rcases List.mem_append.mp hc with hc | hc
  · obtain ⟨d, -, hd⟩ := List.mem_flatMap.mp hc
    exact inert_escape (inert_quoteOf s) c hd
  · exact List.mem_singleton.mp hc ▸ inert_quoteOf s

/-! ### Reading what was written -/

theorem hexValue_hexDigit {n : ℕ} (h : n < 16) : JsonLoads.hexValue (hexDigit n) = some n := by
  have hval := hexDigit_val h
  unfold JsonLoads.hexValue
  split_ifs at hval <;> simp only [hval]
  · rw [if_pos (by omega), Nat.add_sub_cancel_left]
  · rw [if_neg (by omega), if_pos (by omega), Nat.add_sub_cancel_left]

/-- Reading digits after others is reading one longer number. -/
theorem readHex_hexDigits (width n m : ℕ) (rest : Str) :
    readHex width m (hexDigits width n ++ rest) =
      some (m * 16 ^ width + n % 16 ^ width, rest) := by
  induction width generalizing m with
  | zero => simp [readHex, hexDigits, Nat.mod_one]
  | succ width ih =>
    have hdigit : n / 16 ^ width % 16 < 16 := Nat.mod_lt _ (by omega)
    rw [hexDigits, List.cons_append, readHex, hexValue_hexDigit hdigit, Option.bind_some, ih,
      Nat.mod_pow_succ, pow_succ]
    simp only [Option.some.injEq, Prod.mk.injEq, and_true]
    ring

theorem readNumbered_hexDigits {width : ℕ} (h : c.val < 16 ^ width) (rest : Str) :
    readNumbered width (hexDigits width c ++ rest) = some ([c], rest) := by
  rw [readNumbered, readHex_hexDigits, Nat.zero_mul, Nat.zero_add, Nat.mod_eq_of_lt h,
    Option.bind_some, dif_pos c.isLt]

/-- The quotes of a short literal. -/
def IsQuote (quote : CodePoint) : Prop := quote = singleQuote ∨ quote = doubleQuote

/-- An escape is read as one character. -/
theorem readBody_backslash (hquote : IsQuote quote) {tail rest : Str} {v : Str} (fuel : ℕ)
    (h : readEscape tail = some (v, rest)) :
    readBody quote (fuel + 1) (backslash :: tail) =
      (readBody quote fuel rest).map fun r => (v ++ r.1, r.2) := by
  have hne : backslash ≠ quote := by
    rintro rfl
    rcases hquote with h | h <;> exact absurd h (by decide)
  rw [readBody, if_neg hne, if_neg (by decide), if_pos rfl, h, Option.bind_some]

theorem readEscape_numbered (c : CodePoint) (rest : Str) :
    ∃ tail, numbered c ++ rest = backslash :: tail ∧ readEscape tail = some ([c], rest) := by
  unfold numbered
  split_ifs with hbyte hplane
  · exact ⟨120 :: (hexDigits 2 c ++ rest), rfl, readNumbered_hexDigits (by omega) rest⟩
  · exact ⟨117 :: (hexDigits 4 c ++ rest), rfl, readNumbered_hexDigits (by omega) rest⟩
  · exact ⟨85 :: (hexDigits 8 c ++ rest), rfl, readNumbered_hexDigits (by omega) rest⟩

/-- **One character of a `repr` is read as that character.** -/
theorem readBody_escape (hquote : IsQuote quote) (c : CodePoint) (rest : Str) (fuel : ℕ) :
    readBody quote (fuel + 1) (escape printable quote c ++ rest) =
      (readBody quote fuel rest).map fun r => (c :: r.1, r.2) := by
  have hnumbered : readBody quote (fuel + 1) (numbered c ++ rest) =
      (readBody quote fuel rest).map fun r => (c :: r.1, r.2) := by
    obtain ⟨tail, htail, hread⟩ := readEscape_numbered c rest
    rw [htail]
    exact readBody_backslash hquote fuel hread
  unfold escape
  split_ifs with hquoted htab hfeed hreturn hcontrol hshown
  · have hstands : c = backslash ∨ c = singleQuote ∨ c = doubleQuote := by
      rcases hquoted with rfl | h
      · exact .inr hquote
      · exact .inl h
    have hline : c ≠ 10 := by
      rintro rfl
      rcases hstands with h | h | h <;> exact absurd h (by decide)
    have hread : readEscape (c :: rest) = some ([c], rest) := by
      rw [readEscape, if_neg hline, if_pos hstands]
    exact readBody_backslash hquote fuel hread
  · obtain rfl := htab
    exact readBody_backslash hquote fuel (show readEscape (116 :: rest) = some ([9], rest) from rfl)
  · obtain rfl := hfeed
    exact readBody_backslash hquote fuel (show readEscape (110 :: rest) = some ([10], rest) from rfl)
  · obtain rfl := hreturn
    exact readBody_backslash hquote fuel (show readEscape (114 :: rest) = some ([13], rest) from rfl)
  · exact hnumbered
  · push Not at hquoted
    rw [List.singleton_append, readBody, if_neg hquoted.1, if_neg (not_or.mpr ⟨hfeed, hreturn⟩),
      if_neg hquoted.2]
  · exact hnumbered

theorem readBody_escaped (hquote : IsQuote quote) (s rest : Str) {fuel : ℕ} (h : s.length < fuel) :
    readBody quote fuel (s.flatMap (escape printable quote) ++ quote :: rest) = some (s, rest) := by
  induction s generalizing fuel with
  | nil =>
    obtain ⟨fuel, rfl⟩ := Nat.exists_eq_succ_of_ne_zero (Nat.ne_of_gt h)
    exact if_pos rfl
  | cons c s ih =>
    obtain ⟨fuel, rfl⟩ := Nat.exists_eq_succ_of_ne_zero (Nat.ne_of_gt (Nat.zero_lt_of_lt h))
    rw [List.flatMap_cons, List.append_assoc, readBody_escape hquote,
      ih (by simpa using h)]
    rfl

theorem isQuote_quoteOf (s : Str) : IsQuote (quoteOf s) := by
  unfold quoteOf
  split_ifs
  · exact .inr rfl
  · exact .inl rfl

variable (printable quote) in
theorem length_escape_pos (c : CodePoint) : 0 < (escape printable quote c).length := by
  unfold escape numbered
  split_ifs <;> simp

variable (printable quote) in
theorem length_le_escaped (s : Str) :
    s.length ≤ (s.flatMap (escape printable quote)).length := by
  induction s with
  | nil => simp
  | cons c s ih =>
    have hpos := length_escape_pos printable quote c
    rw [List.flatMap_cons, List.length_append, List.length_cons]
    omega

/-- A `repr` does not begin a long literal, unless a quote follows that of the empty string. -/
theorem not_long {s rest : Str} (hrest : ∀ c ∈ rest.head?, ¬ IsQuote c) :
    ¬ [quoteOf s, quoteOf s] <+: s.flatMap (escape printable (quoteOf s)) ++ quoteOf s :: rest := by
  intro hlong
  cases s with
  | nil =>
    obtain ⟨more, hmore⟩ := hlong
    obtain rfl : rest = quoteOf [] :: more := (List.cons.inj hmore.symm).2
    exact hrest _ rfl (isQuote_quoteOf [])
  | cons c s =>
    generalize hq : quoteOf (c :: s) = quote at hlong
    have hquote : IsQuote quote := hq ▸ isQuote_quoteOf _
    have hbackslash : quote ≠ backslash := by
      rintro rfl
      rcases hquote with h | h <;> exact absurd h (by decide)
    have hhead : (escape printable quote c).head? ≠ some quote := by
      unfold escape numbered
      split_ifs with hquoted <;> simp only [List.head?_cons, List.cons_append, ne_eq,
        Option.some.injEq, hbackslash.symm, not_false_eq_true]
      exact fun h => hquoted (.inl h)
    have hpos := length_escape_pos printable quote c
    obtain ⟨d, more, hd⟩ := List.exists_cons_of_length_pos hpos
    rw [List.flatMap_cons, hd, List.cons_append] at hlong
    obtain ⟨rfl, -⟩ := List.cons_prefix_cons.mp hlong
    exact hhead (by rw [hd]; rfl)

/-- **A `repr` reads back as its string**, whatever does not begin with a quote behind it. -/
theorem readLiteral_pyRepr (printable : CodePoint → Bool) (s : Str) {rest : Str}
    (hrest : ∀ c ∈ rest.head?, ¬ IsQuote c) :
    readLiteral (pyRepr printable s ++ rest) = some (s, rest) := by
  rw [pyRepr, List.cons_append, List.append_assoc, List.singleton_append, readLiteral,
    if_pos ⟨isQuote_quoteOf s, not_long hrest⟩]
  refine readBody_escaped (isQuote_quoteOf s) s rest ?_
  have hle := length_le_escaped printable (quoteOf s) s
  rw [List.length_append, List.length_cons]
  omega

end DrExec.Lib.PyLiteral
