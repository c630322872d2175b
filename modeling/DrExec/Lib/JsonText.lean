import DrExec.Lib.Json

/-! # The canonical text of a JSON value, and reading it back

`dumps` writes a value as `json.dumps` does with sorted keys, compact separators, ASCII only and no
non-finite numbers. It reads nothing of a value but its normal form (`dumps_normalize`) and writes
printable ASCII only (`printable_dumps`), so that a canonical text is one line. `loads` reads such
text back: it gives every normal value without lone surrogates from its text (`loads_dumps`). -/

namespace DrExec.Lib.Json

/-! ### Writing -/

/-- A lower-case hexadecimal digit. -/
def hexDigit (n : ℕ) : UInt8 := .ofNat (if n < 10 then 48 + n else 87 + n)

/-- A `\u` escape of a 16-bit number. -/
def unicodeEscape (n : ℕ) : Bytes :=
  [92, 117, hexDigit (n / 4096 % 16), hexDigit (n / 256 % 16), hexDigit (n / 16 % 16),
    hexDigit (n % 16)]

/-- The letter of a two-byte escape. -/
def escapeLetter (n : ℕ) : Option UInt8 :=
  if n = 34 then some 34
  else if n = 92 then some 92
  else if n = 8 then some 98
  else if n = 12 then some 102
  else if n = 10 then some 110
  else if n = 13 then some 114
  else if n = 9 then some 116
  else none

/-- A code point within a quoted string: itself, or an escape, of two halves above 16 bits. -/
def escapeCodePoint (c : CodePoint) : Bytes :=
  match escapeLetter c.val with
  | some letter => [92, letter]
  | none =>
    if 32 ≤ c.val ∧ c.val ≤ 126 then [.ofNat c.val]
    else if c.val < 0x10000 then unicodeEscape c.val
    else unicodeEscape (0xd800 + (c.val - 0x10000) / 1024) ++
      unicodeEscape (0xdc00 + (c.val - 0x10000) % 1024)

/-- A string in quotes. -/
def quote (s : Str) : Bytes := 34 :: s.flatMap escapeCodePoint ++ [34]

/-- A natural number in decimal. -/
def natText (n : ℕ) : Bytes := (Nat.toDigits 10 n).map fun c => .ofNat c.toNat

/-- An integer in decimal. -/
def intText : ℤ → Bytes
  | .ofNat n => natText n
  | .negSucc n => 45 :: natText (n + 1)

/-- Parts with commas between them. -/
def commaSeparated : List Bytes → Bytes
  | [] => []
  | [part] => part
  | part :: next :: parts => part ++ 44 :: commaSeparated (next :: parts)

/-- A member of an object, its value already written. -/
def memberText (m : Str × Bytes) : Bytes := quote m.1 ++ 58 :: m.2

mutual

/-- The canonical text of a value. -/
def dumps : Json → Bytes
  | .null => ascii "null"
  | .bool true => ascii "true"
  | .bool false => ascii "false"
  | .int n => intText n
  | .float x => x.text
  | .str s => quote s
  | .arr items => 91 :: commaSeparated (dumpsItems items) ++ [93]
  | .obj members =>
    123 :: commaSeparated ((sortKeys (dumpsMembers members)).map memberText) ++ [125]

def dumpsItems : List Json → List Bytes
  | [] => []
  | v :: items => dumps v :: dumpsItems items

def dumpsMembers : List (Str × Json) → List (Str × Bytes)
  | [] => []
  | (k, v) :: members => (k, dumps v) :: dumpsMembers members

end

theorem dumpsItems_eq (items : List Json) : dumpsItems items = items.map dumps := by
  induction items with
  | nil => rfl
  | cons v items ih => rw [dumpsItems, ih, List.map_cons]

theorem dumpsMembers_eq (members : List (Str × Json)) :
    dumpsMembers members = mapValues dumps members := by
  induction members with
  | nil => rfl
  | cons m members ih => rw [dumpsMembers, ih]; rfl

theorem dumps_obj (members : List (Str × Json)) :
    dumps (.obj members) =
      123 :: commaSeparated ((mapValues dumps (sortKeys members)).map memberText) ++ [125] := by
  rw [dumps, dumpsMembers_eq, sortKeys_mapValues]

/-- **The canonical text is that of the normal form.** -/
theorem dumps_normalize (v : Json) : dumps (normalize v) = dumps v := by
  induction v using Json.induction with
  | null | bool | int | float | str => rfl
  | arr items ih =>
    have htext : (items.map normalize).map dumps = items.map dumps := by
      rw [List.map_map]
      exact List.map_congr_left ih
    rw [normalize, normalizeItems_eq, dumps, dumps, dumpsItems_eq, dumpsItems_eq, htext]
  | obj members ih =>
    have hsorted := (keysSorted_sortKeys members).mapValues normalize
    have htext : mapValues dumps (mapValues normalize (sortKeys members)) =
        mapValues dumps (sortKeys members) := by
      simp only [mapValues, List.map_map]
      exact List.map_congr_left fun m hm => Prod.ext rfl (ih m (mem_sortKeys hm))
    rw [normalize_obj, dumps_obj, dumps_obj, sortKeys_of_sorted hsorted, htext]

/-! ### Printable text -/

/-- A printable ASCII byte. -/
def Printable (b : UInt8) : Prop := 32 ≤ b.toNat ∧ b.toNat ≤ 126

instance : DecidablePred Printable := fun _ => inferInstanceAs (Decidable (_ ∧ _))

theorem printable_hexDigit {n : ℕ} (h : n < 16) : Printable (hexDigit n) := by
  have key : ∀ d : Fin 16, Printable (hexDigit d) := by decide
  exact key ⟨n, h⟩

theorem printable_unicodeEscape (n : ℕ) : ∀ b ∈ unicodeEscape n, Printable b := by
  have hdigit : ∀ m, Printable (hexDigit (m % 16)) := fun m =>
    printable_hexDigit (Nat.mod_lt _ (by omega))
  simp only [unicodeEscape, List.mem_cons, List.not_mem_nil, or_false, forall_eq_or_imp, forall_eq]
  exact ⟨by decide, by decide, hdigit _, hdigit _, hdigit _, hdigit _⟩

theorem printable_escapeLetter {n : ℕ} {b : UInt8} (h : escapeLetter n = some b) :
    Printable b := by
  unfold escapeLetter at h
  split_ifs at h <;> cases h <;> decide

theorem printable_escapeCodePoint (c : CodePoint) : ∀ b ∈ escapeCodePoint c, Printable b := by
  unfold escapeCodePoint
  split
  · rename_i letter hletter
    simp only [List.mem_cons, List.not_mem_nil, or_false, forall_eq_or_imp, forall_eq]
    exact ⟨by decide, printable_escapeLetter hletter⟩
  · split_ifs with hplain hshort
    · simp only [List.mem_singleton, forall_eq, Printable, UInt8.toNat_ofNat']
      omega
    · exact printable_unicodeEscape _
    · intro b hb
      rcases List.mem_append.mp hb with hb | hb
      · exact printable_unicodeEscape _ b hb
      · exact printable_unicodeEscape _ b hb

theorem printable_quote (s : Str) : ∀ b ∈ quote s, Printable b := by
  intro b hb
  simp only [quote, List.cons_append, List.mem_cons, List.mem_append, List.mem_flatMap,
    List.not_mem_nil, or_false] at hb
  rcases hb with rfl | ⟨c, -, hb⟩ | rfl
  · decide
  · exact printable_escapeCodePoint c b hb
  · decide

/-- The byte of a digit. -/
theorem digit_of_natText {n : ℕ} {b : UInt8} (h : b ∈ natText n) :
    48 ≤ b.toNat ∧ b.toNat ≤ 57 := by
  obtain ⟨c, hc, rfl⟩ := List.mem_map.mp h
  have hdigit := Char.isDigit_iff_toNat.mp (Nat.isDigit_of_mem_toDigits (by omega) (by omega) hc)
  simp only [Char.reduceToNat] at hdigit
  rw [UInt8.toNat_ofNat']
  omega

theorem printable_intText (n : ℤ) : ∀ b ∈ intText n, Printable b := by
  intro b hb
  cases n with
  | ofNat n =>
    obtain ⟨h, h'⟩ := digit_of_natText hb
    exact ⟨by omega, by omega⟩
  | negSucc n =>
    rcases List.mem_cons.mp hb with rfl | hb
    · decide
    · obtain ⟨h, h'⟩ := digit_of_natText hb
      exact ⟨by omega, by omega⟩

theorem printable_of_isNumberByte {b : UInt8} (h : isNumberByte b = true) : Printable b := by
  simp only [isNumberByte, Bool.or_eq_true, Bool.and_eq_true, decide_eq_true_eq,
    UInt8.le_iff_toNat_le, ← UInt8.toNat_inj, UInt8.reduceToNat] at h
  simp only [Printable]
  omega

theorem printable_commaSeparated {parts : List Bytes}
    (h : ∀ part ∈ parts, ∀ b ∈ part, Printable b) : ∀ b ∈ commaSeparated parts, Printable b := by
  induction parts using commaSeparated.induct with
  | case1 => simp [commaSeparated]
  | case2 part => simpa [commaSeparated] using h
  | case3 part next parts ih =>
    intro b hb
    rcases List.mem_append.mp hb with hb | hb
    · exact h part (by simp) b hb
    · rcases List.mem_cons.mp hb with rfl | hb
      · decide
      · exact ih (fun p hp => h p (List.mem_cons_of_mem _ hp)) b hb

/-- **Canonical text is printable ASCII.** -/
theorem printable_dumps (v : Json) : ∀ b ∈ dumps v, Printable b := by
  induction v using Json.induction with
  | null => decide +kernel
  | bool b => cases b <;> decide +kernel
  | int n => exact printable_intText n
  | float x => exact fun b hb => printable_of_isNumberByte (List.all_eq_true.mp x.numeric b hb)
  | str s => exact printable_quote s
  | arr items ih =>
    intro b hb
    rw [dumps, dumpsItems_eq] at hb
    simp only [List.cons_append, List.mem_cons, List.mem_append, List.not_mem_nil, or_false] at hb
    rcases hb with rfl | hb | rfl
    · decide
    · exact printable_commaSeparated (List.forall_mem_map.mpr ih) b hb
    · decide
  | obj members ih =>
    intro b hb
    rw [dumps_obj] at hb
    simp only [List.cons_append, List.mem_cons, List.mem_append, List.not_mem_nil, or_false] at hb
    rcases hb with rfl | hb | rfl
    · decide
    · refine printable_commaSeparated (fun part hpart => ?_) b hb
      simp only [mapValues, List.map_map, List.mem_map] at hpart
      obtain ⟨m, hm, rfl⟩ := hpart
      intro b hb
      simp only [memberText, Function.comp, List.mem_append, List.mem_cons] at hb
      rcases hb with hb | rfl | hb
      · exact printable_quote m.1 b hb
      · decide
      · exact ih m (mem_sortKeys hm) b hb
    · decide

/-- Canonical text is one line. -/
theorem lineFeed_not_mem_dumps (v : Json) : (10 : UInt8) ∉ dumps v :=
  fun h => absurd (printable_dumps v 10 h) (by decide)

/-! ### Reading -/

/-- What is left behind an expected prefix. -/
def skip (expected bytes : Bytes) : Option Bytes :=
  if expected.isPrefixOf bytes then some (bytes.drop expected.length) else none

/-- The value of a hexadecimal digit. -/
def hexValue (b : UInt8) : Option ℕ :=
  if 48 ≤ b.toNat ∧ b.toNat ≤ 57 then some (b.toNat - 48)
  else if 97 ≤ b.toNat ∧ b.toNat ≤ 102 then some (b.toNat - 87)
  else if 65 ≤ b.toNat ∧ b.toNat ≤ 70 then some (b.toNat - 55)
  else none

/-- Four hexadecimal digits. -/
def readHex : Bytes → Option (ℕ × Bytes)
  | a :: b :: c :: d :: rest => do
    some ((← hexValue a) * 4096 + (← hexValue b) * 256 + (← hexValue c) * 16 + (← hexValue d), rest)
  | _ => none

/-- A `\u` escape behind its `u`; a high half must be followed by its low half. -/
def readUnicode (bytes : Bytes) : Option (CodePoint × Bytes) := do
  let (high, rest) ← readHex bytes
  if 0xd800 ≤ high ∧ high < 0xdc00 then
    let (low, rest) ← readHex (← skip [92, 117] rest)
    if 0xdc00 ≤ low ∧ low < 0xe000 then
      some (.ofNat _ (0x10000 + (high - 0xd800) * 1024 + (low - 0xdc00)), rest)
    else none
  else if 0xdc00 ≤ high ∧ high < 0xe000 then none
  else some (.ofNat _ high, rest)

/-- The code point of a two-byte escape. -/
def unescapeLetter (b : UInt8) : Option ℕ :=
  if b = 34 then some 34
  else if b = 92 then some 92
  else if b = 47 then some 47
  else if b = 98 then some 8
  else if b = 102 then some 12
  else if b = 110 then some 10
  else if b = 114 then some 13
  else if b = 116 then some 9
  else none

/-- One code point of a quoted string. -/
def readCodePoint : Bytes → Option (CodePoint × Bytes)
  | [] => none
  | b :: rest =>
    if b = 92 then
      match rest with
      | [] => none
      | letter :: rest =>
        if letter = 117 then readUnicode rest
        else (unescapeLetter letter).map fun n => (.ofNat _ n, rest)
    else if Printable b ∧ b ≠ 34 then some (.ofNat _ b.toNat, rest)
    else none

/-- A string behind its opening quote. -/
def readString : ℕ → Bytes → Option (Str × Bytes)
  | 0, _ => none
  | fuel + 1, bytes =>
    if bytes.head? = some 34 then some ([], bytes.tail)
    else do
      let (c, rest) ← readCodePoint bytes
      let (s, rest) ← readString fuel rest
      some (c :: s, rest)

/-- A natural number in decimal, without leading zeros. -/
def parseNat (token : Bytes) : Option ℕ :=
  let n := Nat.ofDigitChars 10 (token.map fun b => .ofNat b.toNat) 0
  if natText n = token then some n else none

/-- An integer or a float from its text. -/
def parseNumber (token : Bytes) : Option Json :=
  if h : token.all isNumberByte = true ∧ token.any isFloatByte = true then
    some (.float ⟨token, h.1, h.2⟩)
  else if token.head? = some 45 then (parseNat token.tail).map fun n => .int (-n)
  else (parseNat token).map fun n => .int n

/-- A number at the head of some bytes. -/
def readNumber (bytes : Bytes) : Option (Json × Bytes) :=
  (parseNumber (bytes.takeWhile isNumberByte)).map fun v => (v, bytes.dropWhile isNumberByte)

mutual

/-- A value at the head of some bytes, and what is left behind it. -/
def readValue : ℕ → Bytes → Option (Json × Bytes)
  | 0, _ => none
  | _, [] => none
  | fuel + 1, b :: rest =>
    if isNumberByte b then readNumber (b :: rest)
    else if b = 34 then (readString rest.length rest).map fun p => (.str p.1, p.2)
    else if b = 91 then
      match readItems fuel rest with
      | some (items, rest) => some (.arr items, rest)
      | none => (skip [93] rest).map fun rest => (.arr [], rest)
    else if b = 123 then
      match readMembers fuel rest with
      | some (members, rest) => some (.obj members, rest)
      | none => (skip [125] rest).map fun rest => (.obj [], rest)
    else if b = 110 then (skip (ascii "ull") rest).map fun rest => (.null, rest)
    else if b = 116 then (skip (ascii "rue") rest).map fun rest => (.bool true, rest)
    else if b = 102 then (skip (ascii "alse") rest).map fun rest => (.bool false, rest)
    else none

/-- The items of a nonempty array behind its bracket. -/
def readItems : ℕ → Bytes → Option (List Json × Bytes)
  | 0, _ => none
  | fuel + 1, bytes => do
    let (v, rest) ← readValue fuel bytes
    if rest.head? = some 44 then
      let (items, rest) ← readItems fuel rest.tail
      some (v :: items, rest)
    else if rest.head? = some 93 then some ([v], rest.tail)
    else none

/-- The members of a nonempty object behind its brace. -/
def readMembers : ℕ → Bytes → Option (List (Str × Json) × Bytes)
  | 0, _ => none
  | fuel + 1, bytes => do
    let quoted ← skip [34] bytes
    let (k, rest) ← readString quoted.length quoted
    let (v, rest) ← readValue fuel (← skip [58] rest)
    if rest.head? = some 44 then
      let (members, rest) ← readMembers fuel rest.tail
      some ((k, v) :: members, rest)
    else if rest.head? = some 125 then some ([(k, v)], rest.tail)
    else none

end

/-- The value that a text spells. -/
def loads (bytes : Bytes) : Option Json :=
  match readValue (bytes.length + 1) bytes with
  | some (v, []) => some v
  | _ => none

/-! ### Strings without lone surrogates -/

/-- No surrogate. -/
def IsScalar (c : CodePoint) : Prop := c.val < 0xd800 ∨ 0xe000 ≤ c.val

instance : DecidablePred IsScalar := fun _ => inferInstanceAs (Decidable (_ ∨ _))

mutual

/-- Every string of the value is free of surrogates. -/
def scalar : Json → Bool
  | .str s => s.all fun c => IsScalar c
  | .arr items => scalarItems items
  | .obj members => scalarMembers members
  | _ => true

def scalarItems : List Json → Bool
  | [] => true
  | v :: items => scalar v && scalarItems items

def scalarMembers : List (Str × Json) → Bool
  | [] => true
  | (k, v) :: members => (k.all fun c => IsScalar c) && scalar v && scalarMembers members

end

theorem scalarItems_iff {items : List Json} :
    scalarItems items = true ↔ ∀ v ∈ items, scalar v = true := by
  induction items with
  | nil => simp [scalarItems]
  | cons v items ih => simp [scalarItems, ih]

theorem scalarMembers_iff {members : List (Str × Json)} :
    scalarMembers members = true ↔
      ∀ m ∈ members, (∀ c ∈ m.1, IsScalar c) ∧ scalar m.2 = true := by
  induction members with
  | nil => simp [scalarMembers]
  | cons m members ih => simp [scalarMembers, ih]

theorem scalar_object (members : List (Str × Json)) :
    scalar (.obj members) = scalarMembers members := rfl

theorem scalar_str {s : Str} (h : ∀ c ∈ s, IsScalar c) : scalar (.str s) = true := by
  simpa [scalar] using h

theorem scalarMembers_append {members members' : List (Str × Json)} :
    scalarMembers (members ++ members') = true ↔
      scalarMembers members = true ∧ scalarMembers members' = true := by
  rw [scalarMembers_iff, scalarMembers_iff, scalarMembers_iff, List.forall_mem_append]

theorem scalar_normalize {v : Json} (h : v.scalar = true) : (Json.normalize v).scalar = true := by
  induction v using Json.induction with
  | null | bool | int | float | str => exact h
  | arr items ih =>
    have hitems := scalarItems_iff.mp h
    rw [Json.normalize, normalizeItems_eq, scalar, scalarItems_iff]
    exact List.forall_mem_map.mpr fun v hv => ih v hv (hitems v hv)
  | obj members ih =>
    have hmembers := scalarMembers_iff.mp h
    rw [normalize_obj, scalar, scalarMembers_iff]
    refine List.forall_mem_map.mpr fun m hm => ?_
    have hm := mem_sortKeys hm
    exact ⟨(hmembers m hm).1, ih m hm (hmembers m hm).2⟩

/-! ### Reading back what was written -/

@[simp] theorem skip_append (expected rest : Bytes) : skip expected (expected ++ rest) = some rest := by
  simp [skip]

theorem hexValue_hexDigit {n : ℕ} (h : n < 16) : hexValue (hexDigit n) = some n := by
  have key : ∀ d : Fin 16, hexValue (hexDigit d) = some d := by decide
  exact key ⟨n, h⟩

theorem readHex_unicodeEscape {n : ℕ} (h : n < 65536) (rest : Bytes) :
    readHex ((unicodeEscape n).drop 2 ++ rest) = some (n, rest) := by
  have hdigit : ∀ m, hexValue (hexDigit (m % 16)) = some (m % 16) := fun m =>
    hexValue_hexDigit (Nat.mod_lt _ (by omega))
  simp only [unicodeEscape, List.drop_succ_cons, List.drop_zero, List.cons_append, List.nil_append,
    readHex, hdigit]
  simp only [Option.bind_eq_bind, Option.bind_some, Option.some.injEq, Prod.mk.injEq, and_true]
  omega

theorem unescapeLetter_escapeLetter {n : ℕ} {letter : UInt8} (h : escapeLetter n = some letter) :
    letter ≠ 117 ∧ unescapeLetter letter = some n := by
  unfold escapeLetter at h
  split_ifs at h <;> cases h <;> subst n <;> decide

theorem ofNat_val {c : CodePoint} {n : ℕ} (h : n = c.val) : Fin.ofNat 0x110000 n = c := by
  subst h
  exact Fin.ext (Nat.mod_eq_of_lt c.isLt)

theorem readUnicode_short {c : CodePoint} (hc : IsScalar c) (hshort : c.val < 0x10000)
    (rest : Bytes) :
    readUnicode ((unicodeEscape c.val).drop 2 ++ rest) = some (c, rest) := by
  have hhigh : ¬ (0xd800 ≤ c.val ∧ c.val < 0xdc00) := by
    unfold IsScalar at hc
    omega
  have hlow : ¬ (0xdc00 ≤ c.val ∧ c.val < 0xe000) := by
    unfold IsScalar at hc
    omega
  simp only [readUnicode, readHex_unicodeEscape hshort, Option.bind_eq_bind, Option.bind_some,
    if_neg hhigh, if_neg hlow]
  rw [ofNat_val rfl]

theorem unicodeEscape_eq (n : ℕ) (rest : Bytes) :
    unicodeEscape n ++ rest = [92, 117] ++ ((unicodeEscape n).drop 2 ++ rest) := by
  simp [unicodeEscape]

theorem readUnicode_pair {high low : ℕ} (hhigh : 0xd800 ≤ high ∧ high < 0xdc00)
    (hlow : 0xdc00 ≤ low ∧ low < 0xe000) (rest : Bytes) :
    readUnicode ((unicodeEscape high).drop 2 ++ (unicodeEscape low ++ rest)) =
      some (.ofNat _ (0x10000 + (high - 0xd800) * 1024 + (low - 0xdc00)), rest) := by
  have h16 : high < 65536 := by omega
  have h16' : low < 65536 := by omega
  rw [unicodeEscape_eq low]
  simp only [readUnicode, readHex_unicodeEscape h16, Option.bind_eq_bind, Option.bind_some,
    if_pos hhigh, skip_append, readHex_unicodeEscape h16', if_pos hlow]

theorem halves_eq {n : ℕ} (h : 0x10000 ≤ n) (h' : n < 0x110000) :
    (0xd800 ≤ 0xd800 + (n - 0x10000) / 1024 ∧ 0xd800 + (n - 0x10000) / 1024 < 0xdc00) ∧
    (0xdc00 ≤ 0xdc00 + (n - 0x10000) % 1024 ∧ 0xdc00 + (n - 0x10000) % 1024 < 0xe000) ∧
    0x10000 + (0xd800 + (n - 0x10000) / 1024 - 0xd800) * 1024 +
      (0xdc00 + (n - 0x10000) % 1024 - 0xdc00) = n := by
  omega

theorem readUnicode_long {c : CodePoint} (hlong : 0x10000 ≤ c.val) (rest : Bytes) :
    readUnicode ((unicodeEscape (0xd800 + (c.val - 0x10000) / 1024)).drop 2 ++
      (unicodeEscape (0xdc00 + (c.val - 0x10000) % 1024) ++ rest)) = some (c, rest) := by
  obtain ⟨hhigh, hlow, hsum⟩ := halves_eq hlong c.isLt
  rw [readUnicode_pair hhigh hlow, ofNat_val hsum]

/-- A code point is read back from its escape. -/
theorem readCodePoint_escape {c : CodePoint} (hc : IsScalar c) (rest : Bytes) :
    readCodePoint (escapeCodePoint c ++ rest) = some (c, rest) := by
  unfold escapeCodePoint
  split
  · rename_i letter hletter
    obtain ⟨hne, hback⟩ := unescapeLetter_escapeLetter hletter
    simp [readCodePoint, hne, hback]
  · rename_i hletter
    have hquote : c.val ≠ 34 := fun h => by simp [h, escapeLetter] at hletter
    have hslash : c.val ≠ 92 := fun h => by simp [h, escapeLetter] at hletter
    split_ifs with hplain hshort
    · have hbyte : (UInt8.ofNat c.val).toNat = c.val := by
        rw [UInt8.toNat_ofNat']
        omega
      have h92 : UInt8.ofNat c.val ≠ 92 := fun h => hslash (by rw [← hbyte, h]; rfl)
      have h34 : UInt8.ofNat c.val ≠ 34 := fun h => hquote (by rw [← hbyte, h]; rfl)
      have hprintable : Printable (UInt8.ofNat c.val) := by rwa [Printable, hbyte]
      simp only [List.cons_append, List.nil_append, readCodePoint, if_neg h92,
        if_pos (And.intro hprintable h34), hbyte]
      rw [ofNat_val rfl]
    · exact readUnicode_short hc hshort rest
    · rw [List.append_assoc]
      exact readUnicode_long (by omega) rest

theorem head_escapeCodePoint {c : CodePoint} (hc : IsScalar c) (rest : Bytes) :
    (escapeCodePoint c ++ rest).head? ≠ some 34 := by
  intro h
  obtain ⟨tail, htail⟩ := List.head?_eq_some_iff.mp h
  have hread := readCodePoint_escape hc rest
  rw [htail] at hread
  simp [readCodePoint] at hread

theorem readString_quote {s : Str} (hs : ∀ c ∈ s, IsScalar c) {fuel : ℕ} (hfuel : s.length < fuel)
    (rest : Bytes) :
    readString fuel (s.flatMap escapeCodePoint ++ 34 :: rest) = some (s, rest) := by
  induction s generalizing fuel with
  | nil =>
    obtain _ | fuel := fuel
    · cases hfuel
    · simp [readString]
  | cons c s ih =>
    obtain _ | fuel := fuel
    · cases hfuel
    · have hc := hs c (by simp)
      have hrest := ih (fun c hc => hs c (by simp [hc])) (by simpa using hfuel)
      rw [List.flatMap_cons, List.append_assoc, readString, if_neg (head_escapeCodePoint hc _),
        readCodePoint_escape hc]
      simp [hrest]

theorem length_le_flatMap (s : Str) : s.length ≤ (s.flatMap escapeCodePoint).length := by
  induction s with
  | nil => simp
  | cons c s ih =>
    have hpos : 0 < (escapeCodePoint c).length := by
      unfold escapeCodePoint
      split
      · simp
      · split_ifs <;> simp [unicodeEscape]
    rw [List.flatMap_cons, List.length_append, List.length_cons]
    omega

/-- A quoted string is read back behind its opening quote. -/
theorem readString_of_quote {s : Str} (hs : ∀ c ∈ s, IsScalar c) (rest : Bytes) :
    ∃ body, quote s ++ rest = 34 :: body ∧ readString body.length body = some (s, rest) := by
  refine ⟨s.flatMap escapeCodePoint ++ 34 :: rest, by simp [quote], readString_quote hs ?_ rest⟩
  have hlen := length_le_flatMap s
  rw [List.length_append, List.length_cons]
  omega

/-! ### Numbers -/

theorem isNumberByte_of_digit {b : UInt8} (h : 48 ≤ b.toNat ∧ b.toNat ≤ 57) :
    isNumberByte b = true ∧ isFloatByte b = false ∧ b ≠ 45 := by
  simp only [isNumberByte, isFloatByte, Bool.or_eq_true, Bool.and_eq_true, decide_eq_true_eq,
    Bool.or_eq_false_iff, decide_eq_false_iff_not, UInt8.le_iff_toNat_le, ne_eq,
    ← UInt8.toNat_inj, UInt8.reduceToNat]
  omega

theorem parseNat_natText (n : ℕ) : parseNat (natText n) = some n := by
  have hback : (natText n).map (fun b => Char.ofNat b.toNat) = Nat.toDigits 10 n := by
    rw [natText, List.map_map]
    refine (List.map_congr_left (g := id) fun c hc => ?_).trans (List.map_id _)
    have hdigit := Char.isDigit_iff_toNat.mp
      (Nat.isDigit_of_mem_toDigits (by omega) (by omega) hc)
    simp only [Char.reduceToNat] at hdigit
    have hbyte : (UInt8.ofNat c.toNat).toNat = c.toNat := by
      rw [UInt8.toNat_ofNat']
      omega
    rw [Function.comp, hbyte, Char.ofNat_toNat, id]
  simp only [parseNat, hback, Nat.ofDigitChars_ten_toDigits, if_true]

theorem natText_ne_nil (n : ℕ) : natText n ≠ [] := by
  simp [natText, Nat.toDigits_ne_nil]

theorem isNumberByte_of_intText {n : ℤ} {b : UInt8} (h : b ∈ intText n) :
    isNumberByte b = true ∧ isFloatByte b = false := by
  cases n with
  | ofNat n =>
    obtain ⟨hnumber, hfloat, -⟩ := isNumberByte_of_digit (digit_of_natText h)
    exact ⟨hnumber, hfloat⟩
  | negSucc n =>
    rcases List.mem_cons.mp h with rfl | h
    · decide
    · obtain ⟨hnumber, hfloat, -⟩ := isNumberByte_of_digit (digit_of_natText h)
      exact ⟨hnumber, hfloat⟩

/-- An integer is read back from its text. -/
theorem parseNumber_intText (n : ℤ) : parseNumber (intText n) = some (.int n) := by
  have hfloat : ¬ ((intText n).all isNumberByte = true ∧ (intText n).any isFloatByte = true) := by
    rintro ⟨-, h⟩
    obtain ⟨b, hb, hmark⟩ := List.any_eq_true.mp h
    rw [(isNumberByte_of_intText hb).2] at hmark
    cases hmark
  rw [parseNumber, dif_neg hfloat]
  cases n with
  | ofNat n =>
    have hhead : (natText n).head? ≠ some 45 := by
      intro h
      exact (isNumberByte_of_digit (digit_of_natText (List.mem_of_head? h))).2.2 rfl
    rw [intText, if_neg hhead, parseNat_natText]
    rfl
  | negSucc n =>
    rw [intText, List.head?_cons, if_pos rfl, List.tail_cons, parseNat_natText]
    rfl

/-- The bytes behind a value do not go on with a number. -/
def NumberStops (rest : Bytes) : Prop := ∀ b, rest.head? = some b → isNumberByte b = false

theorem readNumber_append {token rest : Bytes} (htoken : ∀ b ∈ token, isNumberByte b = true)
    (hrest : NumberStops rest) :
    readNumber (token ++ rest) = (parseNumber token).map fun v => (v, rest) := by
  have htake : rest.takeWhile isNumberByte = [] := by
    cases rest with
    | nil => rfl
    | cons b rest => simp [List.takeWhile, hrest b rfl]
  have hdrop : rest.dropWhile isNumberByte = rest := by
    cases rest with
    | nil => rfl
    | cons b rest => simp [List.dropWhile, hrest b rfl]
  rw [readNumber, List.takeWhile_append_of_pos htoken, List.dropWhile_append_of_pos htoken, htake,
    hdrop, List.append_nil]

/-! ### Values -/

/-- A value is read back from its text, whatever follows that does not go on with a number. -/
def ReadsBack (v : Json) : Prop :=
  ∀ fuel rest, (dumps v).length < fuel → NumberStops rest →
    readValue fuel (dumps v ++ rest) = some (v, rest)

theorem numberStops_cons {b : UInt8} (h : isNumberByte b = false) (rest : Bytes) :
    NumberStops (b :: rest) := by
  rintro _ ⟨⟩
  exact h

/-- A number's text is read as the number. -/
theorem readsBack_number {v : Json} (hne : dumps v ≠ [])
    (hnumber : ∀ b ∈ dumps v, isNumberByte b = true) (hparse : parseNumber (dumps v) = some v) :
    ReadsBack v := by
  intro fuel rest hfuel hrest
  obtain _ | fuel := fuel
  · cases hfuel
  have hread := readNumber_append hnumber hrest
  rw [hparse] at hread
  obtain ⟨b, tail, htext⟩ := List.exists_cons_of_ne_nil hne
  rw [htext] at hread hnumber ⊢
  rw [List.cons_append] at hread ⊢
  rw [readValue, if_pos (hnumber b (by simp)), hread]
  rfl

theorem readsBack_str {s : Str} (hs : ∀ c ∈ s, IsScalar c) : ReadsBack (.str s) := by
  intro fuel rest hfuel _
  obtain _ | fuel := fuel
  · cases hfuel
  obtain ⟨body, hbody, hread⟩ := readString_of_quote hs rest
  rw [dumps, hbody, readValue, if_neg (by decide), if_pos rfl, hread]
  rfl

theorem readItems_commaSeparated {items : List Json} (hne : items ≠ [])
    (h : ∀ v ∈ items, ReadsBack v) {fuel : ℕ}
    (hfuel : (commaSeparated (items.map dumps)).length + 1 < fuel) (rest : Bytes) :
    readItems fuel (commaSeparated (items.map dumps) ++ 93 :: rest) = some (items, rest) := by
  induction items generalizing fuel with
  | nil => exact absurd rfl hne
  | cons v items ih =>
    obtain _ | fuel := fuel
    · cases hfuel
    have hv := h v (by simp)
    cases items with
    | nil =>
      simp only [List.map_cons, List.map_nil, commaSeparated] at hfuel ⊢
      rw [readItems, hv fuel (93 :: rest) (by omega) (numberStops_cons (by decide) _)]
      simp
    | cons w items =>
      have hitems := @ih (by simp) (fun v hv => h v (List.mem_cons_of_mem _ hv)) fuel
      simp only [List.map_cons, commaSeparated, List.length_append, List.length_cons,
        List.append_assoc, List.cons_append] at hfuel hitems ⊢
      rw [readItems, hv fuel _ (by omega) (numberStops_cons (by decide) _)]
      simp [hitems (by omega)]

theorem readValue_close (fuel : ℕ) (rest : Bytes) :
    readValue fuel (93 :: rest) = none ∧ readValue fuel (125 :: rest) = none := by
  cases fuel with
  | zero => simp [readValue]
  | succ fuel => simp [readValue, isNumberByte]

theorem readsBack_arr {items : List Json} (h : ∀ v ∈ items, ReadsBack v) :
    ReadsBack (.arr items) := by
  intro fuel rest hfuel _
  obtain _ | fuel := fuel
  · cases hfuel
  rw [dumps, dumpsItems_eq] at hfuel ⊢
  simp only [List.cons_append, List.length_cons, List.length_append, List.length_nil] at hfuel
  simp only [List.cons_append, List.append_assoc, List.nil_append]
  rw [readValue, if_neg (by decide), if_neg (by decide), if_pos rfl]
  by_cases hitems : items = []
  · subst hitems
    have hnone : readItems fuel (93 :: rest) = none := by
      cases fuel with
      | zero => rfl
      | succ fuel => simp [readItems, (readValue_close fuel rest).1]
    simp only [List.map_nil, commaSeparated, List.nil_append, hnone]
    simp [skip]
  · rw [readItems_commaSeparated hitems h (by omega) rest]

theorem readMembers_commaSeparated {members : List (Str × Json)} (hne : members ≠ [])
    (hkeys : ∀ m ∈ members, ∀ c ∈ m.1, IsScalar c) (h : ∀ m ∈ members, ReadsBack m.2) {fuel : ℕ}
    (hfuel : (commaSeparated ((mapValues dumps members).map memberText)).length + 1 < fuel)
    (rest : Bytes) :
    readMembers fuel (commaSeparated ((mapValues dumps members).map memberText) ++ 125 :: rest) =
      some (members, rest) := by
  induction members generalizing fuel with
  | nil => exact absurd rfl hne
  | cons m members ih =>
    obtain _ | fuel := fuel
    · cases hfuel
    have hv := h m (by simp)
    -- the key and the colon, whatever follows
    have hkey : ∀ after, ∃ body, memberText (m.1, dumps m.2) ++ after = [34] ++ body ∧
        readString body.length body = some (m.1, [58] ++ (dumps m.2 ++ after)) := by
      intro after
      obtain ⟨body, hbody, hread⟩ := readString_of_quote (hkeys m (by simp))
        (58 :: (dumps m.2 ++ after))
      exact ⟨body, by simp [memberText, hbody], hread⟩
    cases members with
    | nil =>
      simp only [mapValues, List.map_cons, List.map_nil, commaSeparated] at hfuel ⊢
      obtain ⟨body, hbody, hread⟩ := hkey (125 :: rest)
      have hlen : (dumps m.2).length < fuel := by
        simp only [memberText, List.length_append, List.length_cons] at hfuel
        omega
      rw [hbody, readMembers, skip_append]
      simp only [Option.bind_eq_bind, Option.bind_some, hread, skip_append,
        hv fuel (125 :: rest) hlen (numberStops_cons (by decide) _)]
      simp
    | cons n members =>
      have hmembers := @ih (by simp) (fun m hm => hkeys m (List.mem_cons_of_mem _ hm))
        (fun m hm => h m (List.mem_cons_of_mem _ hm)) fuel
      simp only [mapValues, List.map_cons, commaSeparated, List.append_assoc,
        List.cons_append] at hfuel hmembers ⊢
      have hlen : (dumps m.2).length < fuel := by
        simp only [memberText, List.length_append, List.length_cons] at hfuel
        omega
      have hmore := hmembers (by
        simp only [List.length_append, List.length_cons] at hfuel
        omega)
      generalize commaSeparated (memberText (n.1, dumps n.2) ::
        (members.map fun m => (m.1, dumps m.2)).map memberText) ++ 125 :: rest = more at hmore ⊢
      obtain ⟨body, hbody, hread⟩ := hkey (44 :: more)
      rw [hbody, readMembers, skip_append]
      simp only [Option.bind_eq_bind, Option.bind_some, hread, skip_append,
        hv fuel (44 :: more) hlen (numberStops_cons (by decide) more)]
      simp [hmore]

theorem readsBack_obj {members : List (Str × Json)} (hsorted : KeysSorted members)
    (hkeys : ∀ m ∈ members, ∀ c ∈ m.1, IsScalar c) (h : ∀ m ∈ members, ReadsBack m.2) :
    ReadsBack (.obj members) := by
  intro fuel rest hfuel _
  obtain _ | fuel := fuel
  · cases hfuel
  rw [dumps_obj, sortKeys_of_sorted hsorted] at hfuel ⊢
  simp only [List.cons_append, List.length_cons, List.length_append, List.length_nil] at hfuel
  simp only [List.cons_append, List.append_assoc, List.nil_append]
  rw [readValue, if_neg (by decide), if_neg (by decide), if_neg (by decide), if_pos rfl]
  by_cases hmembers : members = []
  · subst hmembers
    have hnone : readMembers fuel (125 :: rest) = none := by
      cases fuel with
      | zero => rfl
      | succ fuel => simp [readMembers, skip]
    simp only [mapValues, List.map_nil, commaSeparated, List.nil_append, hnone]
    simp [skip]
  · rw [readMembers_commaSeparated hmembers hkeys h (by omega) rest]

/-- A value with a word for its text. -/
theorem readsBack_word {v : Json} (b : UInt8) (word : Bytes) (htext : dumps v = b :: word)
    (h : ∀ fuel rest, readValue (fuel + 1) (b :: (word ++ rest)) = some (v, rest)) :
    ReadsBack v := by
  intro fuel rest hfuel _
  obtain _ | fuel := fuel
  · cases hfuel
  · rw [htext]
    exact h fuel rest

/-- A normal value without surrogates is read back from its text. -/
theorem readsBack {v : Json} (hnormal : v.Normal) (hscalar : v.scalar = true) : ReadsBack v := by
  induction v using Json.induction with
  | null => exact readsBack_word 110 (ascii "ull") rfl fun fuel rest => by simp [readValue, isNumberByte]
  | bool b =>
    cases b with
    | false =>
      exact readsBack_word 102 (ascii "alse") rfl fun fuel rest => by simp [readValue, isNumberByte]
    | true =>
      exact readsBack_word 116 (ascii "rue") rfl fun fuel rest => by simp [readValue, isNumberByte]
  | int n =>
    refine readsBack_number ?_ (fun b hb => (isNumberByte_of_intText hb).1) (parseNumber_intText n)
    cases n with
    | ofNat n => exact natText_ne_nil n
    | negSucc n => simp [dumps, intText]
  | float x =>
    refine readsBack_number ?_ (List.all_eq_true.mp x.numeric) ?_
    · intro h
      have hmarked := x.marked
      rw [show x.text = [] from h] at hmarked
      cases hmarked
    · exact dif_pos ⟨x.numeric, x.marked⟩
  | str s => exact readsBack_str (by simpa [scalar] using hscalar)
  | arr items ih =>
    have hitems := normal_arr.mp hnormal
    have hscalars := scalarItems_iff.mp hscalar
    exact readsBack_arr fun v hv => ih v hv (hitems v hv) (hscalars v hv)
  | obj members ih =>
    obtain ⟨hsorted, hvalues⟩ := normal_obj.mp hnormal
    have hscalars := scalarMembers_iff.mp hscalar
    exact readsBack_obj hsorted (fun m hm => (hscalars m hm).1)
      fun m hm => ih m hm (hvalues m hm) (hscalars m hm).2

/-- **The round trip.** A normal value without surrogates is what its canonical text spells. -/
theorem loads_dumps {v : Json} (hnormal : v.Normal) (hscalar : v.scalar = true) :
    loads (dumps v) = some v := by
  have hread := readsBack hnormal hscalar ((dumps v).length + 1) [] (Nat.lt_succ_self _) nofun
  rw [List.append_nil] at hread
  rw [loads, hread]

end DrExec.Lib.Json
