import DrExec.Lib.Json
import Mathlib.Data.List.TakeWhile

/-! # Reading any JSON text

`json.loads` of Python, over the characters of a text: blanks where JSON allows them, strings
without raw control characters whose lone surrogate escapes are kept, numbers of any length that
`int` takes, `NaN` and the infinities. It reads a text from its start and never goes back, so that a
value that a delimiter ends is read alike whatever follows (`readsOn`): no text of an object is the
start of a longer one (`loads_prefix_eq_none`). -/

namespace DrExec.Lib.JsonLoads

open DrExec.Lib

/-- What `json.loads` gives; a float is its token. -/
inductive Loaded
  | null
  | bool (b : Bool)
  | int (n : ℤ)
  | float (token : Str)
  | str (s : Str)
  | arr (items : List Loaded)
  | obj (members : List (Str × Loaded))

/-! ### Characters -/

def isBlank (c : CodePoint) : Bool := c = 32 || c = 9 || c = 10 || c = 13

def isDigit (c : CodePoint) : Bool := 48 ≤ c && c ≤ 57

/-- The text behind its blanks. -/
def skipBlanks (s : Str) : Str := s.dropWhile isBlank

/-- A character that ends a value: a blank, a comma, a closing bracket or brace. -/
def isDelimiter (c : CodePoint) : Bool := isBlank c || c = 44 || c = 93 || c = 125

/-- What is left begins with a delimiter. -/
def Delimited (rest : Str) : Prop := ∃ c s, rest = c :: s ∧ isDelimiter c = true

/-! ### Strings -/

/-- What is left behind an expected word. -/
def skipWord (word s : Str) : Option Str :=
  if word.isPrefixOf s then some (s.drop word.length) else none

def hexValue (c : CodePoint) : Option ℕ :=
  if 48 ≤ c.val ∧ c.val ≤ 57 then some (c.val - 48)
  else if 97 ≤ c.val ∧ c.val ≤ 102 then some (c.val - 87)
  else if 65 ≤ c.val ∧ c.val ≤ 70 then some (c.val - 55)
  else none

/-- Four hexadecimal digits. -/
def scanHex : Str → Option (ℕ × Str)
  | a :: b :: c :: d :: rest => do
    some ((← hexValue a) * 4096 + (← hexValue b) * 256 + (← hexValue c) * 16 + (← hexValue d), rest)
  | _ => none

/-- A `\u` escape behind its `u`. A high half that a low half follows is joined with it. -/
def scanUnicode (s : Str) : Option (CodePoint × Str) :=
  match scanHex s with
  | none => none
  | some (high, rest) =>
    if 0xd800 ≤ high ∧ high < 0xdc00 then
      match skipWord [92, 117] rest with
      | none => some (.ofNat _ high, rest)
      | some more =>
        match scanHex more with
        | none => none
        | some (low, rest') =>
          if 0xdc00 ≤ low ∧ low < 0xe000 then
            some (.ofNat _ (0x10000 + (high - 0xd800) * 1024 + (low - 0xdc00)), rest')
          else some (.ofNat _ high, rest)
    else some (.ofNat _ high, rest)

/-- The character of a two-character escape. -/
def unescape (c : CodePoint) : Option CodePoint :=
  if c = 34 ∨ c = 92 ∨ c = 47 then some c
  else if c = 98 then some 8
  else if c = 102 then some 12
  else if c = 110 then some 10
  else if c = 114 then some 13
  else if c = 116 then some 9
  else none

/-- One character of a string. -/
def scanChar : Str → Option (CodePoint × Str)
  | [] => none
  | c :: rest =>
    if c = 92 then
      match rest with
      | [] => none
      | letter :: rest =>
        if letter = 117 then scanUnicode rest else (unescape letter).map fun c => (c, rest)
    else if c.val ≤ 0x1f then none
    else some (c, rest)

/-- A string behind its opening quote. -/
def scanString : ℕ → Str → Option (Str × Str)
  | 0, _ => none
  | _, [] => none
  | fuel + 1, c :: rest =>
    if c = 34 then some ([], rest)
    else
      match scanChar (c :: rest) with
      | none => none
      | some (c, rest) => (scanString fuel rest).map fun p => (c :: p.1, p.2)

/-! ### Numbers -/

/-- The digits before the point. -/
def scanDigits : Str → Option (Str × Str)
  | [] => none
  | c :: rest =>
    if c = 48 then some ([c], rest)
    else if isDigit c then some (c :: rest.takeWhile isDigit, rest.dropWhile isDigit)
    else none

/-- The point and the digits behind it, if there are any. -/
def scanFraction : Str → Str × Str
  | [] => ([], [])
  | c :: rest =>
    if c = 46 ∧ rest.head?.any isDigit = true then
      (c :: rest.takeWhile isDigit, rest.dropWhile isDigit)
    else ([], c :: rest)

/-- The sign of an exponent, if there is one. -/
def scanSign : Str → Str × Str
  | [] => ([], [])
  | c :: rest => if c = 43 ∨ c = 45 then ([c], rest) else ([], c :: rest)

/-- The exponent, if it has digits. -/
def scanExponent : Str → Str × Str
  | [] => ([], [])
  | c :: rest =>
    if (c = 101 ∨ c = 69) ∧ (scanSign rest).2.head?.any isDigit = true then
      (c :: (scanSign rest).1 ++ (scanSign rest).2.takeWhile isDigit,
        (scanSign rest).2.dropWhile isDigit)
    else ([], c :: rest)

/-- `sys.get_int_max_str_digits()` -/
def intMaxStrDigits : ℕ := 4300

/-- `int(token)`, for its digits. -/
def digitsValue (digits : Str) : ℕ := digits.foldl (fun n c => n * 10 + (c.val - 48)) 0

/-- A number behind its sign. -/
def scanNumber (negative : Bool) (s : Str) : Option (Loaded × Str) :=
  match scanDigits s with
  | none => none
  | some (digits, rest) =>
    let (fraction, rest) := scanFraction rest
    let (exponent, rest) := scanExponent rest
    if fraction = [] ∧ exponent = [] then
      if intMaxStrDigits < digits.length then none
      else some (.int (if negative then -(digitsValue digits : ℤ) else digitsValue digits), rest)
    else some (.float ((if negative then [45] else []) ++ digits ++ fraction ++ exponent), rest)

/-! ### Values -/

mutual

/-- `scan_once`: a value, and what is left behind it. -/
def scanValue : ℕ → Str → Option (Loaded × Str)
  | 0, _ => none
  | _, [] => none
  | fuel + 1, c :: rest =>
    if c = 34 then (scanString (rest.length + 1) rest).map fun p => (.str p.1, p.2)
    else if c = 123 then
      match skipBlanks rest with
      | [] => none
      | d :: rest =>
        if d = 125 then some (.obj [], rest)
        else (scanMembers fuel (d :: rest)).map fun p => (.obj p.1, p.2)
    else if c = 91 then
      match skipBlanks rest with
      | [] => none
      | d :: rest =>
        if d = 93 then some (.arr [], rest)
        else (scanItems fuel (d :: rest)).map fun p => (.arr p.1, p.2)
    else if c = 110 then (skipWord (text "ull") rest).map fun rest => (.null, rest)
    else if c = 116 then (skipWord (text "rue") rest).map fun rest => (.bool true, rest)
    else if c = 102 then (skipWord (text "alse") rest).map fun rest => (.bool false, rest)
    else if c = 78 then (skipWord (text "aN") rest).map fun rest => (.float (text "NaN"), rest)
    else if c = 73 then
      (skipWord (text "nfinity") rest).map fun rest => (.float (text "Infinity"), rest)
    else if c = 45 then
      match skipWord (text "Infinity") rest with
      | some rest => some (.float (text "-Infinity"), rest)
      | none => scanNumber true rest
    else scanNumber false (c :: rest)

/-- The items of a nonempty array behind its bracket. -/
def scanItems : ℕ → Str → Option (List Loaded × Str)
  | 0, _ => none
  | fuel + 1, s =>
    match scanValue fuel s with
    | none => none
    | some (v, rest) =>
      match skipBlanks rest with
      | [] => none
      | c :: rest =>
        if c = 93 then some ([v], rest)
        else if c = 44 then (scanItems fuel (skipBlanks rest)).map fun p => (v :: p.1, p.2)
        else none

/-- The members of a nonempty object behind its brace. -/
def scanMembers : ℕ → Str → Option (List (Str × Loaded) × Str)
  | 0, _ => none
  | _, [] => none
  | fuel + 1, quote :: s =>
    if quote ≠ 34 then none
    else
      match scanString (s.length + 1) s with
      | none => none
      | some (key, rest) =>
        match skipBlanks rest with
        | [] => none
        | colon :: rest =>
          if colon ≠ 58 then none
          else
            match scanValue fuel (skipBlanks rest) with
            | none => none
            | some (v, rest) =>
              match skipBlanks rest with
              | [] => none
              | c :: rest =>
                if c = 125 then some ([(key, v)], rest)
                else if c = 44 then
                  (scanMembers fuel (skipBlanks rest)).map fun p => ((key, v) :: p.1, p.2)
                else none

end

/-- `json.loads`; every second step of the reading takes a character. -/
def loads (s : Str) : Option Loaded :=
  match scanValue (2 * s.length + 2) (skipBlanks s) with
  | none => none
  | some (v, rest) => if skipBlanks rest = [] then some v else none

/-! ### Reading on -/

theorem skipBlanks_append {s rest : Str} {c : CodePoint} (h : skipBlanks s = c :: rest) (x : Str) :
    skipBlanks (s ++ x) = c :: (rest ++ x) := by
  unfold skipBlanks at h ⊢
  rw [List.dropWhile_append, h]
  rfl

theorem digits_append {s : Str} (h : s.dropWhile isDigit ≠ []) (x : Str) :
    (s ++ x).takeWhile isDigit = s.takeWhile isDigit ∧
      (s ++ x).dropWhile isDigit = s.dropWhile isDigit ++ x := by
  induction s with
  | nil => exact absurd rfl h
  | cons c s ih =>
    rw [List.cons_append, List.takeWhile_cons, List.takeWhile_cons, List.dropWhile_cons,
      List.dropWhile_cons]
    rw [List.dropWhile_cons] at h
    split_ifs at h ⊢
    · exact ⟨congrArg _ (ih h).1, (ih h).2⟩
    · exact ⟨rfl, rfl⟩

/-- A text that begins with a digit goes on to. -/
theorem head_isDigit_append {s : Str} (h : s.head?.any isDigit = true) (x : Str) :
    (s ++ x).head?.any isDigit = true := by
  rcases s with _ | ⟨c, s⟩
  · cases h
  · exact h

theorem scanHex_append {s rest : Str} {n : ℕ} (h : scanHex s = some (n, rest)) (x : Str) :
    scanHex (s ++ x) = some (n, rest ++ x) := by
  rcases s with _ | ⟨a, _ | ⟨b, _ | ⟨c, _ | ⟨d, s⟩⟩⟩⟩
  · cases h
  · cases h
  · cases h
  · cases h
  · simp only [List.cons_append, scanHex, Option.bind_eq_bind, Option.bind_eq_some_iff,
      Option.some.injEq, Prod.mk.injEq] at h ⊢
    obtain ⟨i, hi, j, hj, k, hk, l, hl, hn, rfl⟩ := h
    exact ⟨i, hi, j, hj, k, hk, l, hl, hn, rfl⟩

theorem skipWord_append {word s rest : Str} (h : skipWord word s = some rest) (x : Str) :
    skipWord word (s ++ x) = some (rest ++ x) := by
  unfold skipWord at h ⊢
  split_ifs at h with hprefix
  cases h
  obtain ⟨more, rfl⟩ := List.isPrefixOf_iff_prefix.mp hprefix
  rw [List.append_assoc, if_pos (List.isPrefixOf_iff_prefix.mpr (List.prefix_append _ _)),
    List.drop_left, List.drop_left]

/-- An escape that something other than a lone backslash follows. -/
theorem scanUnicode_append {s rest : Str} {c : CodePoint} (h : scanUnicode s = some (c, rest))
    (hne : rest ≠ []) (hlone : rest ≠ [92]) (x : Str) :
    scanUnicode (s ++ x) = some (c, rest ++ x) := by
  unfold scanUnicode at h ⊢
  rcases hhex : scanHex s with _ | ⟨high, more⟩
  · rw [hhex] at h
    cases h
  rw [hhex] at h
  rw [scanHex_append hhex]
  dsimp only at h ⊢
  split_ifs at h ⊢ with hhigh
  · rcases hword : skipWord [92, 117] more with _ | low
    · rw [hword] at h
      obtain ⟨rfl, rfl⟩ := Prod.mk.inj (Option.some.inj h)
      have hno : skipWord [92, 117] (more ++ x) = none := by
        unfold skipWord at hword ⊢
        rcases more with _ | ⟨a, _ | ⟨b, more⟩⟩
        · exact absurd rfl hne
        · have ha : a ≠ 92 := fun ha => hlone (congrArg ([·]) ha)
          simp [List.isPrefixOf, Ne.symm ha]
        · simpa [List.isPrefixOf_cons_cons] using hword
      rw [hno]
    · rw [hword] at h
      rw [skipWord_append hword]
      dsimp only at h ⊢
      rcases hlow : scanHex low with _ | ⟨n, rest'⟩
      · rw [hlow] at h
        cases h
      rw [hlow] at h
      rw [scanHex_append hlow]
      dsimp only at h ⊢
      split_ifs at h ⊢ <;>
      · obtain ⟨hc, hrest⟩ := Prod.mk.inj (Option.some.inj h)
        rw [← hc, ← hrest]
  · obtain ⟨hc, hrest⟩ := Prod.mk.inj (Option.some.inj h)
    rw [← hc, ← hrest]

/-- A string's character that is read, with what a string can follow it with. -/
theorem scanChar_append {s rest : Str} {c : CodePoint} (h : scanChar s = some (c, rest))
    (hne : rest ≠ []) (hlone : rest ≠ [92]) (x : Str) :
    scanChar (s ++ x) = some (c, rest ++ x) := by
  rcases s with _ | ⟨a, s⟩
  · cases h
  rw [List.cons_append]
  unfold scanChar at h ⊢
  dsimp only at h ⊢
  split_ifs at h ⊢ with hescape hcontrol
  · rcases s with _ | ⟨letter, s⟩
    · cases h
    · dsimp only [List.cons_append] at h ⊢
      split_ifs at h ⊢
      · exact scanUnicode_append h hne hlone x
      · obtain ⟨d, hd, he⟩ := Option.map_eq_some_iff.mp h
        cases he
        rw [hd]
        rfl
  · cases h
    rfl

/-- **A string** is read alike whatever follows its closing quote. -/
theorem scanString_append {fuel fuel' : ℕ} (hfuel : fuel ≤ fuel') {s v rest : Str}
    (h : scanString fuel s = some (v, rest)) (x : Str) :
    scanString fuel' (s ++ x) = some (v, rest ++ x) := by
  induction fuel generalizing fuel' s v with
  | zero => cases s <;> cases h
  | succ fuel ih =>
    obtain ⟨fuel', rfl⟩ := Nat.exists_eq_succ_of_ne_zero (show fuel' ≠ 0 by omega)
    rcases s with _ | ⟨c, s⟩
    · cases h
    rw [List.cons_append]
    rw [scanString] at h ⊢
    split_ifs at h ⊢ with hquote
    · cases h
      rfl
    · rcases hchar : scanChar (c :: s) with _ | ⟨d, more⟩
      · rw [hchar] at h
        cases h
      rw [hchar] at h
      obtain ⟨⟨w, rest'⟩, hw, he⟩ := Option.map_eq_some_iff.mp h
      cases he
      have hne : more ≠ [] := by
        rintro rfl
        cases fuel <;> cases hw
      have hlone : more ≠ [92] := by
        rintro rfl
        cases fuel <;> cases hw
      rw [← List.cons_append, scanChar_append hchar hne hlone]
      dsimp only
      rw [ih (by omega) hw]
      rfl

/-! ### Numbers that end -/

theorem scanDigits_append {s digits rest : Str} (h : scanDigits s = some (digits, rest))
    (hne : rest ≠ []) (x : Str) : scanDigits (s ++ x) = some (digits, rest ++ x) := by
  rcases s with _ | ⟨c, s⟩
  · cases h
  rw [List.cons_append]
  rw [scanDigits] at h ⊢
  split_ifs at h ⊢
  · cases h
    rfl
  · cases h
    obtain ⟨htake, hdrop⟩ := digits_append hne x
    rw [htake, hdrop]

theorem scanFraction_append {s : Str} (hne : (scanFraction s).2 ≠ [])
    (hpoint : (scanFraction s).2.head? ≠ some 46) (x : Str) :
    scanFraction (s ++ x) = ((scanFraction s).1, (scanFraction s).2 ++ x) := by
  rcases s with _ | ⟨c, s⟩
  · exact absurd rfl hne
  rw [List.cons_append]
  rw [scanFraction] at hne hpoint
  rw [scanFraction, scanFraction]
  by_cases hc : c = 46
  · by_cases hdigit : s.head?.any isDigit = true
    · rw [if_pos ⟨hc, hdigit⟩] at hne
      obtain ⟨htake, hdrop⟩ := digits_append hne x
      rw [if_pos ⟨hc, head_isDigit_append hdigit x⟩, if_pos ⟨hc, hdigit⟩, htake, hdrop]
    · rw [if_neg fun h => hdigit h.2] at hpoint
      exact absurd (congrArg some hc) hpoint
  · rw [if_neg fun h => hc h.1, if_neg fun h => hc h.1]
    rfl

theorem scanSign_append {s : Str} (hne : s ≠ []) (x : Str) :
    scanSign (s ++ x) = ((scanSign s).1, (scanSign s).2 ++ x) := by
  rcases s with _ | ⟨c, s⟩
  · exact absurd rfl hne
  rw [List.cons_append, scanSign, scanSign]
  split_ifs <;> rfl

theorem Delimited.ne_nil {rest : Str} (h : Delimited rest) : rest ≠ [] := by
  obtain ⟨c, s, rfl, -⟩ := h
  exact List.cons_ne_nil c s

/-- A delimiter is no part of a number. -/
theorem Delimited.head_ne {rest : Str} (h : Delimited rest) {c : CodePoint}
    (hc : isDelimiter c = false) : rest.head? ≠ some c := by
  obtain ⟨d, s, rfl, hd⟩ := h
  intro he
  cases he
  rw [hd] at hc
  cases hc

theorem scanExponent_append {s : Str} (h : Delimited (scanExponent s).2) (x : Str) :
    scanExponent (s ++ x) = ((scanExponent s).1, (scanExponent s).2 ++ x) := by
  rcases s with _ | ⟨c, s⟩
  · exact absurd rfl h.ne_nil
  rw [List.cons_append]
  rw [scanExponent] at h
  rw [scanExponent, scanExponent]
  by_cases hc : c = 101 ∨ c = 69
  · by_cases hdigit : (scanSign s).2.head?.any isDigit = true
    · have hs : s ≠ [] := by
        rintro rfl
        cases hdigit
      rw [if_pos ⟨hc, hdigit⟩] at h
      obtain ⟨htake, hdrop⟩ := digits_append h.ne_nil x
      rw [scanSign_append hs, if_pos ⟨hc, head_isDigit_append hdigit x⟩, if_pos ⟨hc, hdigit⟩, htake,
        hdrop]
    · rw [if_neg fun h => hdigit h.2] at h
      rcases hc with rfl | rfl
      · exact absurd rfl (h.head_ne (by decide))
      · exact absurd rfl (h.head_ne (by decide))
  · rw [if_neg fun h => hc h.1, if_neg fun h => hc h.1]
    rfl

/-- What an exponent, or none, is read from does not begin with a point. -/
theorem head_of_scanExponent {s : Str} (h : Delimited (scanExponent s).2) :
    s ≠ [] ∧ s.head? ≠ some 46 := by
  rcases s with _ | ⟨c, s⟩
  · exact absurd rfl h.ne_nil
  refine ⟨List.cons_ne_nil c s, fun hpoint => ?_⟩
  obtain rfl : c = 46 := Option.some.inj hpoint
  rw [scanExponent, if_neg fun hletter => absurd hletter.1 (by decide)] at h
  exact h.head_ne (by decide) rfl

/-- **A number** that a delimiter ends is read alike whatever follows. -/
theorem scanNumber_append {negative : Bool} {s rest : Str} {v : Loaded}
    (h : scanNumber negative s = some (v, rest)) (hdelimited : Delimited rest) (x : Str) :
    scanNumber negative (s ++ x) = some (v, rest ++ x) := by
  unfold scanNumber at h ⊢
  rcases hdigits : scanDigits s with _ | ⟨digits, more⟩
  · rw [hdigits] at h
    cases h
  rw [hdigits] at h
  dsimp only at h
  have hrest : (scanExponent (scanFraction more).2).2 = rest := by
    split_ifs at h <;> exact (Prod.mk.inj (Option.some.inj h)).2
  rw [← hrest] at hdelimited
  obtain ⟨hne, hpoint⟩ := head_of_scanExponent hdelimited
  have hmore : more ≠ [] := by
    rintro rfl
    exact hne rfl
  rw [scanDigits_append hdigits hmore]
  dsimp only
  rw [scanFraction_append hne hpoint, scanExponent_append hdelimited, hrest]
  split_ifs at h ⊢ <;> rw [← (Prod.mk.inj (Option.some.inj h)).1]

/-! ### Values that end -/

/-- Behind blanks, what begins a rest that is no blank shows that the rest is delimited. -/
theorem delimited_of_skipBlanks {s rest : Str} {c : CodePoint} (h : skipBlanks s = c :: rest)
    (hc : isDelimiter c = true) : Delimited s := by
  rcases s with _ | ⟨d, s⟩
  · cases h
  · unfold skipBlanks at h
    rw [List.dropWhile_cons] at h
    split_ifs at h with hblank
    · exact ⟨d, s, rfl, by simp [isDelimiter, hblank]⟩
    · cases h
      exact ⟨c, rest, rfl, hc⟩

theorem scanValue_nil (fuel : ℕ) : scanValue fuel [] = none := by
  cases fuel with
  | zero => rw [scanValue]
  | succ fuel =>
    rw [scanValue]
    nofun

theorem scanItems_nil (fuel : ℕ) : scanItems fuel [] = none := by
  cases fuel with
  | zero => rw [scanItems]
  | succ fuel => rw [scanItems, scanValue_nil]

theorem scanMembers_nil (fuel : ℕ) : scanMembers fuel [] = none := by
  cases fuel with
  | zero => rw [scanMembers]
  | succ fuel =>
    rw [scanMembers]
    nofun

/-- A number does not spell infinity. -/
theorem skipWord_infinity_of_scanNumber {negative : Bool} {s rest : Str} {v : Loaded}
    (h : scanNumber negative s = some (v, rest)) (x : Str) :
    skipWord (text "Infinity") (s ++ x) = none := by
  rcases s with _ | ⟨c, s⟩
  · cases h
  have hc : c ≠ 73 := by
    rintro rfl
    rw [scanNumber, scanDigits, if_neg (by decide), if_neg (by decide)] at h
    cases h
  unfold skipWord
  rw [if_neg]
  intro hprefix
  obtain ⟨more, he⟩ := List.isPrefixOf_iff_prefix.mp hprefix
  exact hc (List.cons.inj he).1.symm

/-- What reading with so much fuel gives is given whatever follows: a value that a delimiter ends,
or an object; the items of an array, and the members of an object. -/
structure ReadsOn (fuel : ℕ) : Prop where
  value : ∀ {s v rest}, scanValue fuel s = some (v, rest) → Delimited rest ∨ s.head? = some 123 →
    ∀ {fuel'}, fuel ≤ fuel' → ∀ x, scanValue fuel' (s ++ x) = some (v, rest ++ x)
  items : ∀ {s vs rest}, scanItems fuel s = some (vs, rest) →
    ∀ {fuel'}, fuel ≤ fuel' → ∀ x, scanItems fuel' (s ++ x) = some (vs, rest ++ x)
  members : ∀ {s ms rest}, scanMembers fuel s = some (ms, rest) →
    ∀ {fuel'}, fuel ≤ fuel' → ∀ x, scanMembers fuel' (s ++ x) = some (ms, rest ++ x)

theorem ReadsOn.scanValue_succ {fuel : ℕ} (ih : ReadsOn fuel) {s rest : Str} {v : Loaded}
    (h : scanValue (fuel + 1) s = some (v, rest)) (hends : Delimited rest ∨ s.head? = some 123)
    {fuel' : ℕ} (hfuel : fuel + 1 ≤ fuel') (x : Str) :
    scanValue fuel' (s ++ x) = some (v, rest ++ x) := by
  obtain ⟨fuel', rfl⟩ := Nat.exists_eq_succ_of_ne_zero (show fuel' ≠ 0 by omega)
  have hle : fuel ≤ fuel' := by omega
  rcases s with _ | ⟨c, s⟩
  · cases h
  rw [List.cons_append]
  rw [scanValue] at h ⊢
  split_ifs at h ⊢ with hstr hobj harr hnull htrue hfalse hnan hinf hminus
  · obtain ⟨⟨w, rest'⟩, hw, he⟩ := Option.map_eq_some_iff.mp h
    cases he
    rw [scanString_append (by simp) hw]
    rfl
  · rcases hskip : skipBlanks s with _ | ⟨d, more⟩
    · rw [hskip] at h
      cases h
    rw [hskip] at h
    rw [skipBlanks_append hskip]
    dsimp only at h ⊢
    split_ifs at h ⊢
    · cases h
      rfl
    · obtain ⟨⟨ms, rest'⟩, hms, he⟩ := Option.map_eq_some_iff.mp h
      cases he
      rw [← List.cons_append, ih.members hms hle]
      rfl
  · rcases hskip : skipBlanks s with _ | ⟨d, more⟩
    · rw [hskip] at h
      cases h
    rw [hskip] at h
    rw [skipBlanks_append hskip]
    dsimp only at h ⊢
    split_ifs at h ⊢
    · cases h
      rfl
    · obtain ⟨⟨vs, rest'⟩, hvs, he⟩ := Option.map_eq_some_iff.mp h
      cases he
      rw [← List.cons_append, ih.items hvs hle]
      rfl
  iterate 5
    · obtain ⟨rest', hword, he⟩ := Option.map_eq_some_iff.mp h
      cases he
      rw [skipWord_append hword]
      rfl
  · have hdelimited : Delimited rest := hends.resolve_right fun he => hobj (Option.some.inj he)
    rcases hword : skipWord (text "Infinity") s with _ | left
    · rw [hword] at h
      rw [skipWord_infinity_of_scanNumber h x]
      exact scanNumber_append h hdelimited x
    · rw [hword] at h
      cases h
      rw [skipWord_append hword]
  · have hdelimited : Delimited rest := hends.resolve_right fun he => hobj (Option.some.inj he)
    exact scanNumber_append h hdelimited x

theorem ReadsOn.scanItems_succ {fuel : ℕ} (ih : ReadsOn fuel) {s rest : Str} {vs : List Loaded}
    (h : scanItems (fuel + 1) s = some (vs, rest)) {fuel' : ℕ} (hfuel : fuel + 1 ≤ fuel') (x : Str) :
    scanItems fuel' (s ++ x) = some (vs, rest ++ x) := by
  obtain ⟨fuel', rfl⟩ := Nat.exists_eq_succ_of_ne_zero (show fuel' ≠ 0 by omega)
  have hle : fuel ≤ fuel' := by omega
  rw [scanItems] at h ⊢
  rcases hv : scanValue fuel s with _ | ⟨v, more⟩
  · rw [hv] at h
    cases h
  rw [hv] at h
  dsimp only at h
  rcases hskip : skipBlanks more with _ | ⟨c, left⟩
  · rw [hskip] at h
    cases h
  rw [hskip] at h
  dsimp only at h
  have hdelimiter : isDelimiter c = true := by
    split_ifs at h with hclose hcomma
    · rw [hclose]
      decide
    · rw [hcomma]
      decide
  rw [ih.value hv (.inl (delimited_of_skipBlanks hskip hdelimiter)) hle]
  dsimp only
  rw [skipBlanks_append hskip]
  dsimp only
  split_ifs at h ⊢
  · cases h
    rfl
  · obtain ⟨⟨ws, rest'⟩, hws, he⟩ := Option.map_eq_some_iff.mp h
    cases he
    rcases hleft : skipBlanks left with _ | ⟨d, left'⟩
    · rw [hleft, scanItems_nil] at hws
      cases hws
    · rw [skipBlanks_append hleft, ← List.cons_append, ← hleft, ih.items hws hle]
      rfl

theorem ReadsOn.scanMembers_succ {fuel : ℕ} (ih : ReadsOn fuel) {s rest : Str}
    {ms : List (Str × Loaded)} (h : scanMembers (fuel + 1) s = some (ms, rest)) {fuel' : ℕ}
    (hfuel : fuel + 1 ≤ fuel') (x : Str) : scanMembers fuel' (s ++ x) = some (ms, rest ++ x) := by
  obtain ⟨fuel', rfl⟩ := Nat.exists_eq_succ_of_ne_zero (show fuel' ≠ 0 by omega)
  have hle : fuel ≤ fuel' := by omega
  rcases s with _ | ⟨quote, s⟩
  · cases h
  rw [List.cons_append]
  rw [scanMembers] at h ⊢
  split_ifs at h ⊢
  rcases hkey : scanString (s.length + 1) s with _ | ⟨key, afterKey⟩
  · rw [hkey] at h
    cases h
  rw [hkey] at h
  rw [scanString_append (by simp) hkey]
  dsimp only at h ⊢
  rcases hskip : skipBlanks afterKey with _ | ⟨colon, afterColon⟩
  · rw [hskip] at h
    cases h
  rw [hskip] at h
  rw [skipBlanks_append hskip]
  dsimp only at h ⊢
  split_ifs at h ⊢
  rcases hstart : skipBlanks afterColon with _ | ⟨b, valueText⟩
  · rw [hstart, scanValue_nil] at h
    cases h
  rw [hstart] at h
  rw [skipBlanks_append hstart]
  rcases hv : scanValue fuel (b :: valueText) with _ | ⟨v, more⟩
  · rw [hv] at h
    cases h
  rw [hv] at h
  dsimp only at h
  rcases hend : skipBlanks more with _ | ⟨c, left⟩
  · rw [hend] at h
    cases h
  rw [hend] at h
  dsimp only at h
  have hdelimiter : isDelimiter c = true := by
    split_ifs at h with hclose hcomma
    · rw [hclose]
      decide
    · rw [hcomma]
      decide
  rw [← List.cons_append, ih.value hv (.inl (delimited_of_skipBlanks hend hdelimiter)) hle]
  dsimp only
  rw [skipBlanks_append hend]
  dsimp only
  split_ifs at h ⊢
  · cases h
    rfl
  · obtain ⟨⟨ns, rest'⟩, hns, he⟩ := Option.map_eq_some_iff.mp h
    cases he
    rcases hleft : skipBlanks left with _ | ⟨d, left'⟩
    · rw [hleft, scanMembers_nil] at hns
      cases hns
    · rw [skipBlanks_append hleft, ← List.cons_append, ← hleft, ih.members hns hle]
      rfl

theorem readsOn (fuel : ℕ) : ReadsOn fuel := by
  induction fuel with
  | zero =>
    refine ⟨fun {s} _ _ h => ?_, fun {s} _ _ h => ?_, fun {s} _ _ h => ?_⟩
    · rw [scanValue] at h
      cases h
    · rw [scanItems] at h
      cases h
    · rw [scanMembers] at h
      cases h
  | succ fuel ih =>
    exact ⟨fun h hends _ hle x => ih.scanValue_succ h hends hle x,
      fun h _ hle x => ih.scanItems_succ h hle x, fun h _ hle x => ih.scanMembers_succ h hle x⟩

/-- An object is read alike whatever follows. -/
theorem scanValue_object {s rest : Str} {v : Loaded}
    (h : scanValue (2 * (123 :: s).length + 2) (123 :: s) = some (v, rest)) (x : Str) :
    scanValue (2 * (123 :: (s ++ x)).length + 2) (123 :: (s ++ x)) = some (v, rest ++ x) := by
  refine (readsOn _).value h (.inr rfl) ?_ x
  simp only [List.length_cons, List.length_append]
  omega

theorem skipBlanks_eq_nil {s : Str} : skipBlanks s = [] ↔ ∀ c ∈ s, isBlank c = true :=
  List.dropWhile_eq_nil_iff

/-- What reads the text of an object. -/
theorem loads_object {s : Str} {v : Loaded} :
    loads (123 :: s) = some v ↔
      ∃ rest, scanValue (2 * (123 :: s).length + 2) (123 :: s) = some (v, rest) ∧
        ∀ c ∈ rest, isBlank c = true := by
  have hskip : skipBlanks (123 :: s) = 123 :: s := rfl
  rw [loads, hskip]
  rcases scanValue (2 * (123 :: s).length + 2) (123 :: s) with _ | ⟨w, rest⟩
  · simp
  · simp [← skipBlanks_eq_nil, and_comm]

/-- Blanks behind an object do not count. -/
theorem loads_append_blanks {s x : Str} {v : Loaded} (h : loads s = some v)
    (hbrace : s.head? = some 123) (hx : ∀ c ∈ x, isBlank c = true) : loads (s ++ x) = some v := by
  rcases s with _ | ⟨b, s⟩
  · cases hbrace
  obtain rfl : b = 123 := Option.some.inj hbrace
  obtain ⟨rest, hs, hrest⟩ := loads_object.mp h
  refine loads_object.mpr ⟨rest ++ x, scanValue_object hs x, fun c hc => ?_⟩
  exact (List.mem_append.mp hc).elim (hrest c) (hx c)

/-- **No text of an object is the start of a longer one**: what is cut off the end of a text that
begins with its brace and does not end with a blank makes it unreadable. -/
theorem loads_prefix_eq_none {s x : Str} {v : Loaded} (h : loads (s ++ x) = some v)
    (hbrace : (s ++ x).head? = some 123) (hx : x ≠ [])
    (hlast : ∀ c ∈ (s ++ x).getLast?, isBlank c = false) : loads s = none := by
  rcases s with _ | ⟨b, s⟩
  · rfl
  obtain rfl : b = 123 := Option.some.inj hbrace
  refine Option.eq_none_iff_forall_ne_some.mpr fun w hw => ?_
  obtain ⟨rest, hs, -⟩ := loads_object.mp hw
  rw [List.cons_append] at h
  obtain ⟨all, hall, hblank⟩ := loads_object.mp h
  rw [scanValue_object hs x] at hall
  obtain rfl : rest ++ x = all := (Prod.mk.inj (Option.some.inj hall)).2
  -- so the last character, which is one of `x`, is a blank
  obtain ⟨c, hc⟩ := Option.isSome_iff_exists.mp (List.getLast?_isSome.mpr hx)
  have hend : (123 :: s ++ x).getLast? = some c := by
    rw [List.getLast?_append_of_ne_nil _ hx, hc]
  have hnot := hlast c hend
  rw [hblank c (List.mem_append_right _ (List.mem_of_getLast? hc))] at hnot
  cases hnot

end DrExec.Lib.JsonLoads
