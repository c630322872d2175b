import DrExec.Core.Model
import DrExec.Lib.JsonForm

/-! # Persisted scalars

The pinned spellings of `core/model.py`: UTC timestamps with microseconds, lowercase hyphenated
UUIDs, and POSIX paths as `pathlib` spells them. Each is written by its serializer and read back by
its validator. -/

namespace DrExec.Core.Scalars

open DrExec.Core.Model DrExec.Lib DrExec.Lib.Json

/-! ### Digits -/

/-- The digit of a number below 16. -/
def digit (n : ℕ) : CodePoint := Fin.ofNat _ (if n < 10 then 48 + n else 87 + n)

/-- A number by as many digits of base `b`. -/
def digits (b : ℕ) : ℕ → ℕ → Str
  | 0, _ => []
  | width + 1, n => digits b width (n / b) ++ [digit (n % b)]

def digitValue (c : CodePoint) : Option ℕ :=
  if 48 ≤ c.val ∧ c.val ≤ 57 then some (c.val - 48)
  else if 97 ≤ c.val ∧ c.val ≤ 102 then some (c.val - 87)
  else none

/-- Read one more digit. -/
def readDigit (b n : ℕ) (c : CodePoint) : Option ℕ :=
  (digitValue c).bind fun d => if d < b then some (n * b + d) else none

/-- Read as many digits of base `b`, after those that gave `n`. -/
def readDigits (b : ℕ) : ℕ → ℕ → Str → Option (ℕ × Str)
  | 0, n, s => some (n, s)
  | _ + 1, _, [] => none
  | width + 1, n, c :: s => (readDigit b n c).bind fun n => readDigits b width n s

theorem digit_val {n : ℕ} (h : n < 16) :
    (digit n).val = if n < 10 then 48 + n else 87 + n := by
  simp only [digit, Fin.val_ofNat]
  split_ifs <;> omega

theorem digitValue_digit {n : ℕ} (h : n < 16) : digitValue (digit n) = some n := by
  have hval := digit_val h
  unfold digitValue
  by_cases hn : n < 10
  · rw [if_pos hn] at hval
    rw [if_pos (by omega), Option.some.injEq]
    omega
  · rw [if_neg hn] at hval
    rw [if_neg (by omega), if_pos (by omega), Option.some.injEq]
    omega

theorem isScalar_digit {n : ℕ} (h : n < 16) : IsScalar (digit n) := by
  have hval := digit_val h
  left
  split_ifs at hval <;> omega

theorem isScalar_digits {b : ℕ} (hb : 0 < b) (hb' : b ≤ 16) (width n : ℕ) :
    ∀ c ∈ digits b width n, IsScalar c := by
  induction width generalizing n with
  | zero => simp [digits]
  | succ width ih =>
    intro c hc
    rcases List.mem_append.mp hc with hc | hc
    · exact ih (n / b) c hc
    · rw [List.mem_singleton.mp hc]
      exact isScalar_digit ((Nat.mod_lt n hb).trans_le hb')

/-- Reading digits after others is reading one longer number. -/
theorem readDigits_digits {b : ℕ} (hb : 0 < b) (hb' : b ≤ 16) (width n m : ℕ)
    (hn : n < b ^ width) (rest : Str) :
    readDigits b width m (digits b width n ++ rest) = some (m * b ^ width + n, rest) := by
  have key : ∀ (width n : ℕ), n < b ^ width → ∀ (more m : ℕ) (rest : Str),
      readDigits b (width + more) m (digits b width n ++ rest) =
        readDigits b more (m * b ^ width + n) rest := by
    clear hn
    intro width
    induction width with
    | zero =>
      intro n hn more m rest
      obtain rfl : n = 0 := by simpa using hn
      simp [digits]
    | succ width ih =>
      intro n hn more m rest
      have hdiv : n / b < b ^ width := by
        rw [Nat.div_lt_iff_lt_mul hb]
        rwa [pow_succ] at hn
      have hmod := Nat.mod_lt n hb
      have hstep : readDigits b (more + 1) (m * b ^ width + n / b) (digit (n % b) :: rest) =
          readDigits b more (m * b ^ (width + 1) + n) rest := by
        have hvalue : (m * b ^ width + n / b) * b + n % b = m * b ^ (width + 1) + n := by
          rw [pow_succ, Nat.add_mul, Nat.mul_assoc, Nat.add_assoc, Nat.mul_comm (n / b) b,
            Nat.div_add_mod]
        rw [readDigits, readDigit, digitValue_digit (hmod.trans_le hb'), Option.bind_some,
          if_pos hmod, Option.bind_some, hvalue]
      rw [digits, List.append_assoc, show width + 1 + more = width + (more + 1) by omega,
        ih (n / b) hdiv (more + 1) m]
      exact hstep
  exact key width n hn 0 m rest

/-- Read one character. -/
def skipChar (c : CodePoint) : Str → Option Str
  | [] => none
  | c' :: s => if c' = c then some s else none

@[simp] theorem skipChar_cons (c : CodePoint) (s : Str) : skipChar c (c :: s) = some s := if_pos rfl

/-! ### Timestamps -/

/-- The days of a month. -/
def daysIn (year month : ℕ) : ℕ :=
  if month = 2 then
    if year % 4 = 0 ∧ (year % 100 ≠ 0 ∨ year % 400 = 0) then 29 else 28
  else if month = 4 ∨ month = 6 ∨ month = 9 ∨ month = 11 then 30
  else 31

/-- What `datetime` admits. -/
structure ValidTime (year month day hour minute second microsecond : ℕ) : Prop where
  year_pos : 1 ≤ year
  year_le : year ≤ 9999
  month_pos : 1 ≤ month
  month_le : month ≤ 12
  day_pos : 1 ≤ day
  day_le : day ≤ daysIn year month
  hour_lt : hour < 24
  minute_lt : minute < 60
  second_lt : second < 60
  microsecond_lt : microsecond < 1000000

/-- `UtcDatetime`: a moment by its UTC fields, whatever object names its zone. -/
structure UtcDatetime where
  year : ℕ
  month : ℕ
  day : ℕ
  hour : ℕ
  minute : ℕ
  second : ℕ
  microsecond : ℕ
  valid : ValidTime year month day hour minute second microsecond

/-- The moments in order. -/
def UtcDatetime.key (t : UtcDatetime) : List ℕ :=
  [t.year, t.month, t.day, t.hour, t.minute, t.second, t.microsecond]

/-- `finished_at < started_at` and the like. -/
def UtcDatetime.before (t u : UtcDatetime) : Bool := decide (t.key < u.key)

instance (year month day hour minute second microsecond : ℕ) :
    Decidable (ValidTime year month day hour minute second microsecond) :=
  decidable_of_iff
    (1 ≤ year ∧ year ≤ 9999 ∧ 1 ≤ month ∧ month ≤ 12 ∧ 1 ≤ day ∧ day ≤ daysIn year month ∧
      hour < 24 ∧ minute < 60 ∧ second < 60 ∧ microsecond < 1000000)
    ⟨fun ⟨h1, h2, h3, h4, h5, h6, h7, h8, h9, h10⟩ => ⟨h1, h2, h3, h4, h5, h6, h7, h8, h9, h10⟩,
      fun ⟨h1, h2, h3, h4, h5, h6, h7, h8, h9, h10⟩ => ⟨h1, h2, h3, h4, h5, h6, h7, h8, h9, h10⟩⟩

def letterT : CodePoint := 84

def letterZ : CodePoint := 90

/-- `_serialize_utc` -/
def serializeUtc (t : UtcDatetime) : Str :=
  digits 10 4 t.year ++ hyphen :: (digits 10 2 t.month ++ hyphen :: (digits 10 2 t.day ++
    letterT :: (digits 10 2 t.hour ++ colon :: (digits 10 2 t.minute ++ colon ::
      (digits 10 2 t.second ++ dot :: (digits 10 6 t.microsecond ++ [letterZ]))))))

/-- `_require_pinned_utc_spelling`: the pattern, and `datetime.fromisoformat` of what matches it. -/
def requirePinnedUtcSpelling (s : Str) : Option UtcDatetime := do
  let (year, s) ← readDigits 10 4 0 s
  let (month, s) ← readDigits 10 2 0 (← skipChar hyphen s)
  let (day, s) ← readDigits 10 2 0 (← skipChar hyphen s)
  let (hour, s) ← readDigits 10 2 0 (← skipChar letterT s)
  let (minute, s) ← readDigits 10 2 0 (← skipChar colon s)
  let (second, s) ← readDigits 10 2 0 (← skipChar colon s)
  let (microsecond, s) ← readDigits 10 6 0 (← skipChar dot s)
  if s = [letterZ] then
    if h : ValidTime year month day hour minute second microsecond then
      some ⟨year, month, day, hour, minute, second, microsecond, h⟩
    else none
  else none

theorem UtcDatetime.day_lt (t : UtcDatetime) : t.day < 10 ^ 2 := by
  have hday := t.valid.day_le
  unfold daysIn at hday
  split_ifs at hday <;> omega

theorem bind_eq_of_some {α β : Type} {x : Option α} {a : α} (h : x = some a) (f : α → Option β) :
    x >>= f = f a := by
  rw [h]
  rfl

theorem readDigits_ten {width n : ℕ} (hn : n < 10 ^ width) (rest : Str) :
    readDigits 10 width 0 (digits 10 width n ++ rest) = some (n, rest) := by
  simpa using readDigits_digits (by omega) (by omega) width n 0 hn rest

/-- **A timestamp reads back.** -/
theorem requirePinnedUtcSpelling_serializeUtc (t : UtcDatetime) :
    requirePinnedUtcSpelling (serializeUtc t) = some t := by
  obtain ⟨-, hyear, -, hmonth, -, -, hhour, hminute, hsecond, hmicrosecond⟩ := t.valid
  refine (bind_eq_of_some (readDigits_ten (by omega) _) _).trans ?_
  refine (bind_eq_of_some (skipChar_cons hyphen _) _).trans ?_
  refine (bind_eq_of_some (readDigits_ten (by omega) _) _).trans ?_
  refine (bind_eq_of_some (skipChar_cons hyphen _) _).trans ?_
  refine (bind_eq_of_some (readDigits_ten t.day_lt _) _).trans ?_
  refine (bind_eq_of_some (skipChar_cons letterT _) _).trans ?_
  refine (bind_eq_of_some (readDigits_ten (by omega) _) _).trans ?_
  refine (bind_eq_of_some (skipChar_cons colon _) _).trans ?_
  refine (bind_eq_of_some (readDigits_ten (by omega) _) _).trans ?_
  refine (bind_eq_of_some (skipChar_cons colon _) _).trans ?_
  refine (bind_eq_of_some (readDigits_ten (by omega) _) _).trans ?_
  refine (bind_eq_of_some (skipChar_cons dot _) _).trans ?_
  refine (bind_eq_of_some (readDigits_ten (by omega) _) _).trans ?_
  exact (if_pos rfl).trans (dif_pos t.valid)

theorem isScalar_serializeUtc (t : UtcDatetime) : ∀ c ∈ serializeUtc t, IsScalar c := by
  have hdigits := fun width n => isScalar_digits (b := 10) (by omega) (by omega) width n
  have hchars : IsScalar hyphen ∧ IsScalar letterT ∧ IsScalar colon ∧ IsScalar dot ∧
      IsScalar letterZ := by decide
  obtain ⟨h1, h2, h3, h4, h5⟩ := hchars
  intro c hc
  simp only [serializeUtc, List.mem_append, List.mem_cons, List.not_mem_nil, or_false] at hc
  rcases hc with h | rfl | h | rfl | h | rfl | h | rfl | h | rfl | h | rfl | h | rfl
  all_goals first | assumption | exact hdigits _ _ _ h

/-- `UtcDatetime`, as a field. -/
def utcDatetime : Form UtcDatetime :=
  .spelled serializeUtc requirePinnedUtcSpelling (fun _ t _ _ => isScalar_serializeUtc t)
    requirePinnedUtcSpelling_serializeUtc

/-! ### UUIDs -/

instance neZero_eightDigits : @NeZero ℕ Zero.ofOfNat0 (16 ^ 8) := ⟨by decide⟩

instance neZero_fourDigits : @NeZero ℕ Zero.ofOfNat0 (16 ^ 4) := ⟨by decide⟩

instance neZero_twelveDigits : @NeZero ℕ Zero.ofOfNat0 (16 ^ 12) := ⟨by decide⟩

/-- A UUID by its five groups of hexadecimal digits. -/
structure Uuid where
  timeLow : Fin (16 ^ 8)
  timeMid : Fin (16 ^ 4)
  timeHi : Fin (16 ^ 4)
  clockSeq : Fin (16 ^ 4)
  node : Fin (16 ^ 12)
  deriving DecidableEq

/-- `str` of a UUID. -/
def Uuid.spelling (u : Uuid) : Str :=
  digits 16 8 u.timeLow ++ hyphen :: (digits 16 4 u.timeMid ++ hyphen :: (digits 16 4 u.timeHi ++
    hyphen :: (digits 16 4 u.clockSeq ++ hyphen :: digits 16 12 u.node)))

/-- Read a group of digits. -/
def readGroup (width : ℕ) (s : Str) : Option (Fin (16 ^ width) × Str) :=
  (readDigits 16 width 0 s).bind fun r => if h : r.1 < 16 ^ width then some (⟨r.1, h⟩, r.2) else none

/-- `_require_pinned_uuid_spelling`, and `UUID` of what it lets through. -/
def requirePinnedUuidSpelling (s : Str) : Option Uuid := do
  let (timeLow, s) ← readGroup 8 s
  let (timeMid, s) ← readGroup 4 (← skipChar hyphen s)
  let (timeHi, s) ← readGroup 4 (← skipChar hyphen s)
  let (clockSeq, s) ← readGroup 4 (← skipChar hyphen s)
  let (node, s) ← readGroup 12 (← skipChar hyphen s)
  if s = [] then some ⟨timeLow, timeMid, timeHi, clockSeq, node⟩ else none

theorem readGroup_digits (width : ℕ) (n : Fin (16 ^ width)) (rest : Str) :
    readGroup width (digits 16 width n ++ rest) = some (n, rest) := by
  have hread := readDigits_digits (b := 16) (by omega) le_rfl width n 0 n.isLt rest
  rw [Nat.zero_mul, Nat.zero_add] at hread
  rw [readGroup, hread, Option.bind_some, dif_pos n.isLt]

/-- **A UUID reads back.** -/
theorem requirePinnedUuidSpelling_spelling (u : Uuid) :
    requirePinnedUuidSpelling u.spelling = some u := by
  have hlast : readGroup 12 (digits 16 12 u.node) = some (u.node, []) := by
    rw [← readGroup_digits 12 u.node [], List.append_nil]
  refine (bind_eq_of_some (readGroup_digits 8 u.timeLow _) _).trans ?_
  refine (bind_eq_of_some (skipChar_cons hyphen _) _).trans ?_
  refine (bind_eq_of_some (readGroup_digits 4 u.timeMid _) _).trans ?_
  refine (bind_eq_of_some (skipChar_cons hyphen _) _).trans ?_
  refine (bind_eq_of_some (readGroup_digits 4 u.timeHi _) _).trans ?_
  refine (bind_eq_of_some (skipChar_cons hyphen _) _).trans ?_
  refine (bind_eq_of_some (readGroup_digits 4 u.clockSeq _) _).trans ?_
  refine (bind_eq_of_some (skipChar_cons hyphen _) _).trans ?_
  refine (bind_eq_of_some hlast _).trans ?_
  exact if_pos rfl

theorem Uuid.isScalar_spelling (u : Uuid) : ∀ c ∈ u.spelling, IsScalar c := by
  have hdigits := fun width n => isScalar_digits (b := 16) (by omega) le_rfl width n
  have hhyphen : IsScalar hyphen := by decide
  intro c hc
  simp only [Uuid.spelling, List.mem_append, List.mem_cons] at hc
  rcases hc with h | rfl | h | rfl | h | rfl | h | rfl | h
  all_goals first | assumption | exact hdigits _ _ _ h

/-- `CanonicalUuid`, as a field. -/
def canonicalUuid : Form Uuid :=
  .spelled Uuid.spelling requirePinnedUuidSpelling (fun _ u _ _ => u.isScalar_spelling)
    requirePinnedUuidSpelling_spelling

/-! ### Paths -/

inductive PathRoot
  | relative
  | slash
  | doubleSlash
  deriving DecidableEq, Repr

def PathRoot.spelling : PathRoot → Str
  | relative => []
  | .slash => [Model.slash]
  | doubleSlash => [Model.slash, Model.slash]

/-- The part that names the parent directory. -/
def dotDot : Str := [dot, dot]

/-- The root of a spelling; three slashes or more are one. -/
def pathRoot (s : Str) : PathRoot :=
  match (s.takeWhile (· = slash)).length with
  | 0 => .relative
  | 2 => .doubleSlash
  | _ => .slash

/-- The parts of a spelling: what is between slashes, but for nothing and for a dot. -/
def pathParts (s : Str) : List Str := (s.splitOn slash).filter fun part => part ≠ [] ∧ part ≠ [dot]

/-- The spelling of a root and its parts. -/
def spellPath (root : PathRoot) (parts : List Str) : Str :=
  if root = .relative ∧ parts = [] then [dot] else root.spelling ++ [slash].intercalate parts

/-- What a part of a path is. -/
def ValidPart (part : Str) : Prop :=
  part ≠ [] ∧ part ≠ [dot] ∧ slash ∉ part

instance : DecidablePred ValidPart := fun _ => inferInstanceAs (Decidable (_ ∧ _))

/-- A `Path`, by its root and its parts. -/
structure PurePosixPath where
  root : PathRoot
  parts : List Str
  valid : ∀ part ∈ parts, ValidPart part
  deriving DecidableEq

/-- `as_posix()`, which is `str` here. -/
def PurePosixPath.asPosix (path : PurePosixPath) : Str := spellPath path.root path.parts

/-- What is between slashes holds none, and nothing that the string does not hold. -/
theorem mem_splitOn {s part : Str} (h : part ∈ s.splitOn slash) :
    slash ∉ part ∧ ∀ c ∈ part, c ∈ s := by
  induction s generalizing part with
  | nil =>
    obtain rfl : part = [] := by simpa using h
    simp
  | cons c s ih =>
    rw [List.splitOn_cons_eq_if_modifyHead] at h
    split_ifs at h with hc
    · rcases List.mem_cons.mp h with rfl | h
      · simp
      · exact ⟨(ih h).1, fun x hx => List.mem_cons_of_mem _ ((ih h).2 x hx)⟩
    · cases hsplit : s.splitOn slash with
      | nil => exact absurd hsplit (List.splitOn_ne_nil _ _)
      | cons head tail =>
        rw [hsplit, List.modifyHead_cons] at h
        rw [hsplit] at ih
        rcases List.mem_cons.mp h with rfl | h
        · obtain ⟨hslash, hmem⟩ := ih List.mem_cons_self
          have hne : slash ≠ c := fun heq => hc (by simp [heq])
          refine ⟨by simp [hne, hslash], fun x hx => ?_⟩
          rcases List.mem_cons.mp hx with rfl | hx
          · exact List.mem_cons_self
          · exact List.mem_cons_of_mem _ (hmem x hx)
        · obtain ⟨hslash, hmem⟩ := ih (List.mem_cons_of_mem _ h)
          exact ⟨hslash, fun x hx => List.mem_cons_of_mem _ (hmem x hx)⟩

theorem validPart_of_mem_pathParts {s part : Str} (h : part ∈ pathParts s) : ValidPart part := by
  obtain ⟨hsplit, hkept⟩ := List.mem_filter.mp h
  have hkept : part ≠ [] ∧ part ≠ [dot] := of_decide_eq_true hkept
  exact ⟨hkept.1, hkept.2, (mem_splitOn hsplit).1⟩

/-- `Path(s)` -/
def PurePosixPath.ofStr (s : Str) : PurePosixPath :=
  ⟨pathRoot s, pathParts s, fun _ => validPart_of_mem_pathParts⟩

def PurePosixPath.isAbsolute (path : PurePosixPath) : Bool := path.root ≠ .relative

/-- What follows the root does not begin with a slash. -/
theorem takeWhile_parts (path : PurePosixPath) :
    ([slash].intercalate path.parts).takeWhile (· = slash) = [] := by
  cases hparts : path.parts with
  | nil => rfl
  | cons part parts =>
    obtain ⟨hne, -, hslash⟩ := path.valid part (by simp [hparts])
    obtain ⟨c, rest, rfl⟩ := List.exists_cons_of_ne_nil hne
    have hc : c ≠ slash := fun h => hslash (by simp [h])
    cases parts <;> simp [List.intercalate_cons_cons, hc]

theorem pathRoot_asPosix (path : PurePosixPath) : pathRoot path.asPosix = path.root := by
  have hparts := takeWhile_parts path
  unfold PurePosixPath.asPosix spellPath
  split_ifs with hdot
  · rw [hdot.1]
    rfl
  · cases path.root <;> simp [pathRoot, PathRoot.spelling, hparts]

theorem filter_parts (path : PurePosixPath) :
    path.parts.filter (fun part => part ≠ [] ∧ part ≠ [dot]) = path.parts := by
  rw [List.filter_eq_self]
  intro part hpart
  obtain ⟨hne, hdot, -⟩ := path.valid part hpart
  simp [hne, hdot]

theorem pathParts_intercalate (path : PurePosixPath) :
    pathParts ([slash].intercalate path.parts) = path.parts := by
  unfold pathParts
  by_cases hparts : path.parts = []
  · simp [hparts]
  · rw [List.splitOn_intercalate slash (fun part hpart => (path.valid part hpart).2.2) hparts]
    exact filter_parts path

/-- A slash in front adds no part. -/
theorem pathParts_slash (s : Str) : pathParts (slash :: s) = pathParts s := by
  simp [pathParts, List.splitOn_cons_eq_if_modifyHead]

theorem pathParts_asPosix (path : PurePosixPath) : pathParts path.asPosix = path.parts := by
  unfold PurePosixPath.asPosix spellPath
  split_ifs with hdot
  · rw [hdot.2]
    rfl
  · cases path.root <;> simp [PathRoot.spelling, pathParts_slash, pathParts_intercalate]

/-- **A path reads back.** -/
theorem PurePosixPath.ofStr_asPosix (path : PurePosixPath) :
    PurePosixPath.ofStr path.asPosix = path := by
  simp only [PurePosixPath.ofStr, pathParts_asPosix, pathRoot_asPosix]

theorem mem_intercalate {α : Type} {separator x : α} {parts : List (List α)}
    (h : x ∈ [separator].intercalate parts) : x = separator ∨ ∃ part ∈ parts, x ∈ part := by
  induction parts with
  | nil => simp at h
  | cons part parts ih =>
    cases parts with
    | nil => exact .inr ⟨part, by simp, by simpa using h⟩
    | cons part' parts =>
      rw [List.intercalate_cons_cons, List.append_assoc] at h
      rcases List.mem_append.mp h with h | h
      · exact .inr ⟨part, by simp, h⟩
      · rcases List.mem_append.mp h with h | h
        · exact .inl (List.mem_singleton.mp h)
        · exact (ih h).imp_right fun ⟨x, hx, hcx⟩ => ⟨x, List.mem_cons_of_mem _ hx, hcx⟩

/-- The characters of a path are those of its parts, dots and slashes. -/
theorem PurePosixPath.isScalar_asPosix {path : PurePosixPath}
    (h : ∀ part ∈ path.parts, ∀ c ∈ part, IsScalar c) : ∀ c ∈ path.asPosix, IsScalar c := by
  have hchars : IsScalar dot ∧ IsScalar slash := by decide
  intro c hc
  unfold PurePosixPath.asPosix spellPath at hc
  split_ifs at hc
  · rw [List.mem_singleton.mp hc]
    exact hchars.1
  rcases List.mem_append.mp hc with hc | hc
  · obtain rfl : c = slash := by
      revert hc
      cases path.root <;> simp [PathRoot.spelling]
    exact hchars.2
  · rcases mem_intercalate hc with rfl | ⟨part, hpart, hcpart⟩
    · exact hchars.2
    · exact h part hpart c hcpart

theorem PurePosixPath.isScalar_ofStr {s : Str} (h : ∀ c ∈ s, IsScalar c) :
    ∀ c ∈ (PurePosixPath.ofStr s).asPosix, IsScalar c := by
  refine PurePosixPath.isScalar_asPosix fun part hpart c hc => h c ?_
  exact (mem_splitOn (List.mem_filter.mp hpart).1).2 c hc

/-- `Path`, as a field. -/
def path : Form PurePosixPath :=
  .spelled PurePosixPath.asPosix (fun s => some (.ofStr s))
    (fun s path hs h => by
      obtain rfl : PurePosixPath.ofStr s = path := Option.some.inj h
      exact PurePosixPath.isScalar_ofStr hs)
    (fun path => congrArg some path.ofStr_asPosix)

end DrExec.Core.Scalars
