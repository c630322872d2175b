import DrExec.Lib.JsonText
import Mathlib.Data.PNat.Basic

/-! # Forms of JSON values

A `Form α` writes values of `α` as JSON and reads them back from the value with its keys sorted, by
a law that it carries; and what it reads from a value without lone surrogates it writes without them.
Forms are built from those of strings, numbers and enumerations by lists, nullable values, objects
of named fields and unions that one field tells apart; each construction proves the laws of its
result from the laws of its parts. -/

namespace DrExec.Lib.Json

/-- A way to write `α` as JSON and to read it back, which brings in no lone surrogate. -/
structure Form (α : Type) where
  encode : α → Json
  decode : Json → Option α
  decode_encode : ∀ a, decode (encode a).normalize = some a
  scalar_decode : ∀ v a, v.scalar = true → decode v = some a → (encode a).scalar = true

/-- A character is no surrogate. -/
theorem isScalar_ofNat (c : Char) : IsScalar (Fin.ofNat 0x110000 c.toNat) := by
  have hvalid : c.toNat.isValidChar := c.valid
  have hlt : c.toNat < 0x110000 := by rcases hvalid with h | ⟨-, h⟩ <;> omega
  simp only [IsScalar, Fin.val_ofNat, Nat.mod_eq_of_lt hlt]
  rcases hvalid with h | ⟨h, -⟩
  · exact .inl h
  · exact .inr (by omega)

theorem isScalar_of_mem_text {s : String} {c : CodePoint} (h : c ∈ text s) : IsScalar c := by
  obtain ⟨ch, -, rfl⟩ := List.mem_map.mp h
  exact isScalar_ofNat ch

theorem text_injective : Function.Injective text := by
  intro s t h
  have hchar : Function.Injective fun c : Char => Fin.ofNat 0x110000 c.toNat := by
    intro c d hcd
    have hlt : ∀ c : Char, c.toNat < 0x110000 := by
      intro c
      have hvalid : c.toNat.isValidChar := c.valid
      rcases hvalid with h | ⟨-, h⟩ <;> omega
    have hval : c.toNat = d.toNat := by
      simpa [Fin.ext_iff, Nat.mod_eq_of_lt, hlt] using hcd
    exact Char.toNat_inj.mp hval
  exact String.toList_injective (List.map_injective_iff.mpr hchar h)

/-! ### Normal forms of members -/

section Members

variable {β γ : Type*}

/-- A key that is inserted is found, and the others stay. -/
theorem mem_insertKey_of_mem {k : Str} {v : β} {members : List (Str × β)} {m : Str × β}
    (hm : m ∈ members) (hne : m.1 ≠ k) : m ∈ insertKey k v members := by
  induction members with
  | nil => cases hm
  | cons m' members ih =>
    obtain ⟨k', v'⟩ := m'
    rw [insertKey]
    split_ifs with hlt heq
    · exact List.mem_cons_of_mem _ hm
    · rcases List.mem_cons.mp hm with rfl | hm
      · exact absurd heq.symm hne
      · exact List.mem_cons_of_mem _ hm
    · rcases List.mem_cons.mp hm with rfl | hm
      · exact List.mem_cons_self
      · exact List.mem_cons_of_mem _ (ih hm)

theorem mem_insertKey_self (k : Str) (v : β) (members : List (Str × β)) :
    (k, v) ∈ insertKey k v members := by
  induction members with
  | nil => simp [insertKey]
  | cons m' members ih =>
    obtain ⟨k', v'⟩ := m'
    rw [insertKey]
    split_ifs <;> simp [ih]

/-- Members of distinct keys all survive sorting. -/
theorem mem_sortKeys_of_mem {members : List (Str × β)} (hnodup : (members.map Prod.fst).Nodup)
    {m : Str × β} (hm : m ∈ members) : m ∈ sortKeys members := by
  have key : ∀ sorted : List (Str × β), (∀ m ∈ sorted, m.1 ∉ members.map Prod.fst) →
      m ∈ members ∨ m ∈ sorted →
      m ∈ members.foldl (fun sorted m => insertKey m.1 m.2 sorted) sorted := by
    clear hm
    induction members with
    | nil => simp
    | cons m' members ih =>
      intro sorted hdisjoint hm
      obtain ⟨hhead, htail⟩ := List.nodup_cons.mp hnodup
      refine ih htail _ ?_ ?_
      · intro x hx
        rcases mem_insertKey hx with rfl | hx
        · exact hhead
        · exact fun h => hdisjoint x hx (List.mem_cons_of_mem _ h)
      · rcases hm with hm | hm
        · rcases List.mem_cons.mp hm with rfl | hm
          · exact .inr (mem_insertKey_self _ _ _)
          · exact .inl hm
        · refine .inr (mem_insertKey_of_mem hm fun h => hdisjoint m hm ?_)
          simp [h]
  exact key [] (by simp) (.inl hm)

/-- Sorting members of distinct keys changes no lookup. -/
theorem lookup_sortKeys {members : List (Str × β)} (hnodup : (members.map Prod.fst).Nodup)
    (k : Str) : (sortKeys members).lookup k = members.lookup k := by
  cases h : members.lookup k with
  | some v =>
    exact (keysSorted_sortKeys members).lookup (m := (k, v))
      (mem_sortKeys_of_mem hnodup (mem_of_lookup h))
  | none =>
    rw [List.lookup_eq_none_iff] at h ⊢
    exact fun m hm => h m (mem_sortKeys hm)

theorem lookup_mapValues (f : β → γ) (members : List (Str × β)) (k : Str) :
    (mapValues f members).lookup k = (members.lookup k).map f := by
  induction members with
  | nil => rfl
  | cons m members ih =>
    have hcons : mapValues f (m :: members) = (m.1, f m.2) :: mapValues f members := rfl
    rw [hcons, List.lookup_cons, List.lookup_cons]
    cases k == m.1
    · exact ih
    · rfl

end Members

/-- A member whose key is a literal. -/
theorem scalarMembers_cons (key : String) (v : Json) (members : List (Str × Json)) :
    scalarMembers ((text key, v) :: members) = true ↔
      v.scalar = true ∧ scalarMembers members = true := by
  rw [scalarMembers, Bool.and_eq_true, Bool.and_eq_true, and_assoc]
  refine and_iff_right (List.all_eq_true.mpr fun c hc => ?_)
  exact decide_eq_true (isScalar_of_mem_text hc)

theorem scalarMembers_singleton (key : String) {v : Json} (h : v.scalar = true) :
    scalarMembers [(text key, v)] = true := (scalarMembers_cons key v []).mpr ⟨h, rfl⟩

/-- What is read of a list is read of its items. -/
theorem mem_of_mapM {α β : Type} {f : α → Option β} {items : List α} {bs : List β} {b : β}
    (h : items.mapM f = some bs) (hb : b ∈ bs) : ∃ a ∈ items, f a = some b := by
  induction items generalizing bs with
  | nil =>
    obtain rfl : [] = bs := Option.some.inj h
    cases hb
  | cons a items ih =>
    rw [List.mapM_cons] at h
    obtain ⟨c, hc, h⟩ := Option.bind_eq_some_iff.mp h
    obtain ⟨cs, hcs, h⟩ := Option.bind_eq_some_iff.mp h
    obtain rfl : c :: cs = bs := Option.some.inj h
    rcases List.mem_cons.mp hb with rfl | hb
    · exact ⟨a, List.mem_cons_self, hc⟩
    · obtain ⟨a', ha', hf⟩ := ih hcs hb
      exact ⟨a', List.mem_cons_of_mem _ ha', hf⟩

/-- What a check lets through. -/
theorem eq_of_dite_some {α : Type*} {P : Prop} [Decidable P] {f : P → α} {a : α}
    (h : (if hP : P then some (f hP) else none) = some a) : ∃ hP, f hP = a := by
  obtain ⟨hP, h⟩ := Option.dite_none_right_eq_some.mp h
  exact ⟨hP, Option.some.inj h⟩

/-! ### Base forms -/

namespace Form

variable {α β : Type}

/-- Strings, by their spelling. -/
def spelled (spelling : α → Str) (read : Str → Option α)
    (hscalar : ∀ s a, (∀ c ∈ s, IsScalar c) → read s = some a → ∀ c ∈ spelling a, IsScalar c)
    (hread : ∀ a, read (spelling a) = some a) : Form α where
  encode a := .str (spelling a)
  decode
    | .str s => read s
    | _ => none
  decode_encode a := hread a
  scalar_decode v a hv h := by
    cases v with
    | str s => simpa [Json.scalar] using hscalar s a (by simpa [Json.scalar] using hv) h
    | null | bool | int | float | arr | obj => cases h

/-- Strict integers. -/
def int : Form ℤ where
  encode := .int
  decode
    | .int n => some n
    | _ => none
  decode_encode _ := rfl
  scalar_decode _ _ _ _ := rfl

/-- Strict booleans. -/
def bool : Form Bool where
  encode := .bool
  decode
    | .bool b => some b
    | _ => none
  decode_encode _ := rfl
  scalar_decode _ _ _ _ := rfl

/-- A form whose values are checked, and built from what the check is given. -/
def refine (form : Form α) (make : α → Option β) (data : β → α)
    (hmake : ∀ b, make (data b) = some b) (hdata : ∀ a b, make a = some b → data b = a) :
    Form β where
  encode b := form.encode (data b)
  decode v := (form.decode v).bind make
  decode_encode b := by rw [form.decode_encode, Option.bind_some, hmake]
  scalar_decode v b hv h := by
    obtain ⟨a, ha, hb⟩ := Option.bind_eq_some_iff.mp h
    rw [hdata a b hb]
    exact form.scalar_decode v a hv ha

/-- The values that have a property. -/
def checked (form : Form α) (P : α → Prop) [DecidablePred P] : Form {a : α // P a} :=
  form.refine (fun a => if h : P a then some ⟨a, h⟩ else none) Subtype.val (fun a => dif_pos a.2)
    (fun a b h => by
      obtain ⟨hP, rfl⟩ := eq_of_dite_some h
      rfl)

/-- Nonnegative integers. -/
def nat : Form ℕ :=
  int.refine (fun n => if 0 ≤ n then some n.toNat else none) (fun n => n) (by simp)
    (fun n m h => by
      obtain ⟨hn, rfl⟩ := eq_of_dite_some h
      exact Int.toNat_of_nonneg hn)

/-- Positive integers. -/
def pos : Form ℕ+ :=
  int.refine (fun n => if h : 0 < n then some ⟨n.toNat, by omega⟩ else none) (fun n => n)
    (fun n => by
      rw [dif_pos (by exact_mod_cast n.pos)]
      rfl)
    (fun n m h => by
      obtain ⟨hn, rfl⟩ := eq_of_dite_some h
      exact Int.toNat_of_nonneg hn.le)

/-- An enumeration by the spellings of its values. -/
def enum (values : List α) (spelling : α → String) (hall : ∀ a, a ∈ values)
    (hspelling : (values.map spelling).Nodup := by decide) : Form α :=
  spelled (fun a => text (spelling a)) (fun s => values.find? fun a => text (spelling a) = s)
    (fun _ _ _ _ _ h => isScalar_of_mem_text h) <| by
    intro a
    obtain ⟨b, hb⟩ :
        ∃ b, (values.find? fun b => text (spelling b) = text (spelling a)) = some b := by
      rw [← Option.isSome_iff_exists, List.find?_isSome]
      exact ⟨a, hall a, by simp⟩
    have hkey : text (spelling b) = text (spelling a) := by simpa using List.find?_some hb
    rw [hb, List.inj_on_of_nodup_map hspelling (hall b) (hall a) (text_injective hkey)]

/-- `null`, or a value of a form that writes no `null`. -/
def nullable (form : Form α) (hnull : ∀ a, form.encode a ≠ .null) : Form (Option α) where
  encode a := a.elim .null form.encode
  decode
    | .null => some none
    | v => (form.decode v).map some
  decode_encode a := by
    cases a with
    | none => rfl
    | some a =>
      have hne : (form.encode a).normalize ≠ .null := by
        intro h
        refine hnull a ?_
        cases hencode : form.encode a <;> rw [hencode] at h <;> simp_all [normalize]
      rw [Option.elim_some]
      split
      · next h => exact absurd h hne
      · rw [form.decode_encode, Option.map_some]
  scalar_decode v a hv h := by
    cases a with
    | none => rfl
    | some a =>
      refine form.scalar_decode v a hv ?_
      split at h
      · cases h
      · obtain ⟨a', ha', heq⟩ := Option.map_eq_some_iff.mp h
        rwa [Option.some.inj heq] at ha'

/-- Lists, as arrays. -/
def list (form : Form α) : Form (List α) where
  encode as := .arr (as.map form.encode)
  decode
    | .arr items => items.mapM form.decode
    | _ => none
  decode_encode as := by
    rw [normalize, normalizeItems_eq, List.map_map]
    induction as with
    | nil => rfl
    | cons a as ih =>
      have hmap : (a :: as).map (normalize ∘ form.encode) =
          (form.encode a).normalize :: as.map (normalize ∘ form.encode) := rfl
      simp only [hmap, List.mapM_cons, form.decode_encode, ih]
      rfl
  scalar_decode v as hv h := by
    cases v with
    | arr items =>
      rw [Json.scalar, scalarItems_iff] at hv ⊢
      refine List.forall_mem_map.mpr fun a ha => ?_
      obtain ⟨item, hitem, hdecode⟩ := mem_of_mapM h ha
      exact form.scalar_decode item a (hv item hitem) hdecode
    | null | bool | int | float | str | obj => cases h

end Form

/-! ### Fields -/

/-- Fields of an object under `keys`, and what is read of them from any members that have them. -/
structure Fields (keys : List String) (α : Type) where
  encode : α → List (Str × Json)
  decode : List (Str × Json) → Option α
  keys_encode : ∀ a, ∀ m ∈ encode a, m.1 ∈ keys.map text
  nodup_encode : ∀ a, ((encode a).map Prod.fst).Nodup
  decode_encode : ∀ a members,
    (∀ k ∈ keys, members.lookup (text k) = ((encode a).lookup (text k)).map normalize) →
      decode members = some a
  scalar_decode : ∀ members a, scalarMembers members = true → decode members = some a →
    scalarMembers (encode a) = true

namespace Fields

variable {keys keys' : List String} {α β : Type}

theorem lookup_eq_none (fields : Fields keys α) (a : α) {k : String} (h : k ∉ keys) :
    (fields.encode a).lookup (text k) = none := by
  rw [List.lookup_eq_none_iff]
  intro m hm
  rw [bne_iff_ne]
  intro hkey
  obtain ⟨k', hk', hk⟩ := List.mem_map.mp (fields.keys_encode a m hm)
  exact h (text_injective (hkey.trans hk.symm) ▸ hk')

/-- No field. -/
def empty : Fields [] Unit where
  encode _ := []
  decode _ := some ()
  keys_encode _ := by simp
  nodup_encode _ := by simp
  decode_encode _ _ _ := rfl
  scalar_decode _ _ _ _ := rfl

/-- What is found of members without surrogates has none. -/
theorem scalar_of_lookup {members : List (Str × Json)} {k : Str} {v : Json}
    (hmembers : scalarMembers members = true) (h : members.lookup k = some v) : v.scalar = true :=
  (scalarMembers_iff.mp hmembers (k, v) (mem_of_lookup h)).2

/-- A field, with its value where it is missing. -/
def fieldOr (key : String) (missing : Option α) (form : Form α)
    (hmissing : ∀ a, missing = some a → (form.encode a).scalar = true) : Fields [key] α where
  encode a := [(text key, form.encode a)]
  decode members := (members.lookup (text key)).elim missing form.decode
  keys_encode a := by simp
  nodup_encode a := by simp
  decode_encode a members h := by
    rw [h key (by simp), List.lookup_cons, beq_self_eq_true]
    exact form.decode_encode a
  scalar_decode members a hmembers h := by
    refine scalarMembers_singleton key ?_
    cases hlookup : members.lookup (text key) with
    | none =>
      rw [hlookup] at h
      exact hmissing a h
    | some v =>
      rw [hlookup] at h
      exact form.scalar_decode v a (scalar_of_lookup hmembers hlookup) h

/-- A field that must be there. -/
def field (key : String) (form : Form α) : Fields [key] α := fieldOr key none form nofun

/-- A field with a default. -/
def withDefault (key : String) (dflt : α) (form : Form α)
    (hdflt : (form.encode dflt).scalar = true := by rfl) : Fields [key] α :=
  fieldOr key (some dflt) form fun _ h => Option.some.inj h ▸ hdflt

/-- A field that is left out where there is no value. -/
def omitted (key : String) (form : Form α) (hnull : ∀ a, form.encode a ≠ .null) :
    Fields [key] (Option α) where
  encode a := a.elim [] fun a => [(text key, form.encode a)]
  decode members := (members.lookup (text key)).elim (some none) (form.nullable hnull).decode
  keys_encode a := by cases a <;> simp
  nodup_encode a := by cases a <;> simp
  decode_encode a members h := by
    rw [h key (by simp)]
    cases a with
    | none => rfl
    | some a =>
      rw [Option.elim_some, List.lookup_cons, beq_self_eq_true]
      exact (form.nullable hnull).decode_encode (some a)
  scalar_decode members a hmembers h := by
    cases a with
    | none => rfl
    | some a =>
      refine scalarMembers_singleton key ?_
      cases hlookup : members.lookup (text key) with
      | none =>
        rw [hlookup] at h
        cases h
      | some v =>
        rw [hlookup] at h
        exact (form.nullable hnull).scalar_decode v _ (scalar_of_lookup hmembers hlookup) h

/-- The fields of both. -/
def and (f : Fields keys α) (g : Fields keys' β)
    (hdisjoint : ∀ k ∈ keys, k ∉ keys' := by decide) : Fields (keys ++ keys') (α × β) where
  encode a := f.encode a.1 ++ g.encode a.2
  decode members := do return (← f.decode members, ← g.decode members)
  keys_encode a m hm := by
    rw [List.map_append]
    rcases List.mem_append.mp hm with h | h
    · exact List.mem_append_left _ (f.keys_encode a.1 m h)
    · exact List.mem_append_right _ (g.keys_encode a.2 m h)
  nodup_encode a := by
    rw [List.map_append]
    refine (f.nodup_encode a.1).append (g.nodup_encode a.2) ?_
    intro k hf hg
    obtain ⟨m, hm, rfl⟩ := List.mem_map.mp hf
    obtain ⟨k, hk, hkey⟩ := List.mem_map.mp (f.keys_encode a.1 m hm)
    obtain ⟨m', hm', heq⟩ := List.mem_map.mp hg
    have hnone := List.lookup_eq_none_iff.mp (g.lookup_eq_none a.2 (hdisjoint k hk)) m' hm'
    exact bne_iff_ne.mp hnone (hkey.trans heq.symm)
  decode_encode a members h := by
    have hf : f.decode members = some a.1 := by
      refine f.decode_encode a.1 members fun k hk => ?_
      rw [h k (List.mem_append_left _ hk), List.lookup_append,
        g.lookup_eq_none a.2 (hdisjoint k hk), Option.or_none]
    have hg : g.decode members = some a.2 := by
      refine g.decode_encode a.2 members fun k hk => ?_
      rw [h k (List.mem_append_right _ hk), List.lookup_append,
        f.lookup_eq_none a.1 fun hkf => hdisjoint k hkf hk, Option.none_or]
    rw [hf, hg]
    rfl
  scalar_decode members a hmembers h := by
    obtain ⟨x, hx, h⟩ := Option.bind_eq_some_iff.mp h
    obtain ⟨y, hy, h⟩ := Option.bind_eq_some_iff.mp h
    obtain rfl : (x, y) = a := Option.some.inj h
    rw [scalarMembers_iff]
    intro m hm
    rcases List.mem_append.mp hm with h | h
    · exact scalarMembers_iff.mp (f.scalar_decode members x hmembers hx) m h
    · exact scalarMembers_iff.mp (g.scalar_decode members y hmembers hy) m h

end Fields

/-! ### Objects -/

/-- The members of a written object are found in its normal form. -/
theorem lookup_normalize {members : List (Str × Json)} (hnodup : (members.map Prod.fst).Nodup)
    (k : Str) :
    (mapValues normalize (sortKeys members)).lookup k = (members.lookup k).map normalize := by
  rw [lookup_mapValues, lookup_sortKeys hnodup]

/-- No key beside these. -/
def onlyKeys (keys : List String) (members : List (Str × Json)) : Bool :=
  members.all fun m => m.1 ∈ keys.map text

theorem onlyKeys_normalize {keys : List String} {members : List (Str × Json)}
    (h : ∀ m ∈ members, m.1 ∈ keys.map text) :
    onlyKeys keys (mapValues normalize (sortKeys members)) = true := by
  rw [onlyKeys, List.all_eq_true]
  intro m hm
  obtain ⟨m', hm', rfl⟩ := List.mem_map.mp hm
  exact decide_eq_true (h m' (mem_sortKeys hm'))

/-- An object with these fields and no other. -/
def Form.object {keys : List String} {α : Type} (fields : Fields keys α) : Form α where
  encode a := .obj (fields.encode a)
  decode
    | .obj members => if onlyKeys keys members then fields.decode members else none
    | _ => none
  decode_encode a := by
    rw [normalize_obj]
    refine (if_pos (onlyKeys_normalize (fields.keys_encode a))).trans ?_
    exact fields.decode_encode a _ fun k _ => lookup_normalize (fields.nodup_encode a) (text k)
  scalar_decode v a hv h := by
    cases v with
    | obj members =>
      obtain ⟨-, h⟩ := Option.ite_none_right_eq_some.mp h
      exact fields.scalar_decode members a hv h
    | null | bool | int | float | str | arr => cases h

/-! ### Unions -/

/-- Objects told apart by the string under `key`. -/
structure Variants (key : String) (tags : List String) (α : Type) where
  tag : α → String
  encode : α → List (Str × Json)
  decode : Str → List (Str × Json) → Option α
  tag_mem : ∀ a, tag a ∈ tags
  lookup_key : ∀ a, (encode a).lookup (text key) = some (.str (text (tag a)))
  nodup_encode : ∀ a, ((encode a).map Prod.fst).Nodup
  decode_encode : ∀ a,
    decode (text (tag a)) (mapValues normalize (sortKeys (encode a))) = some a
  scalar_decode : ∀ t members a, scalarMembers members = true → decode t members = some a →
    scalarMembers (encode a) = true

namespace Variants

variable {key : String} {tags tags' keys : List String} {α β : Type}

theorem nodup_cons_key {tag : Str} {fields : Fields keys α} (hfields : key ∉ keys) (a : α) :
    (((text key, Json.str tag) :: fields.encode a).map Prod.fst).Nodup := by
  rw [List.map_cons, List.nodup_cons]
  refine ⟨fun h => ?_, fields.nodup_encode a⟩
  obtain ⟨m, hm, hkey⟩ := List.mem_map.mp h
  have hnone := List.lookup_eq_none_iff.mp (fields.lookup_eq_none a hfields) m hm
  exact bne_iff_ne.mp hnone hkey.symm

/-- Objects with one tag and these fields. -/
def one (tag : String) (fields : Fields keys α) (hfields : key ∉ keys := by decide) :
    Variants key [tag] α where
  tag _ := tag
  encode a := (text key, .str (text tag)) :: fields.encode a
  decode _ members := if onlyKeys (key :: keys) members then fields.decode members else none
  tag_mem _ := by simp
  lookup_key a := by simp
  nodup_encode a := nodup_cons_key hfields a
  decode_encode a := by
    have hnodup : (((text key, Json.str (text tag)) :: fields.encode a).map Prod.fst).Nodup :=
      nodup_cons_key hfields a
    rw [if_pos]
    · refine fields.decode_encode a _ fun k hk => ?_
      have hne : (text k == text key) = false := by
        rw [beq_eq_false_iff_ne]
        exact fun h => hfields (text_injective h ▸ hk)
      rw [lookup_normalize hnodup, List.lookup_cons, hne]
    · refine onlyKeys_normalize fun m hm => ?_
      rcases List.mem_cons.mp hm with rfl | hm
      · exact List.mem_cons_self
      · exact List.mem_cons_of_mem _ (fields.keys_encode a m hm)
  scalar_decode t members a hmembers h := by
    obtain ⟨-, h⟩ := Option.ite_none_right_eq_some.mp h
    rw [scalarMembers_iff]
    intro m hm
    rcases List.mem_cons.mp hm with rfl | hm
    · exact ⟨fun _ => isScalar_of_mem_text, by
        simpa [Json.scalar] using fun c (h : c ∈ text tag) => isScalar_of_mem_text h⟩
    · exact scalarMembers_iff.mp (fields.scalar_decode members a hmembers h) m hm

/-- Either of two groups of tags. -/
def or (u : Variants key tags α) (v : Variants key tags' β)
    (hdisjoint : ∀ t ∈ tags, t ∉ tags' := by decide) : Variants key (tags ++ tags') (α ⊕ β) where
  tag := Sum.elim u.tag v.tag
  encode := Sum.elim u.encode v.encode
  decode t members :=
    if t ∈ tags.map text then (u.decode t members).map .inl else (v.decode t members).map .inr
  tag_mem a := by
    cases a with
    | inl a => exact List.mem_append_left _ (u.tag_mem a)
    | inr b => exact List.mem_append_right _ (v.tag_mem b)
  lookup_key a := by
    cases a with
    | inl a => exact u.lookup_key a
    | inr b => exact v.lookup_key b
  nodup_encode a := by
    cases a with
    | inl a => exact u.nodup_encode a
    | inr b => exact v.nodup_encode b
  decode_encode a := by
    cases a with
    | inl a =>
      have hmem : text (u.tag a) ∈ tags.map text := List.mem_map_of_mem (u.tag_mem a)
      rw [Sum.elim_inl, Sum.elim_inl, if_pos hmem, u.decode_encode, Option.map_some]
    | inr b =>
      have hmem : text (v.tag b) ∉ tags.map text := by
        rw [List.mem_map_of_injective text_injective]
        exact fun h => hdisjoint _ h (v.tag_mem b)
      rw [Sum.elim_inr, Sum.elim_inr, if_neg hmem, v.decode_encode, Option.map_some]
  scalar_decode t members a hmembers h := by
    split_ifs at h
    · obtain ⟨x, hx, rfl⟩ := Option.map_eq_some_iff.mp h
      exact u.scalar_decode t members x hmembers hx
    · obtain ⟨y, hy, rfl⟩ := Option.map_eq_some_iff.mp h
      exact v.scalar_decode t members y hmembers hy

/-- The form of a union: an unknown tag, or none, is an error. -/
def form (u : Variants key tags α) : Form α where
  encode a := .obj (u.encode a)
  decode
    | .obj members =>
      match members.lookup (text key) with
      | some (.str t) => if t ∈ tags.map text then u.decode t members else none
      | _ => none
    | _ => none
  decode_encode a := by
    have hlookup := lookup_normalize (u.nodup_encode a) (text key)
    rw [u.lookup_key a] at hlookup
    have hmem : text (u.tag a) ∈ tags.map text := List.mem_map_of_mem (u.tag_mem a)
    rw [normalize_obj]
    simp only [hlookup, Option.map_some, normalize, if_pos hmem]
    exact u.decode_encode a
  scalar_decode v a hv h := by
    cases v with
    | obj members =>
      simp only at h
      split at h
      · obtain ⟨-, h⟩ := Option.ite_none_right_eq_some.mp h
        exact u.scalar_decode _ members a hv h
      · cases h
    | null | bool | int | float | str | arr => cases h

end Variants

end DrExec.Lib.Json
