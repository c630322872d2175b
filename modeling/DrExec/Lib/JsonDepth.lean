import DrExec.Lib.JsonForm

/-! # How deep a form nests

How deep the value of a form is nested follows from its parts: an object is one level above its
fields, a list one above its items, and a scalar is at none. `Within` says so of a value once its
keys are sorted, and its rules form a simp set. -/

namespace DrExec.Lib.Json

/-! ### Containers -/

theorem depthItems_le_iff {items : List Json} {n : ℕ} :
    depthItems items ≤ n ↔ ∀ v ∈ items, v.depth ≤ n := by
  induction items with
  | nil => simp [depthItems]
  | cons v items ih => simp [depthItems, ih]

theorem depthMembers_le_iff {members : List (Str × Json)} {n : ℕ} :
    depthMembers members ≤ n ↔ ∀ m ∈ members, m.2.depth ≤ n := by
  induction members with
  | nil => simp [depthMembers]
  | cons m members ih => simp [depthMembers, ih]

/-- An object that inserts no key twice is one level above its members. -/
theorem depth_normalize_obj {members : List (Str × Json)} (hnodup : (members.map Prod.fst).Nodup)
    {n : ℕ} :
    (obj members).normalize.depth ≤ n + 1 ↔ ∀ m ∈ members, m.2.normalize.depth ≤ n := by
  rw [normalize_obj, depth, Nat.succ_le_succ_iff, depthMembers_le_iff, mapValues,
    List.forall_mem_map]
  exact ⟨fun h m hm => h m (mem_sortKeys_of_mem hnodup hm), fun h m hm => h m (mem_sortKeys hm)⟩

theorem depth_normalize_arr {items : List Json} {n : ℕ} :
    (arr items).normalize.depth ≤ n + 1 ↔ ∀ v ∈ items, v.normalize.depth ≤ n := by
  rw [normalize, normalizeItems_eq, depth, Nat.succ_le_succ_iff, depthItems_le_iff,
    List.forall_mem_map]

theorem depth_normalize_obj_pos {members : List (Str × Json)} : 0 < (obj members).normalize.depth := by
  rw [normalize_obj, depth]
  exact Nat.succ_pos _

/-! ### Forms -/

variable {α β : Type} {keys keys' : List String}

/-- The value is written with at most `n` levels of containers. -/
def Form.Within (form : Form α) (a : α) (n : ℕ) : Prop := (form.encode a).normalize.depth ≤ n

/-- So is every field. -/
def Fields.Within (fields : Fields keys α) (a : α) (n : ℕ) : Prop :=
  ∀ m ∈ fields.encode a, m.2.normalize.depth ≤ n

/-- So is every member, the tag among them. -/
def Variants.Within {key : String} {tags : List String} (u : Variants key tags α) (a : α) (n : ℕ) :
    Prop :=
  ∀ m ∈ u.encode a, m.2.normalize.depth ≤ n

namespace Form

@[simp] theorem within_spelled {spelling : α → Str} {read : Str → Option α}
    {hscalar : ∀ s a, (∀ c ∈ s, IsScalar c) → read s = some a → ∀ c ∈ spelling a, IsScalar c}
    {hread : ∀ a, read (spelling a) = some a} {a : α} {n : ℕ} :
    (spelled spelling read hscalar hread).Within a n := n.zero_le

@[simp] theorem within_int {a : ℤ} {n : ℕ} : int.Within a n := n.zero_le

@[simp] theorem within_bool {a : Bool} {n : ℕ} : bool.Within a n := n.zero_le

@[simp] theorem within_refine {form : Form α} {make : α → Option β} {data : β → α}
    {hmake : ∀ b, make (data b) = some b} {hdata : ∀ a b, make a = some b → data b = a} {b : β}
    {n : ℕ} : (form.refine make data hmake hdata).Within b n ↔ form.Within (data b) n := Iff.rfl

@[simp] theorem within_checked {form : Form α} {P : α → Prop} [DecidablePred P] {a : {a // P a}}
    {n : ℕ} : (form.checked P).Within a n ↔ form.Within a.1 n := Iff.rfl

@[simp] theorem within_nat {a n : ℕ} : nat.Within a n := n.zero_le

@[simp] theorem within_pos {a : ℕ+} {n : ℕ} : pos.Within a n := n.zero_le

@[simp] theorem within_enum {values : List α} {spelling : α → String} {hall : ∀ a, a ∈ values}
    {hspelling : (values.map spelling).Nodup} {a : α} {n : ℕ} :
    (enum values spelling hall hspelling).Within a n := n.zero_le

@[simp] theorem within_nullable {form : Form α} {hnull : ∀ a, form.encode a ≠ .null} {a : Option α}
    {n : ℕ} : (form.nullable hnull).Within a n ↔ ∀ b ∈ a, form.Within b n := by
  cases a with
  | none => exact iff_of_true n.zero_le (by simp)
  | some a => exact ⟨fun h b hb => by cases hb; exact h, fun h => h a rfl⟩

@[simp] theorem within_list {form : Form α} {as : List α} {n : ℕ} :
    form.list.Within as (n + 1) ↔ ∀ a ∈ as, form.Within a n := by
  unfold Within list
  rw [depth_normalize_arr, List.forall_mem_map]

@[simp] theorem within_object {fields : Fields keys α} {a : α} {n : ℕ} :
    (object fields).Within a (n + 1) ↔ fields.Within a n :=
  depth_normalize_obj (fields.nodup_encode a)

@[simp] theorem not_within_object {fields : Fields keys α} {a : α} :
    ¬ (object fields).Within a 0 := not_le.mpr depth_normalize_obj_pos

end Form

namespace Fields

@[simp] theorem within_empty {n : ℕ} : empty.Within () n := nofun

@[simp] theorem within_field {key : String} {form : Form α} {a : α} {n : ℕ} :
    (field key form).Within a n ↔ form.Within a n := List.forall_mem_singleton

@[simp] theorem within_withDefault {key : String} {dflt : α} {form : Form α}
    {hdflt : (form.encode dflt).scalar = true} {a : α} {n : ℕ} :
    (withDefault key dflt form hdflt).Within a n ↔ form.Within a n := List.forall_mem_singleton

@[simp] theorem within_omitted {key : String} {form : Form α} {hnull : ∀ a, form.encode a ≠ .null}
    {a : Option α} {n : ℕ} :
    (omitted key form hnull).Within a n ↔ ∀ b ∈ a, form.Within b n := by
  cases a with
  | none => exact iff_of_true nofun (by simp)
  | some a =>
    refine List.forall_mem_singleton.trans ⟨fun h b hb => ?_, fun h => h a rfl⟩
    cases hb
    exact h

@[simp] theorem within_and {f : Fields keys α} {g : Fields keys' β}
    {hdisjoint : ∀ k ∈ keys, k ∉ keys'} {a : α × β} {n : ℕ} :
    (f.and g hdisjoint).Within a n ↔ f.Within a.1 n ∧ g.Within a.2 n := List.forall_mem_append

end Fields

namespace Variants

variable {key : String} {tags tags' : List String}

@[simp] theorem within_form {u : Variants key tags α} {a : α} {n : ℕ} :
    u.form.Within a (n + 1) ↔ u.Within a n := depth_normalize_obj (u.nodup_encode a)

@[simp] theorem not_within_form {u : Variants key tags α} {a : α} : ¬ u.form.Within a 0 :=
  not_le.mpr depth_normalize_obj_pos

@[simp] theorem within_one {tag : String} {fields : Fields keys α} {hfields : key ∉ keys} {a : α}
    {n : ℕ} : (one tag fields hfields).Within a n ↔ fields.Within a n :=
  List.forall_mem_cons.trans (and_iff_right n.zero_le)

@[simp] theorem within_or_inl {u : Variants key tags α} {v : Variants key tags' β}
    {hdisjoint : ∀ t ∈ tags, t ∉ tags'} {a : α} {n : ℕ} :
    (u.or v hdisjoint).Within (.inl a) n ↔ u.Within a n := Iff.rfl

@[simp] theorem within_or_inr {u : Variants key tags α} {v : Variants key tags' β}
    {hdisjoint : ∀ t ∈ tags, t ∉ tags'} {b : β} {n : ℕ} :
    (u.or v hdisjoint).Within (.inr b) n ↔ v.Within b n := Iff.rfl

end Variants

end DrExec.Lib.Json
