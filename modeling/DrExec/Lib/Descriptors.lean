import Mathlib.Data.Finset.Card
import Mathlib.Data.Finset.Range
import Mathlib.Logic.Function.Basic
import Mathlib.Tactic.Common

/-! # Descriptor tables

The descriptors of a process: below a limit, each number is free or refers to an open file and is
inherited by the next program or not. `dup` takes the lowest free number, `dup2` a given one. The
rules say what a call returns and what it leaves alone: a copy never lands on an open number
(`dup_eq_ok`), every call changes one number only, and `free` counts the numbers that a set of them
still has to give (`free_set_of_mem`). -/

namespace DrExec.Lib

/-- An open descriptor. -/
structure Descriptor (α : Type*) where
  file : α
  inheritable : Bool
  deriving DecidableEq, Repr

/-- The descriptors of a process: what each number refers to, and the limit for new ones. -/
structure DescriptorTable (α : Type*) where
  limit : ℕ
  entry : ℕ → Option (Descriptor α)

/-- The errors of the calls. -/
inductive DescriptorError
  | badDescriptor
  | tooManyOpen
  deriving DecidableEq, Repr

namespace DescriptorTable

variable {α : Type*} (t : DescriptorTable α)

/-- The table with one number changed. -/
def set (n : ℕ) (d : Option (Descriptor α)) : DescriptorTable α :=
  { t with entry := Function.update t.entry n d }

/-- The lowest free number below the limit. -/
def lowest : Option ℕ := (List.range t.limit).find? fun n => (t.entry n).isNone

/-- A copy at the lowest free number, not inheritable. -/
def dup (n : ℕ) : Except DescriptorError (ℕ × DescriptorTable α) :=
  match t.entry n with
  | none => .error .badDescriptor
  | some d =>
    match t.lowest with
    | none => .error .tooManyOpen
    | some m => .ok (m, t.set m (some ⟨d.file, false⟩))

/-- An inheritable copy at the number `m`, closing what was there; nothing if `m` is the number
itself. -/
def dup2 (n m : ℕ) : Except DescriptorError (DescriptorTable α) :=
  match t.entry n with
  | none => .error .badDescriptor
  | some d =>
    if m = n then .ok t
    else if m < t.limit then .ok (t.set m (some ⟨d.file, true⟩))
    else .error .badDescriptor

def close (n : ℕ) : Except DescriptorError (DescriptorTable α) :=
  match t.entry n with
  | none => .error .badDescriptor
  | some _ => .ok (t.set n none)

def setInheritable (n : ℕ) (inheritable : Bool) : Except DescriptorError (DescriptorTable α) :=
  match t.entry n with
  | none => .error .badDescriptor
  | some d => .ok (t.set n (some ⟨d.file, inheritable⟩))

/-- How many numbers of `s` are free. -/
def free (s : Finset ℕ) : ℕ := (s.filter fun n => (t.entry n).isNone).card

/-! ### One number -/

@[simp] theorem limit_set (n : ℕ) (d : Option (Descriptor α)) : (t.set n d).limit = t.limit := rfl

@[simp] theorem entry_set_self (n : ℕ) (d : Option (Descriptor α)) : (t.set n d).entry n = d := by
  unfold set
  exact Function.update_self ..

theorem entry_set_of_ne {k n : ℕ} (h : k ≠ n) (d : Option (Descriptor α)) :
    (t.set n d).entry k = t.entry k := by
  unfold set
  exact Function.update_of_ne h ..

theorem free_set_of_notMem {s : Finset ℕ} {n : ℕ} (h : n ∉ s) (d : Option (Descriptor α)) :
    (t.set n d).free s = t.free s := by
  unfold free
  congr 1
  refine Finset.filter_congr fun k hk => ?_
  have hne : k ≠ n := fun he => h (he ▸ hk)
  rw [t.entry_set_of_ne hne]

theorem free_set_of_mem {s : Finset ℕ} {n : ℕ} (h : n ∈ s) (hfree : t.entry n = none)
    (d : Descriptor α) : (t.set n (some d)).free s + 1 = t.free s := by
  have hmem : n ∈ s.filter fun k => (t.entry k).isNone := by simp [h, hfree]
  have herase : (s.filter fun k => ((t.set n (some d)).entry k).isNone) =
      (s.filter fun k => (t.entry k).isNone).erase n := by
    ext k
    rw [Finset.mem_erase, Finset.mem_filter, Finset.mem_filter]
    by_cases hk : k = n
    · subst hk
      simp
    · simp [hk, t.entry_set_of_ne hk]
  unfold free
  rw [herase, Finset.card_erase_of_mem hmem]
  have := Finset.card_pos.mpr ⟨n, hmem⟩
  omega

/-! ### The calls -/

variable {t} {t' : DescriptorTable α} {n m : ℕ}

theorem lowest_eq_some (h : t.lowest = some m) :
    m < t.limit ∧ t.entry m = none ∧ ∀ k < m, t.entry k ≠ none := by
  obtain ⟨hm, i, hi, hget, hbefore⟩ := List.find?_eq_some_iff_getElem.mp h
  rw [List.getElem_range] at hget
  subst hget
  refine ⟨by simpa using hi, Option.isNone_iff_eq_none.mp hm, fun k hk hnone => ?_⟩
  have := hbefore k hk
  rw [List.getElem_range, hnone] at this
  simp at this

theorem lowest_eq_none (h : t.lowest = none) {k : ℕ} (hk : k < t.limit) : t.entry k ≠ none := by
  intro hnone
  have := List.find?_eq_none.mp h k (List.mem_range.mpr hk)
  rw [hnone] at this
  simp at this

/-- **A copy lands on a free number** and refers to the same file. -/
theorem dup_eq_ok (h : t.dup n = .ok (m, t')) : ∃ d, t.entry n = some d ∧ m < t.limit ∧
    t.entry m = none ∧ t' = t.set m (some ⟨d.file, false⟩) := by
  unfold dup at h
  split at h
  · cases h
  · rename_i d hd
    split at h
    · cases h
    · rename_i k hk
      cases h
      obtain ⟨hlt, hnone, -⟩ := lowest_eq_some hk
      exact ⟨d, hd, hlt, hnone, rfl⟩

/-- An open descriptor is copied unless every number below the limit is taken. -/
theorem dup_eq_error {d : Descriptor α} {e : DescriptorError} (hd : t.entry n = some d)
    (h : t.dup n = .error e) : e = .tooManyOpen ∧ ∀ k < t.limit, t.entry k ≠ none := by
  unfold dup at h
  rw [hd] at h
  dsimp only at h
  split at h
  · rename_i hlow
    cases h
    exact ⟨rfl, fun k hk => lowest_eq_none hlow hk⟩
  · cases h

theorem dup2_of_open {d : Descriptor α} (hd : t.entry n = some d) (hne : m ≠ n)
    (hm : m < t.limit) : t.dup2 n m = .ok (t.set m (some ⟨d.file, true⟩)) := by
  unfold dup2
  simp only [hd, hne, hm, if_true, if_false]

theorem close_of_open {d : Descriptor α} (hd : t.entry n = some d) :
    t.close n = .ok (t.set n none) := by
  unfold close
  rw [hd]

theorem setInheritable_of_open {d : Descriptor α} (hd : t.entry n = some d) (b : Bool) :
    t.setInheritable n b = .ok (t.set n (some ⟨d.file, b⟩)) := by
  unfold setInheritable
  rw [hd]

theorem free_eq_zero {s : Finset ℕ} (h : ∀ k ∈ s, t.entry k ≠ none) : t.free s = 0 := by
  unfold free
  rw [Finset.card_eq_zero, Finset.filter_eq_empty_iff]
  intro k hk hnone
  exact h k hk (Option.isNone_iff_eq_none.mp hnone)

end DescriptorTable

end DrExec.Lib
