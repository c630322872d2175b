import Mathlib.Data.List.Perm.Basic
import Mathlib.Data.List.DropRight
import Mathlib.Tactic

/-! # Lists that are updated in place

A table of threads is a list whose entries are overwritten. What a projection `f` reads off the
table changes by the entry overwritten: `filterMap_set_perm`. Taking the oldest entry of a queue
that satisfies a predicate leaves the others in their order: `takeFirst_split`. The other sections
count keys in an association list and in a list split by a predicate, and slide a window of the last
entries along a list. -/

namespace DrExec.Lib.Lists

variable {α β : Type*}

/-- What `f` reads off a list after one entry is overwritten: the old entry's value goes, the new
entry's comes. -/
theorem filterMap_set_perm (f : α → Option β) : ∀ (l : List α) (i : ℕ) (x y : α), l[i]? = some y →
    ((f y).toList ++ (l.set i x).filterMap f).Perm ((f x).toList ++ l.filterMap f)
  | [], i, x, y, h => by simp at h
  | a :: l, 0, x, y, h => by
    simp only [List.getElem?_cons_zero, Option.some.injEq] at h
    subst h
    cases hx : f x <;> cases ha : f a <;> simp [hx, ha, List.Perm.swap]
  | a :: l, i + 1, x, y, h => by
    have ih := filterMap_set_perm f l i x y (by simpa using h)
    cases ha : f a with
    | none => simpa [ha] using ih
    | some b =>
      simp only [List.set_cons_succ, List.filterMap_cons, ha]
      exact List.perm_middle.trans ((ih.cons b).trans List.perm_middle.symm)

/-- A sum over a list in which one entry changed. -/
theorem sum_map_set (f : α → ℕ) : ∀ (l : List α) (i : ℕ) (x y : α), l[i]? = some y →
    ((l.set i x).map f).sum + f y = (l.map f).sum + f x
  | [], i, x, y, h => by simp at h
  | a :: l, 0, x, y, h => by
    obtain rfl : a = y := by simpa using h
    simp only [List.set_cons_zero, List.map_cons, List.sum_cons]
    omega
  | a :: l, i + 1, x, y, h => by
    have ih := sum_map_set f l i x y (by simpa using h)
    simp only [List.set_cons_succ, List.map_cons, List.sum_cons]
    omega

/-- An entry other than the one replaced is still there. -/
theorem mem_set_of_ne {l : List α} {i : ℕ} {x y z : α} (hi : l[i]? = some y) (hx : x ∈ l)
    (hne : x ≠ y) : x ∈ l.set i z := by
  obtain ⟨j, hj⟩ := List.mem_iff_getElem?.mp hx
  refine List.mem_iff_getElem?.mpr ⟨j, ?_⟩
  rw [List.getElem?_set_ne]
  · exact hj
  · rintro rfl
    exact hne (Option.some.inj (hj.symm.trans hi))

theorem mem_set_new {l : List α} {i : ℕ} {y : α} (hi : l[i]? = some y) (z : α) : z ∈ l.set i z :=
  List.mem_set (List.getElem?_eq_some_iff.mp hi).1 z

/-- Two entries that `f` sends to one value are the same entry, when the values are distinct. -/
theorem eq_of_nodup_filterMap {f : α → Option β} : ∀ {l : List α} {a b : α} {c : β},
    (l.filterMap f).Nodup → a ∈ l → b ∈ l → f a = some c → f b = some c → a = b
  | x :: l, a, b, c, hn, ha, hb, hfa, hfb => by
    have hrest : (l.filterMap f).Nodup :=
      hn.sublist (List.Sublist.filterMap f (List.sublist_cons_self x l))
    have hfirst : ∀ y ∈ l, f y = some c → f x ≠ some c := by
      intro y hy hfy hfx
      rw [List.filterMap_cons_some hfx, List.nodup_cons] at hn
      exact hn.1 (List.mem_filterMap.mpr ⟨y, hy, hfy⟩)
    rcases List.mem_cons.mp ha with hax | hal
    · rcases List.mem_cons.mp hb with hbx | hbl
      · rw [hax, hbx]
      · rw [hax] at hfa; exact absurd hfa (hfirst b hbl hfb)
    · rcases List.mem_cons.mp hb with hbx | hbl
      · rw [hbx] at hfb; exact absurd hfb (hfirst a hal hfa)
      · exact eq_of_nodup_filterMap hrest hal hbl hfa hfb

/-- The first entry that satisfies `p`, and the list without it. -/
def takeFirst (p : α → Bool) : List α → Option (α × List α)
  | [] => none
  | a :: l => if p a then some (a, l) else (takeFirst p l).map fun (b, rest) => (b, a :: rest)

/-- **Where the entry was**: nothing before it satisfies `p`, and the rest keeps its order. -/
theorem takeFirst_split {p : α → Bool} : ∀ {l rest : List α} {b : α}, takeFirst p l = some (b, rest) →
    ∃ l₁ l₂, l = l₁ ++ b :: l₂ ∧ rest = l₁ ++ l₂ ∧ p b = true ∧ ∀ a ∈ l₁, p a = false
  | [], _, _, h => by simp [takeFirst] at h
  | a :: l, rest, b, h => by
    unfold takeFirst at h
    split_ifs at h with ha
    · cases h; exact ⟨[], l, rfl, rfl, ha, by simp⟩
    · obtain ⟨⟨b', rest'⟩, hr, he⟩ := Option.map_eq_some_iff.mp h
      cases he
      obtain ⟨l₁, l₂, rfl, rfl, hb, hl⟩ := takeFirst_split hr
      refine ⟨a :: l₁, l₂, rfl, rfl, hb, ?_⟩
      intro x hx
      rcases List.mem_cons.mp hx with rfl | hx
      · simpa using ha
      · exact hl x hx

theorem takeFirst_eq_none {p : α → Bool} : ∀ {l : List α}, takeFirst p l = none ↔ ∀ a ∈ l, p a = false
  | [] => by simp [takeFirst]
  | a :: l => by
    unfold takeFirst
    split_ifs with ha
    · simp [ha]
    · simp [takeFirst_eq_none (l := l), ha]

/-! ### Counting keys -/

theorem count_fst_filter_ne (l : List (ℕ × β)) (k t : ℕ) :
    ((l.filter fun entry => entry.1 ≠ k).map Prod.fst).count t =
      if t = k then 0 else (l.map Prod.fst).count t := by
  induction l with
  | nil => simp
  | cons entry l ih =>
    by_cases h : entry.1 = k
    · rw [List.filter_cons_of_neg (by simpa using h), ih, List.map_cons, List.count_cons, h]
      split_ifs <;> simp_all
    · rw [List.filter_cons_of_pos (by simpa using h), List.map_cons, List.count_cons, ih,
        List.map_cons, List.count_cons]
      split_ifs <;> simp_all

theorem count_fst_filter_notMem (l : List (ℕ × β)) (ks : List ℕ) (t : ℕ) :
    ((l.filter fun entry => entry.1 ∉ ks).map Prod.fst).count t =
      if t ∈ ks then 0 else (l.map Prod.fst).count t := by
  induction l with
  | nil => simp
  | cons entry l ih =>
    by_cases h : entry.1 ∈ ks
    · rw [List.filter_cons_of_neg (by simpa using h), ih, List.map_cons, List.count_cons]
      split_ifs <;> simp_all
    · rw [List.filter_cons_of_pos (by simpa using h), List.map_cons, List.count_cons, ih,
        List.map_cons, List.count_cons]
      split_ifs <;> simp_all

/-- A list is counted part by part when it is split by a predicate. -/
theorem count_map_filter_add (p : α → Bool) (f : α → ℕ) (l : List α) (t : ℕ) :
    ((l.filter p).map f).count t + ((l.filter fun a => !p a).map f).count t =
      (l.map f).count t := by
  induction l with
  | nil => simp
  | cons a l ih =>
    cases h : p a <;> simp [h, List.count_cons] <;> omega

/-! ### A sliding window -/

theorem length_rtake (l : List α) (n : ℕ) : (l.rtake n).length = min n l.length := by
  rw [List.rtake, List.length_drop]
  omega

/-- A window is all of a list that fits into it. -/
theorem rtake_of_length_le {l : List α} {n : ℕ} (h : l.length ≤ n) : l.rtake n = l := by
  rw [List.rtake, Nat.sub_eq_zero_of_le h, List.drop_zero]

/-- The window sees no entry again that it has left behind. -/
theorem rtake_append_rtake (l m : List α) (n : ℕ) :
    (l.rtake n ++ m).rtake n = (l ++ m).rtake n := by
  have hsplit : l = l.take (l.length - n) ++ l.rtake n := (List.take_append_drop _ l).symm
  have hlength := length_rtake l n
  generalize l.rtake n = kept at hsplit hlength ⊢
  generalize l.take (l.length - n) = left at hsplit
  subst hsplit
  have hoffset : (left ++ kept ++ m).length - n = left.length + ((kept ++ m).length - n) := by
    simp only [List.length_append] at hlength ⊢
    omega
  rw [List.rtake, List.rtake, hoffset, List.append_assoc, List.drop_length_add_append]

end DrExec.Lib.Lists
