import Mathlib.Data.List.Nodup
import Mathlib.Data.List.Perm.Basic
import Mathlib.Tactic.Common

/-! # Resources in custody

Resources are opened and closed, and between the two they are held somewhere: in a variable, an
object, a thread. A trace of these events is balanced when every resource in it was opened once and
then closed once; a second `closed` would close whatever has taken the resource's name since. The
custody rules carry the list of what is held along a program: opening adds to it
(`Kept.opening`), handing over only reorders it (`Kept.perm`), closing takes away from it
(`Kept.closing`). At any moment the trace is balanced exactly when nothing is held any more
(`Kept.balanced_iff_nil`), so what is lost shows up as held for ever. -/

namespace DrExec.Lib.Custody

variable {ρ : Type*}

inductive Event (ρ : Type*)
  | opened (r : ρ)
  | closed (r : ρ)
  deriving DecidableEq, Repr

def Event.resource : Event ρ → ρ
  | .opened r => r
  | .closed r => r

variable [DecidableEq ρ]

/-- What happened to one resource. -/
def history (trace : List (Event ρ)) (r : ρ) : List (Event ρ) :=
  trace.filter fun event => event.resource = r

/-- Every resource that was opened was closed once, and nothing else was closed. -/
def Balanced (trace : List (Event ρ)) : Prop :=
  ∀ r, history trace r = [] ∨ history trace r = [.opened r, .closed r]

/-- The resources of the trace that are open are those in `held`, each in one place; the others
are balanced. -/
def Kept (trace : List (Event ρ)) (held : List ρ) : Prop :=
  ∀ r, (held.count r = 1 ∧ history trace r = [.opened r]) ∨
    (held.count r = 0 ∧ (history trace r = [] ∨ history trace r = [.opened r, .closed r]))

theorem history_append (trace trace' : List (Event ρ)) (r : ρ) :
    history (trace ++ trace') r = history trace r ++ history trace' r :=
  List.filter_append ..

theorem history_map {f : ρ → Event ρ} (hf : ∀ r, (f r).resource = r) (l : List ρ) (r : ρ) :
    history (l.map f) r = List.replicate (l.count r) (f r) := by
  induction l with
  | nil => rfl
  | cons a l ih =>
    unfold history at ih ⊢
    by_cases ha : a = r
    · subst ha
      rw [List.map_cons, List.filter_cons_of_pos (by simp [hf]), ih, List.count_cons_self,
        List.replicate_succ]
    · rw [List.map_cons, List.filter_cons_of_neg (by simp [hf, ha]), ih, List.count_cons_of_ne ha]

section Kept
variable {trace : List (Event ρ)} {held held' l : List ρ}

theorem Kept.opening (hl : l.Nodup) : Kept (l.map .opened) l := by
  intro r
  rw [history_map (fun _ => rfl)]
  by_cases hr : r ∈ l
  · rw [List.count_eq_one_of_mem hl hr]
    exact .inl ⟨rfl, rfl⟩
  · rw [List.count_eq_zero_of_not_mem hr]
    exact .inr ⟨rfl, .inl rfl⟩

theorem Kept.perm (h : Kept trace held) (hperm : held.Perm held') : Kept trace held' := by
  intro r
  rw [← hperm.count_eq r]
  exact h r

theorem Kept.closing (h : Kept trace (l ++ held)) : Kept (trace ++ l.map .closed) held := by
  intro r
  rw [history_append, history_map (fun _ => rfl)]
  rcases h r with ⟨hcount, hhistory⟩ | ⟨hcount, hhistory⟩
  · rw [List.count_append] at hcount
    rw [hhistory]
    -- the one holder is among those closed or among the others
    rcases Nat.eq_zero_or_pos (l.count r) with hl | hl
    · rw [hl]
      exact .inl ⟨by omega, rfl⟩
    · obtain ⟨hl, hheld⟩ : l.count r = 1 ∧ held.count r = 0 := by omega
      rw [hl]
      exact .inr ⟨hheld, .inr rfl⟩
  · rw [List.count_append] at hcount
    obtain ⟨hl, hheld⟩ : l.count r = 0 ∧ held.count r = 0 := by omega
    rw [hl, List.replicate_zero, List.append_nil]
    exact .inr ⟨hheld, hhistory⟩

/-- **The trace is balanced when nothing is held any more.** -/
theorem Kept.balanced_iff_nil (h : Kept trace held) : Balanced trace ↔ held = [] := by
  constructor
  · intro hbalanced
    refine List.eq_nil_iff_forall_not_mem.mpr fun r hr => ?_
    rcases h r with ⟨-, hhistory⟩ | ⟨hcount, -⟩
    · rcases hbalanced r with he | he <;> rw [hhistory] at he <;> cases he
    · exact List.count_eq_zero.mp hcount hr
  · rintro rfl r
    rcases h r with ⟨hcount, -⟩ | ⟨-, hhistory⟩
    · cases hcount
    · exact hhistory

end Kept

end DrExec.Lib.Custody
