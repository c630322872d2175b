import Mathlib.Tactic.Common

/-! # Loops that end

`while True` with a body that leaves the loop or goes on: `Loop σ ρ` is such a body on states `σ`
with results `ρ`, together with a variant that each pass which goes on makes smaller. `Loop.run` is
then a total function, computed by as many passes as the loop needs. It is the only solution of
`run_eq`, and `run_rule` is the invariant rule. -/

namespace DrExec.Lib

/-- The body of a `while True` loop: from each state it leaves with a result or goes on with a new
state of smaller variant. -/
structure Loop (σ ρ : Type*) where
  body : σ → ρ ⊕ σ
  variant : σ → ℕ
  decreases : ∀ ⦃s t⦄, body s = .inr t → variant t < variant s

namespace Loop

variable {σ ρ : Type*} (L : Loop σ ρ)

/-- The loop's result, when the variant is below `n`. -/
def runBelow : (n : ℕ) → (s : σ) → L.variant s < n → ρ
  | 0, _, h => absurd h (Nat.not_lt_zero _)
  | n + 1, s, h =>
    match hb : L.body s with
    | .inl r => r
    | .inr t => runBelow n t (Nat.lt_of_lt_of_le (L.decreases hb) (Nat.le_of_lt_succ h))

/-- The result with which the loop is left when it is entered in state `s`. -/
def run (s : σ) : ρ := L.runBelow (L.variant s + 1) s (Nat.lt_succ_self _)

/-- The bound on the variant does not matter. -/
theorem runBelow_eq (n m : ℕ) (s : σ) (hn : L.variant s < n) (hm : L.variant s < m) :
    L.runBelow n s hn = L.runBelow m s hm := by
  induction n generalizing m s with
  | zero => omega
  | succ n ih =>
    obtain _ | m := m
    · omega
    unfold runBelow
    split
    · rfl
    · exact ih _ _ _ _

/-- **One pass through the loop.** -/
theorem run_eq (s : σ) : L.run s = match L.body s with
    | .inl r => r
    | .inr t => L.run t := by
  rw [run, runBelow]
  split <;> rename_i hb
  · simp only [hb]
  · simp only [hb]
    exact L.runBelow_eq _ _ _ _ _

theorem run_of_leaves {s : σ} {r : ρ} (h : L.body s = .inl r) : L.run s = r := by
  rw [run_eq, h]

theorem run_of_goes {s t : σ} (h : L.body s = .inr t) : L.run s = L.run t := by
  rw [run_eq, h]

/-- **The invariant rule.** If the invariant holds where the loop is entered, each pass that goes
on keeps it and each pass that leaves ends in `Q`, then the loop's result satisfies `Q`. -/
theorem run_rule {I : σ → Prop} {Q : ρ → Prop} {s : σ} (h0 : I s)
    (hleave : ∀ ⦃s r⦄, I s → L.body s = .inl r → Q r)
    (hgo : ∀ ⦃s t⦄, I s → L.body s = .inr t → I t) : Q (L.run s) := by
  induction hv : L.variant s using Nat.strongRecOn generalizing s with
  | ind v ih =>
    rcases hb : L.body s with r | t
    · rw [L.run_of_leaves hb]
      exact hleave h0 hb
    · rw [L.run_of_goes hb]
      exact ih _ (hv ▸ L.decreases hb) (hgo h0 hb) rfl

end Loop

end DrExec.Lib
