import Mathlib.Data.List.Basic
import Mathlib.Tactic.Common

/-! # Runs of a computed transition system

A transition system is a function `step : α → σ → Option σ`: the state after an action, if the
action is enabled. `Reach step ok s t` says that some run of it leads from `s` to `t` in which every
action `a` taken in a state `u` satisfies `ok a u`; with `ok` always true these are all runs. The
rules: an invariant kept by every step holds in every state reached (`Reach.invariant`), runs
compose (`Reach.trans`), a computed list of actions is a run (`Reach.of_exec`), and a map that sends
every step to a step or to nothing sends runs to runs (`Reach.simulate`). -/

namespace DrExec.Lib.Transition

variable {σ τ α β : Type*}

/-- The states reached from `s` by actions that satisfy `ok` where they are taken. -/
inductive Reach (step : α → σ → Option σ) (ok : α → σ → Prop) (s : σ) : σ → Prop
  | refl : Reach step ok s s
  | tail {t u : σ} {a : α} : Reach step ok s t → ok a t → step a t = some u → Reach step ok s u

/-- The states reached from `s` by any actions. -/
abbrev Reachable (step : α → σ → Option σ) : σ → σ → Prop := Reach step fun _ _ => True

/-- The state after a list of actions, if each is enabled in turn. -/
def exec (step : α → σ → Option σ) : List α → σ → Option σ
  | [], s => some s
  | a :: as, s => (step a s).bind (exec step as)

namespace Reach

variable {step : α → σ → Option σ} {ok ok' : α → σ → Prop} {s t u : σ}

/-- **The invariant rule.** What holds at the start and is kept by every step taken in a reachable
state holds in every reachable state. -/
theorem invariant {I : σ → Prop} (h : Reach step ok s t) (h0 : I s)
    (hstep : ∀ ⦃u a v⦄, Reach step ok s u → I u → ok a u → step a u = some v → I v) : I t := by
  induction h with
  | refl => exact h0
  | tail hr hok hs ih => exact hstep hr ih hok hs

theorem mono (h : Reach step ok s t) (hok : ∀ a u, ok a u → ok' a u) : Reach step ok' s t := by
  induction h with
  | refl => exact refl
  | tail _ ho hs ih => exact ih.tail (hok _ _ ho) hs

theorem trans (h : Reach step ok s t) (h' : Reach step ok t u) : Reach step ok s u := by
  induction h' with
  | refl => exact h
  | tail _ ho hs ih => exact ih.tail ho hs

theorem single {a : α} (ho : ok a s) (h : step a s = some t) : Reach step ok s t :=
  refl.tail ho h

/-- A computed list of actions is a run, when `ok` puts no condition on it. -/
theorem of_exec (as : List α) (hok : ∀ a u, ok a u) (h : exec step as s = some t) :
    Reach step ok s t := by
  induction as generalizing s with
  | nil => cases h; exact refl
  | cons a as ih =>
    obtain ⟨u, hu, ht⟩ := Option.bind_eq_some_iff.mp h
    exact (single (hok _ _) hu).trans (ih ht)

/-- A computed list of actions is a run if each satisfies `ok` where it is taken. -/
theorem of_exec_checked [∀ a u, Decidable (ok a u)] (as : List α)
    (h : exec (fun a u => if ok a u then step a u else none) as s = some t) :
    Reach step ok s t := by
  induction as generalizing s with
  | nil => cases h; exact refl
  | cons a as ih =>
    obtain ⟨u, hu, ht⟩ := Option.bind_eq_some_iff.mp h
    dsimp only at hu
    split_ifs at hu with hok
    exact (single hok hu).trans (ih ht)

/-- **The simulation rule.** If `f` sends each step to a step of the other system or to no step,
it sends runs to runs. -/
theorem simulate {step' : β → τ → Option τ} {ok'' : β → τ → Prop} (f : σ → τ)
    (hf : ∀ ⦃u a v⦄, Reach step ok s u → ok a u → step a u = some v →
      f v = f u ∨ ∃ b, ok'' b (f u) ∧ step' b (f u) = some (f v))
    (h : Reach step ok s t) : Reach step' ok'' (f s) (f t) := by
  induction h with
  | refl => exact refl
  | tail hr ho hs ih =>
    rcases hf hr ho hs with he | ⟨b, hb, hs'⟩
    · rw [he]; exact ih
    · exact ih.tail hb hs'

end Reach

end DrExec.Lib.Transition
