import Mathlib.Data.List.Basic
import Mathlib.Tactic.Common

/-! # Sinks that accept a part

One write offers symbols to a sink, which accepts a first part of them and says how many, or refuses
the write with an error. `relay` writes chunk after chunk, each by one write whose count it does not
look at; it tells of a chunk as written unless the write was refused with an error that it reports.
What it tells of is what the sink has exactly if every write that it tells of was accepted whole
(`relay_kept_iff`). -/

namespace DrExec.Lib

/-- What a write is refused with: that it would block, or another error. -/
inductive WriteError
  | wouldBlock
  | failed
  deriving DecidableEq, Repr

/-- What a sink answers to the write that comes after so many others and offers so many symbols: how
many it accepts, at least one if any is offered, or an error. -/
structure Sink where
  answer : ℕ → ℕ → Except WriteError ℕ
  accepted_le : ∀ {call offered count}, answer call offered = .ok count → count ≤ offered
  accepted_pos : ∀ {call offered count}, 0 < offered → answer call offered = .ok count → 0 < count

namespace Sink

variable {α : Type*} (S : Sink) (reports : WriteError → Bool)

/-- The chunks that are told of as written, and what the sink has of them. -/
def relay : List (List α) → ℕ → List (List α) × List α
  | [], _ => ([], [])
  | chunk :: chunks, call =>
    match S.answer call chunk.length with
    | .ok count =>
      (chunk :: (relay chunks (call + 1)).1, chunk.take count ++ (relay chunks (call + 1)).2)
    | .error error =>
      if reports error then ([], [])
      else (chunk :: (relay chunks (call + 1)).1, (relay chunks (call + 1)).2)

/-- Every chunk that is told of as written is accepted whole. -/
def AcceptsWhole : List (List α) → ℕ → Prop
  | [], _ => True
  | chunk :: chunks, call =>
    match S.answer call chunk.length with
    | .ok count => count = chunk.length ∧ AcceptsWhole chunks (call + 1)
    | .error error =>
      if reports error then True else chunk = [] ∧ AcceptsWhole chunks (call + 1)

/-- The sink has a part of what it is told to have. -/
theorem relay_sublist (chunks : List (List α)) (call : ℕ) :
    (S.relay reports chunks call).2.Sublist (S.relay reports chunks call).1.flatten := by
  induction chunks generalizing call with
  | nil => exact List.Sublist.slnil
  | cons chunk chunks ih =>
    rw [relay]
    rcases S.answer call chunk.length with error | count
    · dsimp only
      split_ifs
      · exact List.Sublist.slnil
      · exact (ih (call + 1)).trans (List.sublist_append_right _ _)
    · exact (List.take_sublist count chunk).append (ih (call + 1))

/-- **A relay keeps what it tells of** exactly if each of its writes is accepted whole. -/
theorem relay_kept_iff (chunks : List (List α)) (call : ℕ) :
    (S.relay reports chunks call).2 = (S.relay reports chunks call).1.flatten ↔
      S.AcceptsWhole reports chunks call := by
  induction chunks generalizing call with
  | nil => exact iff_of_true rfl trivial
  | cons chunk chunks ih =>
    have hrest := (S.relay_sublist reports chunks (call + 1)).length_le
    rw [relay, AcceptsWhole]
    rcases hanswer : S.answer call chunk.length with error | count
    · dsimp only
      split_ifs
      · exact iff_of_true rfl trivial
      · dsimp only
        rw [← ih (call + 1), List.flatten_cons]
        constructor
        · intro hkept
          have hlength := congrArg List.length hkept
          rw [List.length_append] at hlength
          obtain rfl : chunk = [] := List.length_eq_zero_iff.mp (by omega)
          exact ⟨rfl, hkept⟩
        · rintro ⟨rfl, hkept⟩
          exact hkept
    · have hcount := S.accepted_le hanswer
      dsimp only
      rw [← ih (call + 1), List.flatten_cons]
      constructor
      · intro hkept
        have hlength := congrArg List.length hkept
        rw [List.length_append, List.length_append, List.length_take] at hlength
        obtain rfl : count = chunk.length := by omega
        rw [List.take_length] at hkept
        exact ⟨rfl, List.append_cancel_left hkept⟩
      · rintro ⟨rfl, hkept⟩
        rw [List.take_length, hkept]

end Sink

end DrExec.Lib
