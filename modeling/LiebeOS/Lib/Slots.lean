import Mathlib.Data.List.Range
import Mathlib.Logic.Function.Basic

/-! Tables of numbered slots: the search for the first slot that meets a condition,
and the change of one slot. -/
namespace Slots

section Search

variable {P : Nat → Prop} [DecidablePred P] {n i : Nat}

/-- What a search has found, and what it has passed by. -/
theorem find_some (h : (List.range n).find? (fun i => decide (P i)) = some i) :
    i < n ∧ P i ∧ ∀ j < i, ¬ P j := by
  obtain ⟨hFound, hRange, hBefore⟩ := List.find?_range_eq_some.mp h
  refine ⟨List.mem_range.mp hRange, of_decide_eq_true hFound, fun j hj => ?_⟩
  simpa using hBefore j hj

theorem find_none (h : (List.range n).find? (fun i => decide (P i)) = none) : ∀ i < n, ¬ P i := by
  intro i hi
  simpa using List.find?_range_eq_none.mp h i hi

/-- A search ends at a slot, unless there is none. -/
theorem find_cases (P : Nat → Prop) [DecidablePred P] (n : Nat) :
    ((∀ i < n, ¬ P i) ∧ (List.range n).find? (fun i => decide (P i)) = none) ∨
      ∃ i < n, P i ∧ (List.range n).find? (fun i => decide (P i)) = some i := by
  cases hFind : (List.range n).find? (fun i => decide (P i)) with
  | none => exact Or.inl ⟨find_none hFind, rfl⟩
  | some i =>
      obtain ⟨hRange, hFound, _⟩ := find_some hFind
      exact Or.inr ⟨i, hRange, hFound, rfl⟩

end Search

/-- An entry of a table in which one slot has been filled is the new one or an old one. -/
theorem update_some {α β : Type*} [DecidableEq α] {f : α → Option β} {i j : α} {a b : β}
    (h : Function.update f i (some a) j = some b) : (j = i ∧ b = a) ∨ (j ≠ i ∧ f j = some b) := by
  by_cases hSame : j = i
  · rw [hSame, Function.update_self] at h
    exact Or.inl ⟨hSame, (Option.some.inj h).symm⟩
  · rw [Function.update_of_ne hSame] at h
    exact Or.inr ⟨hSame, h⟩

end Slots
