import Mathlib.Data.List.GetD
import Mathlib.Data.List.Infix
import Mathlib.Data.Nat.ModEq
import Mathlib.Logic.Function.Basic
import Mathlib.Tactic.Common

/-! A queue in a ring of `n` cells that keeps no length: a cell outside of the
queue holds a blank, and elements of the queue are not blank. `first` counts the
elements that have been taken out so far. -/
namespace MarkedRing

universe u

variable {α : Type u}

/-- From cell `first` on, around the ring, the cells hold the queue and then
blanks. -/
structure Holds (n : Nat) (blank : α) (cells : Nat → α) (first : Nat) (queue : List α) :
    Prop where
  room : queue.length ≤ n
  marked : ∀ x ∈ queue, x ≠ blank
  cell : ∀ o < n, cells ((first + o) % n) = queue.getD o blank

variable {n first : Nat} {blank x : α} {cells : Nat → α} {queue : List α}

/-- Two cells of one round around the ring are the same only if their offsets
are. -/
theorem cell_eq_iff {o o' : Nat} (ho : o < n) (ho' : o' < n) :
    (first + o) % n = (first + o') % n ↔ o = o' := by
  constructor
  · intro hSame
    have hMod : o % n = o' % n := Nat.ModEq.add_left_cancel' first hSame
    rwa [Nat.mod_eq_of_lt ho, Nat.mod_eq_of_lt ho'] at hMod
  · intro hSame
    rw [hSame]

theorem Holds.empty (n : Nat) (blank : α) (first : Nat) :
    Holds n blank (fun _ => blank) first [] where
  room := Nat.zero_le n
  marked := fun _ hx => nomatch hx
  cell := fun _ _ => rfl

/-- The blanks alone tell which cells are in use. -/
theorem Holds.marked_iff (h : Holds n blank cells first queue) {o : Nat} (ho : o < n) :
    cells ((first + o) % n) ≠ blank ↔ o < queue.length := by
  rw [h.cell o ho]
  constructor
  · intro hMarked
    by_contra hOut
    exact hMarked (List.getD_eq_default _ _ (Nat.le_of_not_lt hOut))
  · intro hIn
    rw [List.getD_eq_getElem _ _ hIn]
    exact h.marked _ (List.getElem_mem hIn)

theorem Holds.front (h : Holds n blank cells first queue) (hn : 0 < n) :
    cells (first % n) = queue.headD blank := by
  have hCell := h.cell 0 hn
  rw [Nat.add_zero] at hCell
  rw [hCell]
  cases queue with
  | nil => rfl
  | cons y rest => rfl

theorem Holds.push (h : Holds n blank cells first queue) (hRoom : queue.length < n)
    (hx : x ≠ blank) :
    Holds n blank (Function.update cells ((first + queue.length) % n) x) first (queue ++ [x]) := by
  refine ⟨?_, fun y hy => ?_, fun o ho => ?_⟩
  · rw [List.length_append]
    exact hRoom
  · rcases List.mem_append.mp hy with hOld | hNew
    · exact h.marked y hOld
    · rw [List.mem_singleton.mp hNew]
      exact hx
  · by_cases hLast : o = queue.length
    · rw [hLast, Function.update_self, List.getD_append_right _ _ _ _ (Nat.le_refl _),
        Nat.sub_self]
      rfl
    · rw [Function.update_of_ne fun hSame => hLast ((cell_eq_iff ho hRoom).mp hSame), h.cell o ho]
      rcases Nat.lt_or_gt_of_ne hLast with hIn | hOut
      · rw [List.getD_append _ _ _ _ hIn]
      · rw [List.getD_eq_default _ _ (Nat.le_of_lt hOut), List.getD_eq_default]
        rw [List.length_append]
        exact hOut

/-- Taking the front out clears its cell, which becomes the last one. -/
theorem Holds.pop (h : Holds n blank cells first (x :: queue)) :
    Holds n blank (Function.update cells (first % n) blank) (first + 1) queue := by
  have hRoom : queue.length < n := h.room
  refine ⟨Nat.le_of_lt hRoom, fun y hy => h.marked y (List.mem_cons_of_mem _ hy), fun o ho => ?_⟩
  have hNext : first + 1 + o = first + (o + 1) := by omega
  rw [hNext]
  by_cases hLast : o + 1 < n
  · have hOther : (first + (o + 1)) % n ≠ first % n := fun hSame =>
      absurd ((@cell_eq_iff n first (o + 1) 0 hLast (Nat.zero_lt_of_lt ho)).mp hSame)
        (Nat.succ_ne_zero o)
    rw [Function.update_of_ne hOther, h.cell _ hLast]
    rfl
  · have hRound : (first + (o + 1)) % n = first % n := by
      rw [show o + 1 = n by omega, Nat.add_mod_right]
    rw [hRound, Function.update_self, List.getD_eq_default _ _ (by omega)]

/-- Taking the youngest element back. -/
theorem Holds.dropLast (h : Holds n blank cells first queue) (hSome : queue ≠ []) :
    Holds n blank (Function.update cells ((first + (queue.length - 1)) % n) blank) first
      queue.dropLast := by
  have hLength := List.length_pos_iff.mpr hSome
  have hRoom := h.room
  refine ⟨?_, fun y hy => h.marked y (List.mem_of_mem_dropLast hy), fun o ho => ?_⟩
  · rw [List.length_dropLast]
    omega
  · by_cases hLast : o = queue.length - 1
    · rw [hLast, Function.update_self, List.getD_eq_default]
      rw [List.length_dropLast]
    · rw [Function.update_of_ne fun hSame => hLast ((cell_eq_iff ho (by omega)).mp hSame),
        h.cell o ho]
      rcases Nat.lt_or_gt_of_ne hLast with hIn | hOut
      · rw [List.getD_eq_getElem _ _ (by omega), List.getD_eq_getElem, List.getElem_dropLast]
        rw [List.length_dropLast]
        exact hIn
      · rw [List.getD_eq_default _ _ (by omega), List.getD_eq_default]
        rw [List.length_dropLast]
        omega

end MarkedRing
