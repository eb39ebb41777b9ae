import Mathlib.Logic.Function.Basic
import Mathlib.Tactic.Common

/-! Character arrays with a record of the indices that have been stored to, and the
texts up to a NUL that they hold. -/

structure CharArray where
  cells : Int → UInt8
  written : List Int

namespace CharArray

/-- `a[i] = c` -/
def store (a : CharArray) (i : Int) (c : UInt8) : CharArray :=
  ⟨Function.update a.cells i c, i :: a.written⟩

@[simp] theorem store_cells_self (a : CharArray) (i : Int) (c : UInt8) :
    (a.store i c).cells i = c := Function.update_self ..

theorem store_cells_of_ne (a : CharArray) {i j : Int} (c : UInt8) (h : j ≠ i) :
    (a.store i c).cells j = a.cells j := Function.update_of_ne h ..

@[simp] theorem store_written (a : CharArray) (i : Int) (c : UInt8) :
    (a.store i c).written = i :: a.written := rfl

/-- From `a` to `b` only indices from `low` to below `high` have been stored to. -/
structure StoresWithin (a b : CharArray) (low high : Int) : Prop where
  stores : ∀ k ∈ b.written, k ∈ a.written ∨ (low ≤ k ∧ k < high)
  others : ∀ k, k < low ∨ high ≤ k → b.cells k = a.cells k

variable {a b c : CharArray} {low high i : Int}

theorem StoresWithin.refl (a : CharArray) (low high : Int) : StoresWithin a a low high :=
  ⟨fun _ hk => Or.inl hk, fun _ _ => rfl⟩

theorem StoresWithin.trans (hLeft : StoresWithin a b low high)
    (hRight : StoresWithin b c low high) : StoresWithin a c low high where
  stores k hk := (hRight.stores k hk).elim (hLeft.stores k) Or.inr
  others k hk := (hRight.others k hk).trans (hLeft.others k hk)

theorem StoresWithin.mono {low' high' : Int} (h : StoresWithin a b low high) (hLow : low' ≤ low)
    (hHigh : high ≤ high') : StoresWithin a b low' high' where
  stores k hk := (h.stores k hk).imp_right fun hIn => ⟨by omega, by omega⟩
  others k hk := h.others k (by omega)

theorem storesWithin_store (a : CharArray) (v : UInt8) (hLow : low ≤ i) (hHigh : i < high) :
    StoresWithin a (a.store i v) low high where
  stores k hk := by
    rcases List.mem_cons.mp hk with rfl | hBefore
    · exact Or.inr ⟨hLow, hHigh⟩
    · exact Or.inl hBefore
  others k hk := store_cells_of_ne a v (by omega)

/-- From `i` on there are the characters of `text` and a NUL behind them. -/
def HoldsText (cells : Int → UInt8) : Int → List UInt8 → Prop
  | i, [] => cells i = 0
  | i, c :: text => cells i = c ∧ c ≠ 0 ∧ HoldsText cells (i + 1) text

/-- As many cells from `i` on. -/
def cellsFrom (cells : Int → UInt8) : Int → Nat → List UInt8
  | _, 0 => []
  | i, n + 1 => cells i :: cellsFrom cells (i + 1) n

theorem cellsFrom_append (cells : Int → UInt8) (i : Int) (n : Nat) :
    cellsFrom cells i (n + 1) = cellsFrom cells i n ++ [cells (i + n)] := by
  induction n generalizing i with
  | zero =>
      rw [cellsFrom, cellsFrom, Int.natCast_zero, Int.add_zero]
      rfl
  | succ n ih =>
      rw [cellsFrom, ih, cellsFrom, List.cons_append, Int.natCast_succ]
      congr 4
      omega

theorem cellsFrom_congr {cells cells' : Int → UInt8} {n : Nat}
    (h : ∀ k, i ≤ k → k < i + n → cells' k = cells k) :
    cellsFrom cells' i n = cellsFrom cells i n := by
  induction n generalizing i with
  | zero => rfl
  | succ n ih =>
      rw [cellsFrom, cellsFrom, h i (Int.le_refl i) (by omega),
        ih fun k hLow hHigh => h k (by omega) (by omega)]

/-- Characters with a NUL behind them are a text. -/
theorem holdsText_of_cellsFrom {cells : Int → UInt8} {text : List UInt8}
    (h : cellsFrom cells i text.length = text) (hNul : cells (i + text.length) = 0)
    (hChars : 0 ∉ text) : HoldsText cells i text := by
  induction text generalizing i with
  | nil => exact (congrArg cells (Int.add_zero i)).symm.trans hNul
  | cons c text ih =>
      obtain ⟨hHead, hTail⟩ := List.cons.inj h
      rw [List.mem_cons, not_or] at hChars
      refine ⟨hHead, Ne.symm hChars.1, ih hTail ?_ hChars.2⟩
      rw [← hNul, List.length_cons]
      congr 1
      push_cast
      omega

/-- The text is what stands before the first NUL. -/
theorem HoldsText.takeWhile {cells : Int → UInt8} {text : List UInt8} (h : HoldsText cells i text)
    (n : Nat) : (cellsFrom cells i n).takeWhile (· ≠ 0) = text.take n := by
  induction text generalizing i n with
  | nil =>
      have hNul : cells i = 0 := h
      cases n with
      | zero => rfl
      | succ n => rw [cellsFrom, List.takeWhile_cons_of_neg (by simp [hNul]), List.take_nil]
  | cons c text ih =>
      obtain ⟨hHead, hChar, hTail⟩ := h
      cases n with
      | zero => rfl
      | succ n =>
          rw [cellsFrom, hHead, List.takeWhile_cons_of_pos (by simpa using hChar), ih hTail,
            List.take_succ_cons]

theorem HoldsText.congr {cells cells' : Int → UInt8} {text : List UInt8}
    (h : HoldsText cells i text) (hSame : ∀ k, i ≤ k → k ≤ i + text.length → cells' k = cells k) :
    HoldsText cells' i text := by
  induction text generalizing i with
  | nil => exact (hSame i (Int.le_refl i) (by simp)).trans h
  | cons c text ih =>
      obtain ⟨hHead, hChar, hTail⟩ := h
      rw [List.length_cons] at hSame
      push_cast at hSame
      exact ⟨(hSame i (Int.le_refl i) (by omega)).trans hHead, hChar,
        ih hTail fun k hLow hHigh => hSame k (by omega) (by omega)⟩

/-- The characters of a text, and the NUL behind it, by their places. -/
theorem HoldsText.cell {cells : Int → UInt8} {text : List UInt8} (h : HoldsText cells i text)
    {k : Nat} (hk : k ≤ text.length) : cells (i + k) = text[k]?.getD 0 := by
  induction text generalizing i k with
  | nil =>
      obtain rfl : k = 0 := by simpa using hk
      exact (congrArg cells (Int.add_zero i)).trans h
  | cons c text ih =>
      obtain ⟨hHead, _, hTail⟩ := h
      cases k with
      | zero => exact (congrArg cells (Int.add_zero i)).trans hHead
      | succ k =>
          have hCell := ih hTail (Nat.le_of_succ_le_succ hk)
          rw [List.getElem?_cons_succ, ← hCell]
          congr 1
          omega

/-- A text stays a text where the cells are numbered from elsewhere. -/
theorem HoldsText.shift {cells : Int → UInt8} {text : List UInt8} (h : HoldsText cells i text)
    (d : Int) : HoldsText (fun k => cells (k - d)) (d + i) text := by
  induction text generalizing i with
  | nil => exact (congrArg cells (by omega)).trans h
  | cons c text ih =>
      obtain ⟨hHead, hChar, hTail⟩ := h
      refine ⟨(congrArg cells (by omega)).trans hHead, hChar, ?_⟩
      rw [Int.add_assoc]
      exact ih hTail

/-- Characters up to a NUL are one text only. -/
theorem HoldsText.unique {cells : Int → UInt8} {text text' : List UInt8}
    (h : HoldsText cells i text) (h' : HoldsText cells i text') : text = text' := by
  induction text generalizing i text' with
  | nil =>
      cases text' with
      | nil => rfl
      | cons c _ => exact absurd (h'.1.symm.trans h) h'.2.1
  | cons c text ih =>
      cases text' with
      | nil => exact absurd (h.1.symm.trans h') h.2.1
      | cons c' text' => rw [h.1.symm.trans h'.1, ih h.2.2 h'.2.2]

/-- A character stored in front of a text belongs to the text. -/
theorem HoldsText.store_front {text : List UInt8} {v : UInt8} (h : HoldsText a.cells (i + 1) text)
    (hChar : v ≠ 0) : HoldsText (a.store i v).cells i (v :: text) :=
  ⟨store_cells_self a i v, hChar, h.congr fun _ hk _ => store_cells_of_ne a v (by omega)⟩

end CharArray
