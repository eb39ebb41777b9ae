import Mathlib.Logic.Function.Basic
import Mathlib.Tactic.Common
import LiebeOS.Lib.Run

/-! The text screen of `kernel.c`. The cursor is kept in two 16-bit variables,
and a character goes to the cell of the video memory that they select. -/
namespace LiebeOS

open Transition

def vgaWidth : Nat := 80
def vgaHeight : Nat := 20

/-- `stores` lists the cells that were stored to since `video_mem` was set. It
is not part of the C state; it makes a store behind the screen visible. -/
structure Terminal where
  videoMem : Int → Nat
  row : Nat
  col : Nat
  stores : List Int

/-- A character above 127 is negative and fills the upper half. -/
def terminalMakeChar (c color : UInt8) : Nat :=
  (color.toNat <<< 8) ||| (if c < 128 then c.toNat else 0xFF00 + c.toNat)

def terminalPutchar (t : Terminal) (x y : Int) (c color : UInt8) : Terminal :=
  { t with
    videoMem := Function.update t.videoMem (y * vgaWidth + x) (terminalMakeChar c color)
    stores := (y * vgaWidth + x) :: t.stores }

def terminalBackspace (t : Terminal) : Terminal :=
  if t.row = 0 ∧ t.col = 0 then t
  else
    let t := if t.col = 0 then { t with row := (t.row + 65535) % 65536, col := vgaWidth } else t
    let t := { t with col := (t.col + 65535) % 65536 }
    terminalPutchar t t.col t.row 32 15

def terminalWritechar (t : Terminal) (c color : UInt8) : Terminal :=
  if c = 10 then { t with row := (t.row + 1) % 65536, col := 0 }
  else if c = 8 then terminalBackspace t
  else
    let t := terminalPutchar t t.col t.row c color
    let t := { t with col := (t.col + 1) % 65536 }
    if vgaWidth ≤ t.col then { t with col := 0, row := (t.row + 1) % 65536 } else t

def terminalInitialize (t : Terminal) : Terminal :=
  (List.range vgaHeight).foldl (fun t (y : Nat) =>
    (List.range vgaWidth).foldl (fun t (x : Nat) => terminalPutchar t x y 32 0) t)
    { t with row := 0, col := 0, stores := [] }

/-- `str` is what the memory holds from the address on. -/
def print (t : Terminal) (str : List UInt8) : Terminal :=
  (str.takeWhile (· ≠ 0)).foldl (fun t c => terminalWritechar t c 15) t

/-! ### Confinement -/

/-- One call of `terminal_writechar`. -/
inductive WriteStep : Terminal → UInt8 × UInt8 → Terminal → Prop where
  | writechar (t : Terminal) (c color : UInt8) :
      WriteStep t (c, color) (terminalWritechar t c color)

/-- The cursor and all the stores are on the screen. -/
structure Confined (t : Terminal) : Prop where
  col : t.col < vgaWidth
  row : t.row < vgaHeight
  stores : ∀ i ∈ t.stores, 0 ≤ i ∧ i < vgaWidth * vgaHeight

/-- A newline, or a character in the last column, only comes above the last
row. -/
def LineFits (t : Terminal) (e : UInt8 × UInt8) : Prop :=
  e.1 = 10 ∨ (e.1 ≠ 8 ∧ t.col + 1 = vgaWidth) → t.row + 1 < vgaHeight

section Cells

theorem vgaWidth_pos : 0 < vgaWidth := by decide

theorem vgaHeight_pos : 0 < vgaHeight := by decide

variable {t : Terminal} {x y : Int} {c color : UInt8}

@[simp] theorem terminalPutchar_row : (terminalPutchar t x y c color).row = t.row := rfl

@[simp] theorem terminalPutchar_col : (terminalPutchar t x y c color).col = t.col := rfl

/-- A store through a cursor position on the screen hits the screen. -/
theorem terminalPutchar_stores (hx : 0 ≤ x ∧ x < vgaWidth) (hy : 0 ≤ y ∧ y < vgaHeight)
    (h : ∀ i ∈ t.stores, 0 ≤ i ∧ i < vgaWidth * vgaHeight) :
    ∀ i ∈ (terminalPutchar t x y c color).stores, 0 ≤ i ∧ i < vgaWidth * vgaHeight := by
  intro i hi
  rcases List.mem_cons.mp hi with hNew | hOld
  · rw [hNew]
    unfold vgaWidth vgaHeight at *
    omega
  · exact h i hOld

end Cells

section Step

variable {t u : Terminal} {c color : UInt8} {e : UInt8 × UInt8}

theorem Confined.backspace (h : Confined t) : Confined (terminalBackspace t) := by
  obtain ⟨hCol, hRow, hStores⟩ := h
  unfold terminalBackspace
  split_ifs with hCorner hStart
  · exact ⟨hCol, hRow, hStores⟩
  · have hUp : (t.row + 65535) % 65536 = t.row - 1 := by
      unfold vgaHeight at hRow
      omega
    dsimp only
    rw [hUp]
    refine ⟨?_, ?_, terminalPutchar_stores (by decide) (by omega) hStores⟩
    · show (vgaWidth + 65535) % 65536 < vgaWidth
      decide
    · rw [terminalPutchar_row]
      exact Nat.lt_of_le_of_lt (Nat.sub_le _ _) hRow
  · have hLeft : (t.col + 65535) % 65536 = t.col - 1 := by
      unfold vgaWidth at hCol
      omega
    dsimp only
    rw [hLeft]
    refine ⟨?_, hRow, terminalPutchar_stores ?_ (by omega) hStores⟩
    · rw [terminalPutchar_col]
      exact Nat.lt_of_le_of_lt (Nat.sub_le _ _) hCol
    · omega

/-- What happens to a cursor on the screen: it goes to the next line, back, or
one to the right. -/
theorem Confined.writechar_iff (h : Confined t) :
    Confined (terminalWritechar t c color) ↔ LineFits t (c, color) := by
  obtain ⟨hCol, hRow, hStores⟩ := h
  have hDown : (t.row + 1) % 65536 = t.row + 1 := by
    unfold vgaHeight at hRow
    omega
  have hRight : (t.col + 1) % 65536 = t.col + 1 := by
    unfold vgaWidth at hCol
    omega
  have hShown : ∀ i ∈ (terminalPutchar t t.col t.row c color).stores,
      0 ≤ i ∧ i < vgaWidth * vgaHeight :=
    terminalPutchar_stores (by omega) (by omega) hStores
  unfold terminalWritechar LineFits
  dsimp only
  rw [terminalPutchar_col, terminalPutchar_row, hDown, hRight]
  split_ifs with hNewline hBack hWrap
  · exact ⟨fun hNext _ => hNext.row,
      fun hFits => ⟨vgaWidth_pos, hFits (Or.inl hNewline), hStores⟩⟩
  · refine ⟨fun _ hLine => ?_, fun _ => Confined.backspace ⟨hCol, hRow, hStores⟩⟩
    rcases hLine with hTen | hOther
    · exact absurd hTen hNewline
    · exact absurd hBack hOther.1
  · exact ⟨fun hNext _ => hNext.row,
      fun hFits => ⟨vgaWidth_pos, hFits (Or.inr ⟨hBack, by omega⟩), hShown⟩⟩
  · refine ⟨fun _ hLine => ?_, fun _ => ⟨Nat.lt_of_not_le hWrap, hRow, hShown⟩⟩
    rcases hLine with hTen | hOther
    · exact absurd hTen hNewline
    · omega

theorem Confined.step (h : Confined t) (hFits : LineFits t e) (hStep : WriteStep t e u) :
    Confined u := by
  cases hStep with
  | writechar c color => exact h.writechar_iff.mpr hFits

end Step

section Runs

variable {t u : Terminal} {events : List (UInt8 × UInt8)}

theorem terminalInitialize_confined (t : Terminal) : Confined (terminalInitialize t) := by
  unfold terminalInitialize
  refine List.foldlRecOn _ _ ⟨vgaWidth_pos, vgaHeight_pos, fun _ hi => nomatch hi⟩
    fun t hLine y hy => List.foldlRecOn _ _ hLine fun t h x hx => ?_
  have hCol := List.mem_range.mp hx
  have hRow := List.mem_range.mp hy
  exact ⟨h.col, h.row, terminalPutchar_stores (by omega) (by omega) h.stores⟩

theorem terminalInitialize_row (t : Terminal) : (terminalInitialize t).row = 0 := by
  unfold terminalInitialize
  exact List.foldlRecOn (motive := fun t : Terminal => t.row = 0) _ _ rfl
    fun t hLine y _ => List.foldlRecOn (motive := fun t : Terminal => t.row = 0) _ _ hLine
      fun t h x _ => h

/-- In every output in which no line is begun behind the last row, the cursor
and the stores stay on the screen; and one more character keeps them there only
if it meets the condition. -/
theorem terminalRun_confined (run : Run (Guarded WriteStep LineFits) (terminalInitialize t) events u) :
    Confined u ∧ ∀ c color, Confined (terminalWritechar u c color) ↔ LineFits u (c, color) := by
  have hConfined : Confined u := run.invariant (terminalInitialize_confined t)
    fun _ _ _ h hStep => h.step hStep.1 hStep.2
  exact ⟨hConfined, fun c color => hConfined.writechar_iff⟩

theorem terminalRun_confined_line :
    ∃ u, Run (Guarded WriteStep LineFits) (terminalInitialize ⟨fun _ => 0, 0, 0, []⟩)
        [(97, 15), (10, 15), (8, 15)] u ∧ u.col = 79 ∧ Confined u := by
  have run : Run (Guarded WriteStep LineFits) (terminalInitialize ⟨fun _ => 0, 0, 0, []⟩)
      [(97, 15), (10, 15), (8, 15)] _ :=
    ((Run.single ⟨by unfold LineFits; decide +kernel, WriteStep.writechar _ 97 15⟩).snoc
      ⟨by unfold LineFits; decide +kernel, WriteStep.writechar _ 10 15⟩).snoc
      ⟨by unfold LineFits; decide +kernel, WriteStep.writechar _ 8 15⟩
  exact ⟨_, run, by decide +kernel, (terminalRun_confined run).1⟩

/-- Empty lines move the cursor down without end. -/
theorem terminalRun_newlines (t : Terminal) (n : Nat) (hn : n ≤ vgaHeight) :
    ∃ u, Run WriteStep (terminalInitialize t) (List.replicate n (10, 15)) u ∧ u.row = n := by
  induction n with
  | zero => exact ⟨_, Run.nil _, terminalInitialize_row t⟩
  | succ n ih =>
      obtain ⟨u, run, hRow⟩ := ih (Nat.le_of_succ_le hn)
      rw [List.replicate_succ']
      refine ⟨_, run.snoc (WriteStep.writechar u 10 15), ?_⟩
      rw [terminalWritechar, if_pos rfl]
      dsimp only
      unfold vgaHeight at hn
      omega

/-- After twenty newlines the cursor is behind the screen, and the next
character goes there. -/
theorem terminalRun_scrolled :
    ¬ ∀ (t u : Terminal) (events : List (UInt8 × UInt8)),
      Run WriteStep (terminalInitialize t) events u → Confined u := by
  intro hClaim
  obtain ⟨u, run, hRow⟩ := terminalRun_newlines ⟨fun _ => 0, 0, 0, []⟩ vgaHeight (Nat.le_refl _)
  have hOutside : ((u.row : Int) * vgaWidth + u.col) ∈ (terminalWritechar u 97 15).stores := by
    unfold terminalWritechar
    rw [if_neg (by decide), if_neg (by decide)]
    dsimp only
    split_ifs <;> exact List.mem_cons_self
  have hInside := ((hClaim _ _ _ (run.snoc (WriteStep.writechar u 97 15))).stores _ hOutside).2
  rw [hRow] at hInside
  unfold vgaWidth vgaHeight at hInside
  omega

end Runs

end LiebeOS
