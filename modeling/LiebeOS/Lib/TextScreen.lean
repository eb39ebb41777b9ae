import Mathlib.Data.List.Basic
import Mathlib.Logic.Function.Basic
import Mathlib.Tactic.Common

/-! A text screen as one long line of cells, of which every `width` make a row. Keys are
put where the cursor is; a backspace clears the cell in front of it. -/
namespace TextScreen

universe u

variable {α : Type u}

structure Screen (α : Type u) where
  cells : Nat → α
  cursor : Nat

inductive Key (α : Type u) where
  | glyph (a : α)
  | newline
  | back

/-- The first cell of a backspace's row may be in the middle of a line: it goes back to the
row above. -/
def Screen.put (width : Nat) (blank : α) (s : Screen α) : Key α → Screen α
  | .glyph a => ⟨Function.update s.cells s.cursor a, s.cursor + 1⟩
  | .newline => { s with cursor := (s.cursor / width + 1) * width }
  | .back =>
      if s.cursor = 0 then s
      else ⟨Function.update s.cells (s.cursor - 1) blank, s.cursor - 1⟩

def Screen.putAll (width : Nat) (blank : α) (s : Screen α) (keys : List (Key α)) : Screen α :=
  keys.foldl (Screen.put width blank) s

/-- The cells from `p` on show a text. -/
def Shows (cells : Nat → α) (p : Nat) (text : List α) : Prop :=
  ∀ i a, text[i]? = some a → cells (p + i) = a

/-- The text of a line that began at `p` stands in front of the cursor. -/
structure OnLine (s : Screen α) (p : Nat) (text : List α) : Prop where
  cursor : s.cursor = p + text.length
  shows : Shows s.cells p text

/-! ### One line -/

section Line

variable {width p : Nat} {blank a : α} {s : Screen α} {cells : Nat → α} {text : List α}

theorem shows_nil (cells : Nat → α) (p : Nat) : Shows cells p [] := fun _ _ h => by simp at h

theorem Shows.update (h : Shows cells p text) {q : Nat} (hq : q < p ∨ p + text.length ≤ q) (a : α) :
    Shows (Function.update cells q a) p text := by
  intro i b hb
  obtain ⟨hi, _⟩ := List.getElem?_eq_some_iff.mp hb
  rw [Function.update_of_ne (by omega)]
  exact h i b hb

theorem Shows.congr {cells' : Nat → α} (h : Shows cells p text)
    (hSame : ∀ q, p ≤ q → q < p + text.length → cells' q = cells q) : Shows cells' p text := by
  intro i b hb
  obtain ⟨hi, _⟩ := List.getElem?_eq_some_iff.mp hb
  rw [hSame _ (by omega) (by omega)]
  exact h i b hb

/-- A key of a line that is not its end. -/
theorem OnLine.glyph (h : OnLine s p text) (a : α) :
    OnLine (s.put width blank (.glyph a)) p (text ++ [a]) := by
  refine ⟨?_, fun i b hb => ?_⟩
  · rw [List.length_append, List.length_singleton, ← Nat.add_assoc, ← h.cursor]
    rfl
  · rcases Nat.lt_trichotomy i text.length with hOld | rfl | hBehind
    · rw [List.getElem?_append_left hOld] at hb
      exact (h.shows.update (Or.inr (Nat.le_of_eq h.cursor.symm)) a) i b hb
    · rw [List.getElem?_concat_length] at hb
      obtain rfl := Option.some.inj hb
      change Function.update s.cells s.cursor a (p + text.length) = a
      rw [← h.cursor, Function.update_self]
    · rw [List.getElem?_eq_none (by rw [List.length_append, List.length_singleton]; omega)] at hb
      cases hb

/-- A backspace takes the last key of the line back. -/
theorem OnLine.back (h : OnLine s p text) (hSome : text ≠ []) :
    OnLine (s.put width blank .back) p text.dropLast := by
  have hLength := List.length_pos_iff.mpr hSome
  have hCursor := h.cursor
  have hPut : s.put width blank .back =
      ⟨Function.update s.cells (s.cursor - 1) blank, s.cursor - 1⟩ := if_neg (by omega)
  have hFront : Shows s.cells p text.dropLast := fun i b hb => by
    rw [List.getElem?_dropLast] at hb
    split_ifs at hb
    exact h.shows i b hb
  rw [hPut]
  refine ⟨?_, hFront.update (Or.inr ?_) blank⟩
  · change s.cursor - 1 = _
    rw [List.length_dropLast, hCursor]
    omega
  · rw [List.length_dropLast]
    omega

/-- Without one it takes the line back into the text in front of it. -/
theorem OnLine.stray (h : OnLine s p []) : OnLine (s.put width blank .back) (p - 1) [] := by
  have hCursor : s.cursor = p := h.cursor
  refine ⟨?_, shows_nil _ _⟩
  rw [Screen.put]
  split_ifs with hCorner
  · rw [hCorner] at hCursor
    rw [hCorner, ← hCursor]
    rfl
  · rw [← hCursor]
    rfl

/-- A backspace clears the cell in front of the cursor at most. -/
theorem put_back_cells {q : Nat} (hq : q + 1 ≠ s.cursor) :
    (s.put width blank .back).cells q = s.cells q := by
  rw [Screen.put]
  split_ifs with hCorner
  · rfl
  · exact Function.update_of_ne (by omega) ..

/-- More characters behind a line change nothing in front of the cursor or behind them. -/
theorem putGlyphs_onLine (h : OnLine s p text) (more : List α) :
    OnLine (s.putAll width blank (more.map .glyph)) p (text ++ more) ∧
      ∀ q, q < s.cursor ∨ s.cursor + more.length ≤ q →
        (s.putAll width blank (more.map .glyph)).cells q = s.cells q := by
  induction more generalizing s text with
  | nil =>
      rw [List.append_nil]
      exact ⟨h, fun _ _ => rfl⟩
  | cons a more ih =>
      have hPut : OnLine (s.put width blank (.glyph a)) p (text ++ [a]) := h.glyph a
      obtain ⟨hLine, hSame⟩ := ih hPut
      rw [List.append_assoc] at hLine
      refine ⟨hLine, fun q hq => ?_⟩
      rw [List.length_cons] at hq
      have hCursor : (s.put width blank (.glyph a)).cursor = s.cursor + 1 := rfl
      refine (hSame q (by omega)).trans ?_
      exact Function.update_of_ne (by omega) ..

end Line

/-! ### Keys that go forward -/

section Forward

variable {width : Nat} {blank : α}

theorem putAll_append (s : Screen α) (front rest : List (Key α)) :
    s.putAll width blank (front ++ rest) = (s.putAll width blank front).putAll width blank rest :=
  List.foldl_append

/-- Without backspaces the cursor never goes back. -/
theorem le_putAll_cursor (hWidth : 0 < width) (s : Screen α) {keys : List (Key α)}
    (hForward : .back ∉ keys) : s.cursor ≤ (s.putAll width blank keys).cursor := by
  induction keys generalizing s with
  | nil => exact Nat.le_refl _
  | cons key keys ih =>
      have hRest := ih (s.put width blank key) fun h => hForward (List.mem_cons_of_mem key h)
      refine Nat.le_trans ?_ hRest
      cases key with
      | glyph a => exact Nat.le_succ _
      | newline => exact Nat.le_of_lt (Nat.lt_mul_of_div_lt (Nat.lt_succ_self _) hWidth)
      | back => exact absurd List.mem_cons_self hForward

end Forward

/-! ### Many lines -/

section Lines

variable {width p : Nat} {blank : α} {s : Screen α}

/-- The keys of lines with newlines in between. -/
def lineKeys : List (List α) → List (Key α)
  | [] => []
  | [line] => line.map .glyph
  | line :: lines => line.map .glyph ++ .newline :: lineKeys lines

/-- Where line `j` begins when the first begins at `p`. A line that fills its last row is
followed by a row that stays empty. -/
def lineStart (width : Nat) : Nat → List (List α) → Nat → Nat
  | p, line :: lines, j + 1 => lineStart width (((p + line.length) / width + 1) * width) lines j
  | p, _, _ => p

/-- Every line is shown where it begins, the cursor is behind the last, and nothing else has
changed. -/
structure LinesShown (width : Nat) (s s' : Screen α) (lines : List (List α)) : Prop where
  cursor : ∀ line, lines.getLast? = some line →
    s'.cursor = lineStart width s.cursor lines (lines.length - 1) + line.length
  shows : ∀ j line, lines[j]? = some line →
    Shows s'.cells (lineStart width s.cursor lines j) line
  others : ∀ q, (∀ j line, lines[j]? = some line →
      q < lineStart width s.cursor lines j ∨ lineStart width s.cursor lines j + line.length ≤ q) →
    s'.cells q = s.cells q

theorem lineKeys_forward (lines : List (List α)) : .back ∉ lineKeys lines := by
  induction lines with
  | nil => simp [lineKeys]
  | cons line lines ih =>
      cases lines with
      | nil => simp [lineKeys]
      | cons second rest =>
          rw [lineKeys, List.mem_append, List.mem_cons]
          · rintro (hLine | hEnd | hRest)
            · simp at hLine
            · cases hEnd
            · exact ih hRest
          · exact List.cons_ne_nil second rest

theorem nextRow_gt (hWidth : 0 < width) (p : Nat) : p < (p / width + 1) * width := by
  rw [Nat.add_mul, Nat.one_mul]
  have hMod := Nat.mod_lt p hWidth
  have hDiv := Nat.div_add_mod' p width
  omega

/-- No line begins in front of the first. -/
theorem le_lineStart (hWidth : 0 < width) (p : Nat) (lines : List (List α)) (j : Nat) :
    p ≤ lineStart width p lines j := by
  induction lines generalizing p j with
  | nil => cases j <;> exact Nat.le_refl p
  | cons line lines ih =>
      cases j with
      | zero => exact Nat.le_refl p
      | succ j =>
          have hNext := nextRow_gt hWidth (p + line.length)
          have hRest := ih (((p + line.length) / width + 1) * width) j
          rw [lineStart]
          omega

/-- A text of lines is shown line by line, as none of them reaches the next. -/
theorem putAll_lines (hWidth : 0 < width) (s : Screen α) (lines : List (List α)) :
    LinesShown width s (s.putAll width blank (lineKeys lines)) lines := by
  induction lines generalizing s with
  | nil => exact ⟨fun _ h => by simp at h, fun _ _ h => by simp at h, fun _ _ => rfl⟩
  | cons line lines ih =>
      obtain ⟨hLine, hSame⟩ := @putGlyphs_onLine α width s.cursor blank s []
        ⟨rfl, shows_nil _ _⟩ line
      rw [List.nil_append] at hLine
      cases lines with
      | nil =>
          refine ⟨fun l hl => ?_, fun j l hl => ?_, fun q hq => hSame q (hq 0 line rfl)⟩
          · obtain rfl := Option.some.inj hl
            exact hLine.cursor
          · cases j with
            | zero =>
                obtain rfl := Option.some.inj hl
                exact hLine.shows
            | succ j => simp at hl
      | cons second rest =>
          have hAll : s.putAll width blank (lineKeys (line :: second :: rest)) =
              ((s.putAll width blank (line.map .glyph)).put width blank .newline).putAll width blank
                (lineKeys (second :: rest)) := by
            rw [lineKeys, Screen.putAll, List.foldl_append]
            · rfl
            · exact List.cons_ne_nil second rest
          generalize s.putAll width blank (line.map .glyph) = first at hLine hSame hAll
          have hShown := ih (first.put width blank .newline)
          have hCursor : (first.put width blank .newline).cursor =
              ((s.cursor + line.length) / width + 1) * width := by
            rw [← hLine.cursor]
            rfl
          have hNext := nextRow_gt hWidth (s.cursor + line.length)
          rw [hAll]
          refine ⟨fun l hl => ?_, fun j l hl => ?_, fun q hq => ?_⟩
          · rw [List.getLast?_cons_cons] at hl
            rw [hShown.cursor l hl, hCursor]
            rfl
          · cases j with
            | zero =>
                obtain rfl := Option.some.inj hl
                refine hLine.shows.congr fun q hLow hHigh => hShown.others q fun i l _ => Or.inl ?_
                have hBehind := le_lineStart hWidth (first.put width blank .newline).cursor
                  (second :: rest) i
                omega
            | succ j =>
                rw [List.getElem?_cons_succ] at hl
                have hLast := hShown.shows j l hl
                rw [hCursor] at hLast
                exact hLast
          · have hRest := hShown.others q fun j l hl => by
              rw [hCursor]
              exact hq (j + 1) l hl
            exact hRest.trans (hSame q (hq 0 line rfl))

end Lines

end TextScreen
