import Mathlib.Data.List.TakeWhile
import LiebeOS.Kernel.Terminal
import LiebeOS.Lib.TextScreen
import LiebeOS.Task.StringFromTask

/-! What the text screen of `kernel.c` shows. Its two variables are one place in a long line
of cells; a text that a program prints goes from there on, and is shown if it ends on the
screen. -/
namespace LiebeOS

open MachineInt Bytes TextScreen

/-- The cell that `terminal_backspace` leaves. -/
def blankCell : Nat := terminalMakeChar 32 15

/-- What a character is to the screen. -/
def screenKey (color c : UInt8) : Key Nat :=
  if c = 10 then .newline else if c = 8 then .back else .glyph (terminalMakeChar c color)

/-- The number of cells on the screen. -/
def vgaCells : Nat := vgaWidth * vgaHeight

/-- The cells from `video_mem` on. Those from `vgaCells` on are other memory, which is not to
be reached. -/
def Terminal.screen (t : Terminal) : Screen Nat :=
  ⟨fun i => t.videoMem i, t.row * vgaWidth + t.col⟩

section Refinement

variable {t : Terminal} {c color : UInt8}

theorem terminalPutchar_cells (t : Terminal) (x y : Nat) (c color : UInt8) :
    (fun i : Nat => (terminalPutchar t x y c color).videoMem i) =
      Function.update (fun i : Nat => t.videoMem i) (y * vgaWidth + x) (terminalMakeChar c color) := by
  funext i
  change Function.update t.videoMem _ _ _ = _
  by_cases hSame : i = y * vgaWidth + x
  · have hPlace : ((i : Nat) : Int) = y * vgaWidth + x := by
      rw [hSame]
      push_cast
      rfl
    rw [hPlace, Function.update_self, hSame, Function.update_self]
  · have hPlace : ((i : Nat) : Int) ≠ y * vgaWidth + x := fun h => hSame (by
      have hNat : (i : Int) = ((y * vgaWidth + x : Nat) : Int) := by
        rw [h]
        push_cast
        rfl
      exact_mod_cast hNat)
    rw [Function.update_of_ne hPlace, Function.update_of_ne hSame]

theorem terminalBackspace_screen (hCol : t.col < vgaWidth) (hRow : t.row + 1 < 65536) :
    (terminalBackspace t).screen = t.screen.put vgaWidth blankCell .back := by
  have hWidth : vgaWidth = 80 := rfl
  unfold terminalBackspace
  split_ifs with hCorner hStart
  · have hZero : t.screen.cursor = 0 := by
      change t.row * vgaWidth + t.col = 0
      rw [hCorner.1, hCorner.2, Nat.zero_mul]
    rw [Screen.put, if_pos hZero]
  · have hUp : (t.row + 65535) % 65536 = t.row - 1 := by omega
    have hPlace : (t.row - 1) * vgaWidth + 79 = t.row * vgaWidth + t.col - 1 := by
      rw [hWidth]
      omega
    have hSome : ¬ t.screen.cursor = 0 := by
      change ¬ t.row * vgaWidth + t.col = 0
      rw [hWidth]
      omega
    rw [Screen.put, if_neg hSome]
    dsimp only
    rw [hUp]
    rw [Terminal.screen, terminalPutchar_cells]
    change Screen.mk (Function.update _ ((t.row - 1) * vgaWidth + 79) _)
      ((t.row - 1) * vgaWidth + 79) = _
    rw [hPlace]
    rfl
  · have hLeft : (t.col + 65535) % 65536 = t.col - 1 := by omega
    have hPlace : t.row * vgaWidth + (t.col - 1) = t.row * vgaWidth + t.col - 1 := by omega
    have hSome : ¬ t.screen.cursor = 0 := by
      change ¬ t.row * vgaWidth + t.col = 0
      omega
    rw [Screen.put, if_neg hSome]
    dsimp only
    rw [hLeft]
    rw [Terminal.screen, terminalPutchar_cells]
    change Screen.mk (Function.update _ (t.row * vgaWidth + (t.col - 1)) _)
      (t.row * vgaWidth + (t.col - 1)) = _
    rw [hPlace]
    rfl

/-- `terminal_writechar` puts one key on the screen. -/
theorem terminalWritechar_screen (hCol : t.col < vgaWidth) (hRow : t.row + 1 < 65536)
    (c color : UInt8) :
    (terminalWritechar t c color).screen =
      t.screen.put vgaWidth blankCell (screenKey color c) := by
  have hWidth : vgaWidth = 80 := rfl
  have hDown : (t.row + 1) % 65536 = t.row + 1 := Nat.mod_eq_of_lt hRow
  have hRight : (t.col + 1) % 65536 = t.col + 1 := by omega
  unfold terminalWritechar screenKey
  split_ifs with hNewline hBack
  · rw [hDown]
    have hNext : (t.row * vgaWidth + t.col) / vgaWidth = t.row := by
      rw [hWidth] at hCol ⊢
      omega
    change Screen.mk _ ((t.row + 1) * vgaWidth + 0) =
      Screen.mk _ (((t.row * vgaWidth + t.col) / vgaWidth + 1) * vgaWidth)
    rw [hNext, Nat.add_zero]
    rfl
  · exact terminalBackspace_screen hCol hRow
  · dsimp only
    rw [terminalPutchar_col, terminalPutchar_row, hRight, hDown]
    have hCells := terminalPutchar_cells t t.col t.row c color
    split_ifs with hWrap
    · have hPlace : (t.row + 1) * vgaWidth + 0 = t.row * vgaWidth + t.col + 1 := by
        rw [hWidth] at hCol hWrap ⊢
        omega
      change Screen.mk (fun i : Nat => (terminalPutchar t t.col t.row c color).videoMem i)
        ((t.row + 1) * vgaWidth + 0) = _
      rw [hCells, hPlace]
      rfl
    · change Screen.mk (fun i : Nat => (terminalPutchar t t.col t.row c color).videoMem i)
        (t.row * vgaWidth + (t.col + 1)) = _
      rw [hCells]
      rfl

/-- A key that leaves the cursor on the screen is put on the screen. -/
theorem Confined.writechar_shown (h : Confined t) {c color : UInt8}
    (hStays : (t.screen.put vgaWidth blankCell (screenKey color c)).cursor < vgaCells) :
    (terminalWritechar t c color).screen = t.screen.put vgaWidth blankCell (screenKey color c) ∧
      Confined (terminalWritechar t c color) := by
  have hCol := h.col
  have hRow := h.row
  refine ⟨terminalWritechar_screen hCol (by unfold vgaHeight at hRow; omega) c color,
    h.writechar_iff.mpr ?_⟩
  unfold screenKey at hStays
  rintro (hNewline | ⟨hBack, hLast⟩)
  · rw [if_pos hNewline] at hStays
    change ((t.row * vgaWidth + t.col) / vgaWidth + 1) * vgaWidth < vgaCells at hStays
    unfold vgaCells vgaWidth vgaHeight at *
    omega
  · split_ifs at hStays with hNewline
    · change ((t.row * vgaWidth + t.col) / vgaWidth + 1) * vgaWidth < vgaCells at hStays
      unfold vgaCells vgaWidth vgaHeight at *
      omega
    · change t.row * vgaWidth + t.col + 1 < vgaCells at hStays
      unfold vgaCells vgaWidth vgaHeight at *
      omega

/-- So characters put one after the other go to the screen, as long as the cursor stays on
it. -/
theorem writechars_screen (color : UInt8) (text : List UInt8) (h : Confined t)
    (hStays : ∀ front, front <+: text →
      (t.screen.putAll vgaWidth blankCell (front.map (screenKey color))).cursor < vgaCells) :
    (text.foldl (fun t c => terminalWritechar t c color) t).screen =
        t.screen.putAll vgaWidth blankCell (text.map (screenKey color)) ∧
      Confined (text.foldl (fun t c => terminalWritechar t c color) t) := by
  induction text generalizing t with
  | nil => exact ⟨rfl, h⟩
  | cons c text ih =>
      have hFirst := hStays [c] (List.cons_prefix_cons.mpr ⟨rfl, List.nil_prefix⟩)
      obtain ⟨hScreen, hConfined⟩ := h.writechar_shown hFirst
      obtain ⟨hRest, hEnd⟩ := ih hConfined fun front hFront => by
        rw [hScreen]
        exact hStays (c :: front) (List.cons_prefix_cons.mpr ⟨rfl, hFront⟩)
      refine ⟨?_, hEnd⟩
      rw [List.foldl_cons, hRest, hScreen]
      rfl

end Refinement

/-! ### A text -/

/-- A line that can be shown: no NUL ends it, and no backspace or newline is in it. -/
def PlainLine (line : List UInt8) : Prop := ∀ c ∈ line, c ≠ 0 ∧ c ≠ 8 ∧ c ≠ 10

/-- The characters of a text of these lines. -/
def joinLines (lines : List (List UInt8)) : List UInt8 := [10].intercalate lines

/-- The cells of the lines. -/
def lineCells (color : UInt8) (lines : List (List UInt8)) : List (List Nat) :=
  lines.map fun line => line.map fun c => terminalMakeChar c color

section Text

variable {t : Terminal} {lines : List (List UInt8)} {line : List UInt8}

theorem PlainLine.keys (h : PlainLine line) (color : UInt8) :
    line.map (screenKey color) = (line.map fun c => terminalMakeChar c color).map .glyph := by
  rw [List.map_map]
  refine List.map_congr_left fun c hc => ?_
  obtain ⟨_, hBack, hNewline⟩ := h c hc
  rw [screenKey, if_neg hNewline, if_neg hBack]
  rfl

theorem joinLines_cons (line second : List UInt8) (rest : List (List UInt8)) :
    joinLines (line :: second :: rest) = line ++ 10 :: joinLines (second :: rest) := by
  simp [joinLines, List.intercalate]

theorem joinLines_keys (color : UInt8) (h : ∀ line ∈ lines, PlainLine line) :
    (joinLines lines).map (screenKey color) = lineKeys (lineCells color lines) := by
  induction lines with
  | nil => rfl
  | cons line lines ih =>
      have hLine := (h line List.mem_cons_self).keys color
      cases lines with
      | nil =>
          have hJoin : joinLines [line] = line := by simp [joinLines]
          rw [hJoin, hLine]
          rfl
      | cons second rest =>
          have hRest := ih fun l hl => h l (List.mem_cons_of_mem _ hl)
          rw [joinLines_cons, List.map_append, hLine, List.map_cons, hRest]
          rfl

theorem joinLines_nonzero (h : ∀ line ∈ lines, PlainLine line) : ∀ c ∈ joinLines lines, c ≠ 0 := by
  induction lines with
  | nil => simp [joinLines]
  | cons line lines ih =>
      have hLine := fun c hc => (h line List.mem_cons_self c hc).1
      cases lines with
      | nil =>
          have hJoin : joinLines [line] = line := by simp [joinLines]
          rw [hJoin]
          exact hLine
      | cons second rest =>
          have hRest := ih fun l hl => h l (List.mem_cons_of_mem _ hl)
          intro c hc
          rw [joinLines_cons, List.mem_append, List.mem_cons] at hc
          rcases hc with hFirst | rfl | hLater
          · exact hLine c hFirst
          · decide
          · exact hRest c hLater

/-- Every line ends on the screen, when the first begins at `cursor`. -/
def LinesInside (cursor : Nat) (lines : List (List UInt8)) : Prop :=
  ∀ j line, lines[j]? = some line → lineStart vgaWidth cursor lines j + line.length < vgaCells

theorem lineStart_cells (color : UInt8) (p : Nat) (lines : List (List UInt8)) (j : Nat) :
    lineStart vgaWidth p (lineCells color lines) j = lineStart vgaWidth p lines j := by
  induction lines generalizing p j with
  | nil => cases j <;> rfl
  | cons line lines ih =>
      cases j with
      | zero => rfl
      | succ j =>
          have hLength : (line.map fun c => terminalMakeChar c color).length = line.length :=
            List.length_map _
          change lineStart vgaWidth (((p + (line.map fun c => terminalMakeChar c color).length) /
            vgaWidth + 1) * vgaWidth) (lineCells color lines) j = _
          rw [hLength, ih, lineStart]

/-- With these lines the cursor stays on the screen. -/
theorem LinesInside.stays (hInside : LinesInside t.screen.cursor lines) (h : Confined t)
    (hPlain : ∀ line ∈ lines, PlainLine line) {front : List UInt8} (hFront : front <+: joinLines lines) :
    (t.screen.putAll vgaWidth blankCell (front.map (screenKey 15))).cursor < vgaCells := by
  obtain ⟨rest, hRest⟩ := hFront
  have hKeys : front.map (screenKey 15) ++ rest.map (screenKey 15) =
      lineKeys (lineCells 15 lines) := by
    rw [← List.map_append, hRest, joinLines_keys 15 hPlain]
  have hForward : .back ∉ rest.map (screenKey 15) := fun hBack =>
    lineKeys_forward (lineCells 15 lines) (hKeys ▸ List.mem_append_right _ hBack)
  refine Nat.lt_of_le_of_lt (@le_putAll_cursor _ vgaWidth blankCell vgaWidth_pos _ _ hForward) ?_
  rw [← putAll_append, hKeys]
  cases hLast : lines.getLast? with
  | none =>
      have hCol := h.col
      have hRow := h.row
      rw [List.getLast?_eq_none_iff.mp hLast]
      change t.row * vgaWidth + t.col < vgaCells
      unfold vgaCells vgaWidth vgaHeight at *
      omega
  | some line =>
      have hEnds := (@putAll_lines _ vgaWidth blankCell vgaWidth_pos t.screen (lineCells 15 lines)).cursor
        (line.map fun c => terminalMakeChar c 15) (by rw [lineCells, List.getLast?_map, hLast]; rfl)
      rw [hEnds, lineStart_cells, lineCells, List.length_map, List.length_map]
      refine hInside _ line ?_
      rwa [← List.getLast?_eq_getElem?]

/-- `print` shows its text line by line from the cursor on, and stores nowhere else. -/
theorem print_shows (h : Confined t) (hPlain : ∀ line ∈ lines, PlainLine line)
    (hInside : LinesInside t.screen.cursor lines) :
    LinesShown vgaWidth t.screen (print t (joinLines lines)).screen (lineCells 15 lines) ∧
      Confined (print t (joinLines lines)) := by
  have hWhole : (joinLines lines).takeWhile (· ≠ 0) = joinLines lines :=
    List.takeWhile_eq_self_iff.mpr fun c hc => by simpa using joinLines_nonzero hPlain c hc
  obtain ⟨hScreen, hConfined⟩ := writechars_screen 15 _ h fun front hFront =>
    hInside.stays h hPlain hFront
  rw [print, hWhole]
  refine ⟨?_, hConfined⟩
  rw [hScreen, joinLines_keys 15 hPlain]
  exact putAll_lines vgaWidth_pos t.screen _

end Text

/-! ### The system call -/

/-- `print` of the string at `p`. -/
def printAt (t : Terminal) (mem : Memory) (p : Nat) : Option Terminal :=
  (kernelStrlen mem p).map fun len => print t ((List.range len).map fun i => mem (behind p i))

/-- `isr80h_command1_print` for the message at `message` in the task's memory, with its
buffer at `buf`. Whether the message could be copied is not asked. -/
def isr80hCommand1Print (m : Machine) (directory message buf : Nat) (t : Terminal) :
    Option (Machine × Terminal) :=
  (copyStringFromTask m directory message buf ((1024 : Nat) : Int)).bind fun (_, m) =>
    (printAt t m.kernel.mem buf).map fun t => (m, t)

/-- The task has `string` at `virt`, as far as the system call reads it, and in pages that
are none of the call's own. -/
structure TaskString (m : Machine) (directory : Nat) (table : Nat → Nat) (virt : Nat)
    (string : List UInt8) : Prop where
  nonzero : ∀ c ∈ string, c ≠ 0
  bytes : ∀ i < 1023, ∀ c, string[i]? = some c → taskByte m.kernel.mem directory virt i = some c
  ends : string.length < 1023 → taskByte m.kernel.mem directory virt string.length = some 0
  apart : ∀ i < 1023, i ≤ string.length →
    ByteApart m.kernel.mem directory table (kzalloc m.kernel 1024).1 (behind virt i)

section Print

variable {m : Machine} {directory buf virt : Nat} {table : Nat → Nat} {t : Terminal}
  {string : List UInt8}

/-- The bytes that the call looks at are those of the string and its NUL. -/
theorem TaskString.read (h : TaskString m directory table virt string) {i : Nat}
    (hRead : ByteRead (taskByte m.kernel.mem directory virt) 1024 i) :
    i < 1023 ∧ i ≤ string.length := by
  obtain ⟨hShort, hSome⟩ := hRead
  refine ⟨by omega, Nat.le_of_not_lt fun hBehind => ?_⟩
  exact hSome string.length hBehind (h.ends (by omega))

theorem TaskString.there (h : TaskString m directory table virt string) {i : Nat}
    (hShort : i < 1023) (hInside : i ≤ string.length) :
    taskByte m.kernel.mem directory virt i ≠ none := by
  rcases Nat.lt_or_eq_of_le hInside with hChar | rfl
  · rw [h.bytes i hShort _ (List.getElem?_eq_getElem hChar)]
    exact Option.some_ne_none _
  · rw [h.ends hShort]
    exact Option.some_ne_none _

/-- What has been copied is the string, cut behind 1023 characters. -/
theorem TaskString.copied (h : TaskString m directory table virt string) {out : Nat → UInt8}
    {n : Nat} (hCopied : StringCopied (taskByte m.kernel.mem directory virt) 1024 out n) :
    (List.range n).map out = string.take 1023 ∧ n = min 1023 string.length := by
  have hInside := hCopied.inside
  have hNotBehind : n ≤ string.length := Nat.le_of_not_lt fun hBehind => by
    have hEnd := (hCopied.bytes string.length hBehind)
    rw [h.ends (by omega)] at hEnd
    exact hEnd.2 (Option.some.inj hEnd.1).symm
  have hLength : n = min 1023 string.length := by
    rcases hCopied.whole with hFull | hNul
    · omega
    · by_contra hShort
      have hChar : n < string.length := by omega
      rw [h.bytes n (by omega) _ (List.getElem?_eq_getElem hChar)] at hNul
      exact h.nonzero _ (List.getElem_mem hChar) (Option.some.inj hNul)
  refine ⟨List.ext_getElem? fun i => ?_, hLength⟩
  rw [List.getElem?_take]
  by_cases hi : i < n
  · rw [if_pos (by omega), List.getElem?_map, List.getElem?_range hi]
    have hChar : i < string.length := by omega
    have hByte := (hCopied.bytes i hi).1
    rw [h.bytes i (by omega) _ (List.getElem?_eq_getElem hChar)] at hByte
    rw [List.getElem?_eq_getElem hChar]
    exact hByte.symm
  · rw [List.getElem?_eq_none (by rw [List.length_map, List.length_range]; omega)]
    split_ifs with hCut
    · exact (List.getElem?_eq_none (by omega)).symm
    · rfl

theorem printAt_copied {mem : Memory} {read : Nat → Option UInt8} {n : Nat}
    (hBuf : buf + 1024 ≤ 4294967296)
    (hCopied : StringCopied read 1024 (fun i => mem (buf + i)) n) :
    printAt t mem buf = some (print t ((List.range n).map fun i => mem (buf + i))) := by
  have hInside := hCopied.inside
  have hPlace : ∀ i, i ≤ n → behind buf i = buf + i := fun i hi => behind_of_lt (by omega)
  have hLen : kernelStrlen mem buf = some n := by
    rcases kernelStrlen_cases mem buf with ⟨_, hEndless⟩ | ⟨len, hFound, hNul, hSome⟩
    · exact absurd (hPlace n (Nat.le_refl n) ▸ hCopied.ends) (hEndless n (by omega))
    · rcases Nat.lt_trichotomy len n with hShort | rfl | hLong
      · rw [hPlace len (Nat.le_of_lt hShort)] at hNul
        exact absurd hNul (hCopied.bytes len hShort).2
      · exact hFound
      · exact absurd (hPlace n (Nat.le_refl n) ▸ hCopied.ends) (hSome n hLong)
  rw [printAt, hLen, Option.map_some]
  refine congrArg (fun text => some (print t text)) (List.map_congr_left fun i hi => ?_)
  rw [hPlace i (Nat.le_of_lt (List.mem_range.mp hi))]

end Print

/-- A program prints. Unless the heap has no block left, and as long as its lines end on the
screen, what appears there is the string of the program, cut behind 1023 characters, line by
line from the cursor on; no other cell changes, no store has left the screen, and heap and
pages are afterwards as before. -/
theorem isr80hCommand1Print_shows {m : Machine} {directory buf virt : Nat} {table : Nat → Nat}
    {t : Terminal} {string : List UInt8} (h : TaskSpace m.kernel directory table)
    (hLoaded : m.loaded = m.kernelDirectory)
    (hBuffer : KernelBuffer m.kernel.heap directory table buf 1024)
    (hString : TaskString m directory table virt string)
    (hScratch : (kzalloc m.kernel 1024).1 ≠ 0) (lines : List (List UInt8))
    (hLines : string.take 1023 = joinLines lines) (hPlain : ∀ line ∈ lines, PlainLine line)
    (hConfined : Confined t) (hInside : LinesInside t.screen.cursor lines) :
    ∃ m' t', isr80hCommand1Print m directory virt buf t = some (m', t') ∧
      Transparent m directory m' ∧
      LinesShown vgaWidth t.screen t'.screen (lineCells 15 lines) ∧ Confined t' := by
  obtain ⟨hReturned, hReturns⟩ := @copyStringFromTask_transparent m directory buf 1024 table h hLoaded
    (by decide) (by decide) hBuffer virt
  obtain ⟨res, m', hCall, hFailed⟩ := hReturns fun i hRead => by
    obtain ⟨hShort, hInside⟩ := hString.read hRead
    exact ⟨hString.apart i hShort hInside, hString.there hShort hInside⟩
  obtain rfl : res = 0 := by
    by_contra hError
    exact hScratch (hFailed hError)
  obtain ⟨hTransparent, hCopy⟩ := hReturned 0 m' hCall
  obtain ⟨n, hCopied⟩ := hCopy rfl fun i hRead => by
    obtain ⟨hShort, hInside⟩ := hString.read hRead
    exact hString.apart i hShort hInside
  obtain ⟨hText, hLength⟩ := hString.copied hCopied
  have hPrint := @printAt_copied buf t m'.kernel.mem _ n hBuffer.inside hCopied
  rw [hText, hLines] at hPrint
  refine ⟨m', _, ?_, hTransparent, print_shows hConfined hPlain hInside⟩
  rw [isr80hCommand1Print, hCall, Option.bind_some]
  dsimp only
  rw [hPrint]
  rfl

/-- The first task has one page of the heap to spare for a copy. -/
theorem firstTask_scratch {size : Nat} (hLow : 1 ≤ size) (hHigh : size ≤ 4096) :
    (kzalloc firstTask size).1 ≠ 0 ∧ (kzalloc firstTask size).1 + 4096 ≤ 0x07400000 := by
  have hBlocks : blocksOf size ≤ 1000 := by
    unfold blocksOf
    omega
  obtain ⟨b, hBlocks, hGrant⟩ :=
    kzalloc_of_run firstTask_space.heap hLow (firstTask_hasRun hBlocks)
  have hAddress := hBlocks.address firstTask_space.heap (blocksOf_pos size)
  have hPositive := blocksOf_pos size
  rw [hGrant]
  dsimp only
  omega

theorem isr80hCommand1Print_shows_character :
    ∃ m' t', isr80hCommand1Print ⟨firstTask, 0x2000, 0x2000⟩ 0x01000000 0x0C00003C 0x00100000
        ⟨fun _ => 0, 0, 79, []⟩ = some (m', t') ∧
      Transparent ⟨firstTask, 0x2000, 0x2000⟩ 0x01000000 m' ∧
      LinesShown vgaWidth ⟨fun _ => 0, 79⟩ t'.screen (lineCells 15 [[7]]) ∧ Confined t' := by
  obtain ⟨hSome, hEnd⟩ := firstTask_scratch (show 1 ≤ 1024 by decide) (by decide)
  have hApart : ∀ virt, 0x07400000 ≤ virt →
      0x07400000 ≤ pagingGetPhysicalAddress firstTask.mem 0x01000000 virt →
      ByteApart firstTask.mem 0x01000000 (fun d => 0x01001000 + 4096 * d)
        (kzalloc firstTask 1024).1 virt := by
    intro virt hVirt hPhysical
    refine ⟨by omega, by omega, fun hIn => ?_, fun ⟨d, hd, hTable⟩ => ?_⟩
    · have hTableEnd := hIn.2
      omega
    · dsimp only at hTable
      omega
  have hString : TaskString ⟨firstTask, 0x2000, 0x2000⟩ 0x01000000 (fun d => 0x01001000 + 4096 * d)
      0x0C00003C [7] := by
    refine ⟨List.forall_mem_singleton.mpr (by decide), fun i _ c hc => ?_, fun _ => by decide,
      fun i _ hi => ?_⟩
    · obtain ⟨hi, rfl⟩ := List.getElem?_eq_some_iff.mp hc
      obtain rfl : i = 0 := by simpa using hi
      exact show taskByte firstTask.mem 0x01000000 0x0C00003C 0 = some 7 by decide
    · have hShort : i = 0 ∨ i = 1 := by
        rw [List.length_singleton] at hi
        omega
      rcases hShort with rfl | rfl
      · exact hApart _ (by decide) (by decide)
      · exact hApart _ (by decide) (by decide)
  have hSpace : TaskSpace firstTask 0x01000000 fun d => 0x01001000 + 4096 * d :=
    { toAddressSpace := firstTask_space
      present := fun d hd => by
        rw [firstTask_pointer hd]
        omega }
  have hPlain : ∀ line ∈ [[7]], PlainLine line :=
    List.forall_mem_singleton.mpr (List.forall_mem_singleton.mpr (by decide))
  have hInside : LinesInside 79 [[7]] := by
    intro j line hLine
    obtain ⟨hj, rfl⟩ := List.getElem?_eq_some_iff.mp hLine
    obtain rfl : j = 0 := by simpa using hj
    exact show 79 + 1 < vgaCells by decide
  exact isr80hCommand1Print_shows (m := ⟨firstTask, 0x2000, 0x2000⟩) hSpace rfl
    (firstTask_buffer (by decide) (by decide)) hString hSome [[7]] rfl hPlain
    ⟨by decide, by decide, fun _ hi => absurd hi List.not_mem_nil⟩ hInside

end LiebeOS
