import LiebeOS.Kernel.ScreenText
import LiebeOS.Programs.Readline

/-! What the screen shows of a line while it is typed. `liebeos_terminal_readline` passes
every key on to `liebeos_putchar`; the screen and the line take a backspace each in their
own way. -/
namespace LiebeOS

open CharArray TextScreen

/-- The cells of characters that programs put on the screen. -/
def textCells (text : List UInt8) : List Nat := text.map fun c => terminalMakeChar c 15

/-- `liebeos_putchar` for one key after the other. -/
def showKeys (t : Terminal) (keys : List UInt8) : Terminal :=
  keys.foldl (fun t c => terminalWritechar t c 15) t

/-- The screen of a line that began at cell `start`. Its characters stand there, in front of
the cursor, but every stray backspace has removed a character in front of the line. Nothing
has been stored behind the screen. -/
structure LineShown (t t' : Terminal) (start strays : Nat) (line : List UInt8) : Prop where
  onLine : OnLine t'.screen (start - strays) (textCells line)
  before : ∀ q < start - strays, t'.screen.cells q = t.screen.cells q
  confined : Confined t'

section Keys

variable {t : Terminal} {key : UInt8} {keys line : List UInt8} {start : Nat}

/-- A backspace that finds no character goes one cell back, the other keys stay with the
line. -/
theorem shown_key (hLine : OnLine t.screen start (textCells line)) (h : Confined t)
    (hRoom : start + (editLine line key).length < vgaCells) (hKey : key ≠ 10) :
    LineShown t (terminalWritechar t key 15) start
      (if key = backspace ∧ line = [] then 1 else 0) (editLine line key) := by
  have hRow := h.row
  have hScreen := terminalWritechar_screen h.col (by unfold vgaHeight at hRow; omega) key 15
  rw [screenKey, if_neg hKey] at hScreen
  have hCursor := hLine.cursor
  unfold editLine at hRoom ⊢
  by_cases hBack : key = backspace
  · have hPut : (terminalWritechar t key 15).screen = t.screen.put vgaWidth blankCell .back := by
      rw [hScreen, if_pos (show key = 8 from hBack)]
    -- a backspace may be put anywhere
    have hConfined : Confined (terminalWritechar t key 15) := h.writechar_iff.mpr fun hEnd => by
      rcases hEnd with hNewline | ⟨hOther, _⟩
      · exact absurd hNewline hKey
      · exact absurd hBack hOther
    rw [if_pos hBack]
    by_cases hEmpty : line = []
    · subst hEmpty
      rw [if_pos ⟨hBack, rfl⟩]
      have hStart : t.screen.cursor = start := hCursor
      refine ⟨?_, fun q hq => ?_, hConfined⟩
      · rw [hPut]
        exact hLine.stray
      · rw [hPut]
        exact put_back_cells (by omega)
    · rw [if_neg fun h => hEmpty h.2]
      have hSome : textCells line ≠ [] := fun h => hEmpty (List.map_eq_nil_iff.mp h)
      have hLength := List.length_pos_iff.mpr hSome
      refine ⟨?_, fun q hq => ?_, hConfined⟩
      · rw [hPut, textCells, List.map_dropLast]
        exact hLine.back hSome
      · rw [hPut]
        exact put_back_cells (by omega)
  · have hPut : (terminalWritechar t key 15).screen =
        t.screen.put vgaWidth blankCell (.glyph (terminalMakeChar key 15)) := by
      rw [hScreen, if_neg (show ¬ key = 8 from hBack)]
    have hConfined : Confined (terminalWritechar t key 15) := by
      refine (h.writechar_shown ?_).2
      rw [if_neg hBack, List.length_append, List.length_singleton] at hRoom
      rw [textCells, List.length_map] at hCursor
      rw [screenKey, if_neg hKey, if_neg (show ¬ key = 8 from hBack)]
      change t.screen.cursor + 1 < vgaCells
      omega
    rw [if_neg fun h => hBack h.1, if_neg hBack]
    refine ⟨?_, fun q hq => ?_, hConfined⟩
    · rw [hPut, textCells, List.map_append]
      exact hLine.glyph _
    · rw [hPut]
      exact Function.update_of_ne (by omega) ..

/-- A line that stays on the screen is shown as it is edited. -/
theorem showKeys_shown (hLine : OnLine t.screen start (textCells line)) (h : Confined t)
    (hKeys : 10 ∉ keys)
    (hFits : ∀ front, front <+: keys → start + (front.foldl editLine line).length < vgaCells) :
    LineShown t (showKeys t keys) start (strayBackspaces line keys) (keys.foldl editLine line) := by
  induction keys generalizing t line start with
  | nil => exact ⟨hLine, fun _ _ => rfl, h⟩
  | cons key keys ih =>
      obtain ⟨hNext, hBefore, hConfined⟩ := shown_key hLine h
        (hFits [key] (List.cons_prefix_cons.mpr ⟨rfl, List.nil_prefix⟩))
        fun h => hKeys (h ▸ List.mem_cons_self)
      obtain ⟨hRest, hBefore', hEnd⟩ := ih hNext hConfined (fun h => hKeys (List.mem_cons_of_mem _ h))
        fun front hPrefix => by
          have hLonger := hFits (key :: front) (List.cons_prefix_cons.mpr ⟨rfl, hPrefix⟩)
          rw [List.foldl_cons] at hLonger
          omega
      rw [Nat.sub_sub] at hRest hBefore'
      rw [strayBackspaces]
      exact ⟨hRest, fun q hq => (hBefore' q hq).trans (hBefore q (by omega)), hEnd⟩

end Keys

section Line

variable {out : CharArray} {max : Int} {s t : Readline} {polls rest : List UInt8}

/-- All keys but an enter have been shown. -/
theorem readlineLoop_shows (hShown : s.shown = s.keys.filter (· ≠ enter)) (polls : List UInt8) :
    (readlineLoop max true s polls).state.shown =
      (readlineLoop max true s polls).state.keys.filter (· ≠ enter) := by
  induction s, polls using readlineLoop.induct max true with
  | case1 s polls hRoom hNone =>
      rw [readlineLoop_waiting true hRoom hNone]
      exact hShown
  | case2 s polls hRoom rest hKey =>
      rw [readlineLoop_key true hRoom hKey, if_pos rfl]
      change s.shown = (s.keys ++ [enter]).filter (· ≠ enter)
      rw [List.filter_append, hShown]
      exact (List.append_nil _).symm
  | case3 s polls hRoom key rest hKey hOther ih =>
      rw [readlineLoop_key true hRoom hKey, if_neg hOther]
      refine ih ?_
      rw [Readline.edit_keys]
      have hEdit : (((s.got key).show key true).edit key).shown = s.shown ++ [key] := by
        unfold Readline.edit
        split_ifs
        · rfl
        · rfl
      rw [hEdit, hShown]
      change _ = (s.keys ++ [key]).filter (· ≠ enter)
      rw [List.filter_append, List.filter_cons_of_pos (by simpa using hOther)]
      rfl
  | case4 s polls hFull =>
      rw [readlineLoop, if_neg hFull]
      exact hShown

/-- The keys of a line that has been read, without the enter, and the room they had. -/
theorem Left.typed (h : Left out max t) :
    ∃ keys, t.keys.filter (· ≠ enter) = keys ∧ keys <+: t.keys ∧ editedLine t.keys = keys.foldl editLine [] ∧
      strayBackspaces [] t.keys = strayBackspaces [] keys ∧
      ∀ front, front <+: keys → ((front.foldl editLine []).length : Int) ≤ max - 1 := by
  obtain ⟨u, hEditing, hEnd⟩ := h
  have hOpen : u.keys.filter (· ≠ enter) = u.keys := List.filter_eq_self.mpr fun c hc => by
    simpa using fun hEnter : c = enter => hEditing.noEnter (hEnter ▸ hc)
  have hRoom : ∀ front, front <+: u.keys → ((front.foldl editLine []).length : Int) ≤ max - 1 := by
    intro front hPrefix
    have hEnter : enter ∉ front := fun hMem => hEditing.noEnter (hPrefix.subset hMem)
    have hStored : ((storedLine front).length : Int) ≤ max - 1 := by
      by_cases hSame : front = u.keys
      · rw [hSame, ← hEditing.length]
        exact hEditing.inside
      · exact Int.le_of_lt (hEditing.notBefore front hPrefix hSame)
    rw [storedLine_eq hEnter, List.length_append, editedLine_of_open hEnter] at hStored
    omega
  refine ⟨u.keys, ?_⟩
  rcases hEnd with ⟨_, rfl⟩ | ⟨_, rfl⟩
  · exact ⟨hOpen, List.prefix_refl _, editedLine_of_open hEditing.noEnter, rfl, hRoom⟩
  · have hKeys : (u.got enter).finish.keys = u.keys ++ [enter] := rfl
    rw [hKeys, strayBackspaces_enter, editedLine_enter hEditing.noEnter]
    refine ⟨?_, List.prefix_append _ _, editedLine_of_open hEditing.noEnter, rfl, hRoom⟩
    rw [List.filter_append, hOpen]
    exact List.append_nil _

end Line

/-- A line is read with output, and the screen has room for `max` characters behind the
cursor. On the screen the edited line stands in front of the cursor and what was there before
is left alone, but each backspace on an empty line takes a character of that away; the array
has the same line, with a backspace in front of it if those were odd in number. -/
theorem terminalReadline_shows {max : Int} (hMax : 1 ≤ max) (out : CharArray) (t : Terminal)
    (polls rest : List UInt8) (s : Readline)
    (hReturned : liebeosTerminalReadline out max true polls = .returned s rest)
    (hKeys : 10 ∉ s.keys) (hConfined : Confined t) (hRoom : t.screen.cursor + max ≤ vgaCells) :
    LineShown t (showKeys t s.shown) t.screen.cursor (strayBackspaces [] s.keys)
        (editedLine s.keys) ∧
      HoldsText s.out.cells 0 (strayText (strayBackspaces [] s.keys) ++ editedLine s.keys) := by
  have hSound := readlineLoop_sound true (editing_start hMax out) polls
  have hShown := @readlineLoop_shows max ⟨0, out, [], []⟩ rfl polls
  rw [← liebeosTerminalReadline, hReturned] at hSound hShown
  have hShown' : s.shown = s.keys.filter (· ≠ enter) := hShown
  obtain ⟨keys, hTyped, hPrefix, hLine, hStrays, hLength⟩ := hSound.1.typed
  refine ⟨?_, hSound.1.text⟩
  rw [hShown', hTyped, hLine, hStrays]
  refine showKeys_shown ⟨rfl, shows_nil _ _⟩ hConfined (fun h => hKeys (hPrefix.subset h))
    fun front hFront => ?_
  have hShort := hLength front hFront
  omega

/-- At the shell's prompt a character is typed and two are taken back. -/
theorem terminalReadline_shows_prompt :
    ∃ s rest, liebeosTerminalReadline ⟨fun _ => 1, []⟩ 1024 true [97, 8, 8, 13] = .returned s rest ∧
      LineShown ⟨fun _ => 0, 3, 2, []⟩ (showKeys ⟨fun _ => 0, 3, 2, []⟩ s.shown) 242 1 [] ∧
      HoldsText s.out.cells 0 [backspace] := by
  let typed (s : Readline) (key : UInt8) : Readline := ((s.got key).show key true).edit key
  have hCall : liebeosTerminalReadline ⟨fun _ => 1, []⟩ 1024 true [97, 8, 8, 13] =
      .returned ((typed (typed (typed ⟨0, ⟨fun _ => 1, []⟩, [], []⟩ 97) 8) 8).got 13).finish [] := by
    have hFirst : liebeosGetkeyBlock [97, 8, 8, 13] = some (97, [8, 8, 13]) := rfl
    have hSecond : liebeosGetkeyBlock [8, 8, 13] = some (8, [8, 13]) := rfl
    have hThird : liebeosGetkeyBlock [8, 13] = some (8, [13]) := rfl
    have hEnter : liebeosGetkeyBlock [13] = some (13, []) := rfl
    rw [liebeosTerminalReadline, readlineLoop_key true (by decide) hFirst, if_neg (by decide),
      readlineLoop_key true (by decide) hSecond, if_neg (by decide),
      readlineLoop_key true (by decide) hThird, if_neg (by decide),
      readlineLoop_key true (by decide) hEnter, if_pos (by decide)]
  have hShows := terminalReadline_shows (show (1 : Int) ≤ 1024 by decide) ⟨fun _ => 1, []⟩
    ⟨fun _ => 0, 3, 2, []⟩ _ _ _ hCall (by decide)
    ⟨by decide, by decide, fun _ hi => absurd hi List.not_mem_nil⟩ (by decide)
  exact ⟨_, _, hCall, hShows⟩

end LiebeOS
