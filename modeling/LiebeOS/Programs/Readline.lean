import Mathlib.Algebra.Group.Nat.Even
import Mathlib.Data.List.TakeWhile
import LiebeOS.Lib.CharArray

/-! `liebeos_terminal_readline` of the programs' `liebeos.c`. Its index is both the length
of the line and the counter of a `for` loop, which a backspace sets back. -/
namespace LiebeOS

open CharArray

def enter : UInt8 := 13

def backspace : UInt8 := 0x08

/-- `liebeos_getkey_block` on the values that `liebeos_getkey` is going to return; 0 is no
key. Without a key among them it is still waiting. -/
def liebeosGetkeyBlock : List UInt8 → Option (UInt8 × List UInt8)
  | [] => none
  | val :: polls => if val = 0 then liebeosGetkeyBlock polls else some (val, polls)

theorem liebeosGetkeyBlock_some {polls rest : List UInt8} {key : UInt8}
    (h : liebeosGetkeyBlock polls = some (key, rest)) :
    key ≠ 0 ∧ ∃ front, polls = front ++ rest ∧ front ≠ [] ∧ front.filter (· ≠ 0) = [key] := by
  induction polls with
  | nil => exact absurd h (by simp [liebeosGetkeyBlock])
  | cons val polls ih =>
      rw [liebeosGetkeyBlock] at h
      split_ifs at h with hNone
      · obtain ⟨hKey, front, rfl, _, hFront⟩ := ih h
        refine ⟨hKey, val :: front, rfl, List.cons_ne_nil _ _, ?_⟩
        rw [List.filter_cons_of_neg (by simpa using hNone), hFront]
      · obtain ⟨rfl, rfl⟩ := Prod.mk.inj (Option.some.inj h)
        exact ⟨hNone, [val], rfl, List.cons_ne_nil _ _, List.filter_cons_of_pos (by simpa using hNone)⟩

theorem liebeosGetkeyBlock_length {polls rest : List UInt8} {key : UInt8}
    (h : liebeosGetkeyBlock polls = some (key, rest)) : rest.length < polls.length := by
  obtain ⟨_, front, rfl, hFront, _⟩ := liebeosGetkeyBlock_some h
  have hPos := List.length_pos_iff.mpr hFront
  rw [List.length_append]
  omega

/-- The variables of the loop, what has been put on the terminal and the keys so far. -/
structure Readline where
  i : Int
  out : CharArray
  shown : List UInt8
  keys : List UInt8

def Readline.got (s : Readline) (key : UInt8) : Readline := { s with keys := s.keys ++ [key] }

def Readline.show (s : Readline) (key : UInt8) (outputWhileTyping : Bool) : Readline :=
  if outputWhileTyping then { s with shown := s.shown ++ [key] } else s

/-- The rest of the body for a key other than enter, and the `i++` of the loop. -/
def Readline.edit (s : Readline) (key : UInt8) : Readline :=
  if key = backspace ∧ 1 ≤ s.i then
    { s with out := s.out.store (s.i - 1) 0, i := s.i - 2 + 1 }
  else { s with out := s.out.store s.i key, i := s.i + 1 }

/-- The NUL behind the line. -/
def Readline.finish (s : Readline) : Readline := { s with out := s.out.store s.i 0 }

/-- A call waits for a key, or has come back with polls left over. -/
inductive ReadlineResult where
  | waiting (s : Readline)
  | returned (s : Readline) (polls : List UInt8)

def ReadlineResult.state : ReadlineResult → Readline
  | .waiting s => s
  | .returned s _ => s

def readlineLoop (max : Int) (outputWhileTyping : Bool) (s : Readline) (polls : List UInt8) :
    ReadlineResult :=
  if s.i < max - 1 then
    match _hKey : liebeosGetkeyBlock polls with
    | none => .waiting s
    | some (key, rest) =>
        if key = enter then .returned (s.got key).finish rest
        else
          readlineLoop max outputWhileTyping (((s.got key).show key outputWhileTyping).edit key) rest
  else .returned s.finish polls
termination_by polls.length
decreasing_by exact liebeosGetkeyBlock_length _hKey

def liebeosTerminalReadline (out : CharArray) (max : Int) (outputWhileTyping : Bool)
    (polls : List UInt8) : ReadlineResult :=
  readlineLoop max outputWhileTyping ⟨0, out, [], []⟩ polls

/-! ### Editing a line -/

/-- A backspace removes the last character, if there is one. -/
def editLine (line : List UInt8) (key : UInt8) : List UInt8 :=
  if key = backspace then line.dropLast else line ++ [key]

/-- The line that keys in front of an enter make. -/
def editedLine (keys : List UInt8) : List UInt8 := (keys.takeWhile (· ≠ enter)).foldl editLine []

/-- Reading has come to its end with these keys. -/
def Stopped (max : Int) (keys : List UInt8) : Prop :=
  enter ∈ keys ∨ max - 1 ≤ (editedLine keys).length

/-- `out` is the line of the keys, and with the last of them reading had to stop. -/
structure LineRead (max : Int) (s : Readline) : Prop where
  text : HoldsText s.out.cells 0 (editedLine s.keys)
  noBackspace : backspace ∉ editedLine s.keys
  stopped : Stopped max s.keys
  notBefore : ∀ front, front <+: s.keys → front ≠ s.keys → ¬ Stopped max front

/-- How often a backspace finds no character to remove. -/
def strayBackspaces (line : List UInt8) : List UInt8 → Nat
  | [] => 0
  | key :: keys =>
      (if key = backspace ∧ line = [] then 1 else 0) + strayBackspaces (editLine line key) keys

/-- What the loop makes of a key: a backspace that finds nothing is a character. -/
def storeLine (line : List UInt8) (key : UInt8) : List UInt8 :=
  if key = backspace ∧ line ≠ [] then line.dropLast else line ++ [key]

def storedLine (keys : List UInt8) : List UInt8 := keys.foldl storeLine []

/-- Every second stray backspace removes the one before it. -/
def strayText (n : Nat) : List UInt8 := if Even n then [] else [backspace]

section Lines

variable {line keys : List UInt8} {key : UInt8}

theorem storeLine_stray (n : Nat) (line : List UInt8) (key : UInt8) :
    storeLine (strayText n ++ line) key =
      strayText (n + if key = backspace ∧ line = [] then 1 else 0) ++ editLine line key := by
  by_cases hKey : key = backspace
  · by_cases hLine : line = []
    · subst hKey hLine
      rw [if_pos ⟨rfl, rfl⟩, editLine, if_pos rfl, storeLine, strayText, strayText]
      by_cases hEven : Even n
      · simp [hEven, Nat.even_add_one]
      · simp [hEven, Nat.even_add_one]
    · rw [if_neg (fun h => hLine h.2), storeLine,
        if_pos ⟨hKey, List.append_ne_nil_of_right_ne_nil _ hLine⟩, editLine, if_pos hKey,
        List.dropLast_append_of_ne_nil hLine]
      rfl
  · rw [if_neg (fun h => hKey h.1), storeLine, if_neg (fun h => hKey h.1), editLine, if_neg hKey,
      List.append_assoc]
    rfl

/-- The loop and the editing of a line differ by a character in front at most. -/
theorem foldl_storeLine (n : Nat) (line keys : List UInt8) :
    keys.foldl storeLine (strayText n ++ line) =
      strayText (n + strayBackspaces line keys) ++ keys.foldl editLine line := by
  induction keys generalizing n line with
  | nil => rfl
  | cons key keys ih =>
      rw [List.foldl_cons, storeLine_stray, ih, strayBackspaces, List.foldl_cons, Nat.add_assoc]

theorem editedLine_of_open (h : enter ∉ keys) : editedLine keys = keys.foldl editLine [] := by
  rw [editedLine, List.takeWhile_eq_self_iff.mpr fun c hc => by
    simpa using fun hEnter : c = enter => h (hEnter ▸ hc)]

theorem editedLine_enter (h : enter ∉ keys) : editedLine (keys ++ [enter]) = editedLine keys := by
  rw [editedLine, List.takeWhile_append_of_pos, List.takeWhile_cons_of_neg (by simp),
    List.append_nil, editedLine_of_open h]
  intro c hc
  simpa using fun hEnter : c = enter => h (hEnter ▸ hc)

theorem storedLine_eq (h : enter ∉ keys) :
    storedLine keys = strayText (strayBackspaces [] keys) ++ editedLine keys := by
  have hFold := foldl_storeLine 0 [] keys
  have hNone : strayText 0 = [] := if_pos Even.zero
  rwa [Nat.zero_add, ← editedLine_of_open h, hNone] at hFold

theorem strayBackspaces_enter (line keys : List UInt8) :
    strayBackspaces line (keys ++ [enter]) = strayBackspaces line keys := by
  induction keys generalizing line with
  | nil => rfl
  | cons key keys ih => rw [List.cons_append, strayBackspaces, strayBackspaces, ih]

theorem notMem_append_key {c : UInt8} (h : c ∉ keys) (hKey : c ≠ key) : c ∉ keys ++ [key] := by
  intro hMem
  rcases List.mem_append.mp hMem with hOld | hNew
  · exact h hOld
  · exact hKey (List.mem_singleton.mp hNew)

theorem backspace_notMem_foldl (hLine : backspace ∉ line) :
    backspace ∉ keys.foldl editLine line := by
  induction keys generalizing line with
  | nil => exact hLine
  | cons key keys ih =>
      refine ih ?_
      rw [editLine]
      split_ifs with hKey
      · exact fun hMem => hLine ((List.dropLast_subset line) hMem)
      · exact notMem_append_key hLine (Ne.symm hKey)

end Lines

/-! ### The loop -/

/-- What holds in front of the test of the loop. -/
structure Editing (out : CharArray) (max : Int) (s : Readline) : Prop where
  cells : cellsFrom s.out.cells 0 (storedLine s.keys).length = storedLine s.keys
  noNul : 0 ∉ storedLine s.keys
  length : s.i = (storedLine s.keys).length
  inside : s.i ≤ max - 1
  noEnter : enter ∉ s.keys
  notBefore : ∀ front, front <+: s.keys → front ≠ s.keys →
    ((storedLine front).length : Int) < max - 1
  stores : StoresWithin out s.out 0 max

section Loop

variable {out : CharArray} {max : Int} {s t : Readline} {key : UInt8} {polls rest : List UInt8}

theorem storedLine_append (keys : List UInt8) (key : UInt8) :
    storedLine (keys ++ [key]) = storeLine (storedLine keys) key := by
  rw [storedLine, List.foldl_append]
  rfl

theorem Readline.show_i (s : Readline) (key : UInt8) (outputWhileTyping : Bool) :
    (s.show key outputWhileTyping).i = s.i := by
  cases outputWhileTyping with
  | false => rfl
  | true => rfl

theorem Readline.show_keys (s : Readline) (key : UInt8) (outputWhileTyping : Bool) :
    (s.show key outputWhileTyping).keys = s.keys := by
  cases outputWhileTyping with
  | false => rfl
  | true => rfl

theorem Readline.edit_keys (s : Readline) (key : UInt8) : (s.edit key).keys = s.keys := by
  unfold Readline.edit
  split
  · rfl
  · rfl

theorem Editing.show (h : Editing out max s) (key : UInt8) (outputWhileTyping : Bool) :
    Editing out max (s.show key outputWhileTyping) := by
  cases outputWhileTyping with
  | false => exact h
  | true => exact ⟨h.cells, h.noNul, h.length, h.inside, h.noEnter, h.notBefore, h.stores⟩

/-- With one more key, what holds in front of the key holds in front of all of them. -/
theorem Editing.notBefore_append (h : Editing out max s) (hRoom : s.i < max - 1) (key : UInt8) :
    ∀ front, front <+: s.keys ++ [key] → front ≠ s.keys ++ [key] →
      ((storedLine front).length : Int) < max - 1 := by
  intro front hPrefix hProper
  have hOld := (List.prefix_concat_iff.mp hPrefix).resolve_left hProper
  by_cases hSame : front = s.keys
  · rw [hSame, ← h.length]
    exact hRoom
  · exact h.notBefore front hOld hSame

/-- A backspace behind a character. -/
theorem Editing.erase (h : Editing out max s) (hRoom : s.i < max - 1) (hSome : 1 ≤ s.i) :
    Editing out max
      { s.got backspace with out := s.out.store (s.i - 1) 0, i := s.i - 2 + 1 } := by
  have hLength := h.length
  have hHeld := h.cells
  have hLine : storedLine (s.keys ++ [backspace]) = (storedLine s.keys).dropLast := by
    have hCharacter : storedLine s.keys ≠ [] := fun hNone => by
      rw [hNone, List.length_nil] at hLength
      omega
    rw [storedLine_append, storeLine, if_pos ⟨rfl, hCharacter⟩]
  have hShorter : (storedLine s.keys).length = (storedLine s.keys).dropLast.length + 1 := by
    rw [List.length_dropLast]
    omega
  have hKeys : (s.got backspace).keys = s.keys ++ [backspace] := rfl
  rw [hShorter, cellsFrom_append] at hHeld
  have hFront := congrArg List.dropLast hHeld
  rw [List.dropLast_concat] at hFront
  refine ⟨?_, ?_, ?_, ?_, notMem_append_key h.noEnter (by decide), h.notBefore_append hRoom backspace,
    h.stores.trans (storesWithin_store _ _ (by omega) (by omega))⟩
  · rw [hKeys, hLine]
    refine Eq.trans (cellsFrom_congr fun k _ hHigh => store_cells_of_ne _ _ ?_) hFront
    omega
  · rw [hKeys, hLine]
    exact fun hMem => h.noNul (List.dropLast_subset _ hMem)
  · rw [hKeys, hLine]
    dsimp only
    omega
  · dsimp only
    omega

/-- Any other key becomes a character, and so does a backspace on the empty line. -/
theorem Editing.character (h : Editing out max s) (hRoom : s.i < max - 1) (hKey : key ≠ 0)
    (hOther : key ≠ enter) (hStays : ¬ (key = backspace ∧ 1 ≤ s.i)) :
    Editing out max { s.got key with out := s.out.store s.i key, i := s.i + 1 } := by
  have hLength := h.length
  have hLine : storedLine (s.keys ++ [key]) = storedLine s.keys ++ [key] := by
    rw [storedLine_append, storeLine]
    refine if_neg fun hBoth => hStays ⟨hBoth.1, ?_⟩
    have hPos := List.length_pos_iff.mpr hBoth.2
    omega
  have hKeys : (s.got key).keys = s.keys ++ [key] := rfl
  refine ⟨?_, ?_, ?_, ?_, notMem_append_key h.noEnter (Ne.symm hOther), h.notBefore_append hRoom key,
    h.stores.trans (storesWithin_store _ _ (by omega) (by omega))⟩
  · rw [hKeys, hLine, List.length_append, List.length_singleton, cellsFrom_append, Int.zero_add,
      ← hLength]
    refine congrArg₂ (· ++ ·) (Eq.trans (cellsFrom_congr fun k _ hHigh => ?_) h.cells) ?_
    · exact store_cells_of_ne _ _ (by omega)
    · exact congrArg (fun c => [c]) (store_cells_self ..)
  · rw [hKeys, hLine]
    exact notMem_append_key h.noNul (Ne.symm hKey)
  · rw [hKeys, hLine, List.length_append, List.length_singleton]
    dsimp only
    omega
  · dsimp only
    omega

/-- A round with a key other than enter. -/
theorem Editing.edit (h : Editing out max s) (hRoom : s.i < max - 1) (hKey : key ≠ 0)
    (hOther : key ≠ enter) : Editing out max ((s.got key).edit key) := by
  by_cases hErase : key = backspace ∧ 1 ≤ s.i
  · have hState : (s.got key).edit key =
        { s.got key with out := s.out.store (s.i - 1) 0, i := s.i - 2 + 1 } := if_pos hErase
    rw [hState, hErase.1]
    exact h.erase hRoom hErase.2
  · have hState : (s.got key).edit key =
        { s.got key with out := s.out.store s.i key, i := s.i + 1 } := if_neg hErase
    rw [hState]
    exact h.character hRoom hKey hOther hErase

/-- The loop has been left in front of its test, or by an enter. -/
def Left (out : CharArray) (max : Int) (t : Readline) : Prop :=
  ∃ u, Editing out max u ∧
    ((u.i = max - 1 ∧ t = u.finish) ∨ (u.i < max - 1 ∧ t = (u.got enter).finish))

/-- Whether a call is waiting or has come back. -/
def ReadlineResult.Sound (out : CharArray) (max : Int) (s : Readline) (polls : List UInt8) :
    ReadlineResult → Prop
  | .waiting t => Editing out max t
  | .returned t rest => Left out max t ∧
      ∃ front, polls = front ++ rest ∧ t.keys = s.keys ++ front.filter (· ≠ 0)

theorem readlineLoop_waiting (outputWhileTyping : Bool) (hRoom : s.i < max - 1)
    (hNone : liebeosGetkeyBlock polls = none) :
    readlineLoop max outputWhileTyping s polls = .waiting s := by
  rw [readlineLoop, if_pos hRoom]
  split
  · rfl
  · exact absurd (hNone.symm.trans ‹_›) (by simp)

theorem readlineLoop_key (outputWhileTyping : Bool) (hRoom : s.i < max - 1)
    (hKey : liebeosGetkeyBlock polls = some (key, rest)) :
    readlineLoop max outputWhileTyping s polls =
      if key = enter then .returned (s.got key).finish rest
      else
        readlineLoop max outputWhileTyping (((s.got key).show key outputWhileTyping).edit key)
          rest := by
  rw [readlineLoop, if_pos hRoom]
  split
  · exact absurd (hKey.symm.trans ‹_›) (by simp)
  · obtain ⟨rfl, rfl⟩ := Prod.mk.inj (Option.some.inj (hKey.symm.trans ‹_›))
    rfl

theorem readlineLoop_sound (outputWhileTyping : Bool) (h : Editing out max s)
    (polls : List UInt8) : (readlineLoop max outputWhileTyping s polls).Sound out max s polls := by
  induction s, polls using readlineLoop.induct max outputWhileTyping with
  | case1 s polls hRoom hNone =>
      rw [readlineLoop_waiting outputWhileTyping hRoom hNone]
      exact h
  | case2 s polls hRoom rest hKey =>
      obtain ⟨_, front, hPolls, _, hFront⟩ := liebeosGetkeyBlock_some hKey
      rw [readlineLoop_key outputWhileTyping hRoom hKey, if_pos rfl]
      exact ⟨⟨s, h, Or.inr ⟨hRoom, rfl⟩⟩, front, hPolls, by rw [hFront]; rfl⟩
  | case3 s polls hRoom key rest hKey hOther ih =>
      obtain ⟨hNonzero, front, rfl, _, hFront⟩ := liebeosGetkeyBlock_some hKey
      have hSame : (s.show key outputWhileTyping).got key = (s.got key).show key outputWhileTyping := by
        cases outputWhileTyping with
        | false => rfl
        | true => rfl
      have hShownRoom : (s.show key outputWhileTyping).i < max - 1 := by
        rw [s.show_i]
        exact hRoom
      have hEdited := (h.show key outputWhileTyping).edit hShownRoom hNonzero hOther
      rw [hSame] at hEdited
      have hKeys : (((s.got key).show key outputWhileTyping).edit key).keys = s.keys ++ [key] := by
        rw [Readline.edit_keys, Readline.show_keys]
        rfl
      rw [readlineLoop_key outputWhileTyping hRoom hKey, if_neg hOther]
      have hRest := ih hEdited
      generalize readlineLoop max outputWhileTyping
        (((s.got key).show key outputWhileTyping).edit key) rest = result at hRest ⊢
      cases result with
      | waiting t => exact hRest
      | returned t left =>
          obtain ⟨hLeft, back, rfl, hBack⟩ := hRest
          refine ⟨hLeft, front ++ back, (List.append_assoc ..).symm, ?_⟩
          rw [hBack, hKeys, List.filter_append, hFront, List.append_assoc]
  | case4 s polls hFull =>
      rw [readlineLoop, if_neg hFull]
      have hInside := h.inside
      exact ⟨⟨s, h, Or.inl ⟨by omega, rfl⟩⟩, [], rfl, (List.append_nil _).symm⟩

theorem editing_start (hMax : 1 ≤ max) (out : CharArray) : Editing out max ⟨0, out, [], []⟩ where
  cells := rfl
  noNul := List.not_mem_nil
  length := rfl
  inside := by
    dsimp only
    omega
  noEnter := List.not_mem_nil
  notBefore front hPrefix hProper := absurd (List.prefix_nil.mp hPrefix) hProper
  stores := StoresWithin.refl out 0 max

/-- The NUL makes what is stored a text, and is still inside. -/
theorem Editing.finish (h : Editing out max s) :
    HoldsText s.finish.out.cells 0 (storedLine s.keys) ∧ StoresWithin out s.finish.out 0 max := by
  have hLength := h.length
  have hInside := h.inside
  constructor
  · refine holdsText_of_cellsFrom (Eq.trans (cellsFrom_congr fun k _ hHigh => ?_) h.cells) ?_ h.noNul
    · exact store_cells_of_ne _ _ (by omega)
    · rw [Int.zero_add, ← hLength]
      exact store_cells_self ..
  · exact h.stores.trans (storesWithin_store _ _ (by omega) (by omega))

/-- The line in the array has a stray backspace in front of it, or is the line of the keys. -/
theorem Left.text (h : Left out max t) :
    HoldsText t.out.cells 0 (strayText (strayBackspaces [] t.keys) ++ editedLine t.keys) := by
  obtain ⟨u, hEditing, ⟨_, rfl⟩ | ⟨_, rfl⟩⟩ := h
  · exact storedLine_eq hEditing.noEnter ▸ hEditing.finish.1
  · have hKeys : (u.got enter).finish.keys = u.keys ++ [enter] := rfl
    rw [hKeys, strayBackspaces_enter, editedLine_enter hEditing.noEnter,
      ← storedLine_eq hEditing.noEnter]
    exact hEditing.finish.1

theorem Left.stores (h : Left out max t) : StoresWithin out t.out 0 max := by
  obtain ⟨u, hEditing, ⟨_, rfl⟩ | ⟨_, rfl⟩⟩ := h
  · exact hEditing.finish.2
  · exact hEditing.finish.2

/-- While the loop goes on, the line of the keys has room as well. -/
theorem not_stopped {front : List UInt8} (hEnter : enter ∉ front)
    (hRoom : ((storedLine front).length : Int) < max - 1) : ¬ Stopped max front := by
  rw [storedLine_eq hEnter, List.length_append] at hRoom
  rintro (hMem | hFull)
  · exact hEnter hMem
  · omega

theorem Left.lineRead_iff (h : Left out max t) :
    LineRead max t ↔ Even (strayBackspaces [] t.keys) := by
  have hText := h.text
  constructor
  · intro hRead
    by_contra hOdd
    rw [strayText, if_neg hOdd] at hText
    have hLengths := congrArg List.length (hText.unique hRead.text)
    simp at hLengths
  · intro hEven
    rw [strayText, if_pos hEven, List.nil_append] at hText
    refine ⟨hText, backspace_notMem_foldl List.not_mem_nil, ?_, ?_⟩
    · obtain ⟨u, hEditing, ⟨hFull, rfl⟩ | ⟨_, rfl⟩⟩ := h
      · right
        have hLine := storedLine_eq hEditing.noEnter
        have hStray : strayText (strayBackspaces [] u.keys) = [] := if_pos hEven
        have hLength := hEditing.length
        rw [hLine, hStray, List.nil_append] at hLength
        change max - 1 ≤ ((editedLine u.keys).length : Int)
        omega
      · exact Or.inl (List.mem_append_right _ (List.mem_singleton_self enter))
    · intro front hPrefix hProper
      obtain ⟨u, hEditing, ⟨_, rfl⟩ | ⟨hRoom, rfl⟩⟩ := h
      · exact not_stopped (fun hMem => hEditing.noEnter (hPrefix.subset hMem))
          (hEditing.notBefore front hPrefix hProper)
      · have hOld : front <+: u.keys := (List.prefix_concat_iff.mp hPrefix).resolve_left hProper
        refine not_stopped (fun hMem => hEditing.noEnter (hOld.subset hMem)) ?_
        by_cases hSame : front = u.keys
        · rw [hSame, ← hEditing.length]
          exact hRoom
        · exact hEditing.notBefore front hOld hSame

end Loop

/-- Nothing is stored outside the array. A call that comes back has made the line of its
keys if and only if backspaces on an empty line came in pairs. -/
theorem terminalReadline_line_iff {max : Int} (hMax : 1 ≤ max) (out : CharArray)
    (outputWhileTyping : Bool) (polls : List UInt8) :
    (∀ k ∈ (liebeosTerminalReadline out max outputWhileTyping polls).state.out.written,
      k ∈ out.written ∨ (0 ≤ k ∧ k < max)) ∧
    ∀ s rest, liebeosTerminalReadline out max outputWhileTyping polls = .returned s rest →
      (∃ front, polls = front ++ rest ∧ s.keys = front.filter (· ≠ 0)) ∧
        (LineRead max s ↔ Even (strayBackspaces [] s.keys)) := by
  have hSound := readlineLoop_sound outputWhileTyping (editing_start hMax out) polls
  rw [← liebeosTerminalReadline] at hSound
  constructor
  · generalize liebeosTerminalReadline out max outputWhileTyping polls = result at hSound
    cases result with
    | waiting s => exact hSound.stores.stores
    | returned s rest => exact hSound.1.stores.stores
  · intro s rest hReturned
    rw [hReturned] at hSound
    exact ⟨hSound.2, hSound.1.lineRead_iff⟩

/-- A character is typed and removed in the shell's array. -/
theorem terminalReadline_line_shell :
    ∃ s rest, liebeosTerminalReadline ⟨fun _ => 1, []⟩ 1024 true [97, 0, 8, 13] =
      .returned s rest ∧ LineRead 1024 s := by
  let typed (s : Readline) (key : UInt8) : Readline := ((s.got key).show key true).edit key
  have hCall : liebeosTerminalReadline ⟨fun _ => 1, []⟩ 1024 true [97, 0, 8, 13] =
      .returned ((typed (typed ⟨0, ⟨fun _ => 1, []⟩, [], []⟩ 97) 8).got 13).finish [] := by
    have hFirst : liebeosGetkeyBlock [97, 0, 8, 13] = some (97, [0, 8, 13]) := rfl
    have hSecond : liebeosGetkeyBlock [0, 8, 13] = some (8, [13]) := rfl
    have hEnter : liebeosGetkeyBlock [13] = some (13, []) := rfl
    rw [liebeosTerminalReadline, readlineLoop_key true (by decide) hFirst, if_neg (by decide),
      readlineLoop_key true (by decide) hSecond, if_neg (by decide),
      readlineLoop_key true (by decide) hEnter, if_pos (by decide)]
  have hLine := terminalReadline_line_iff (show (1 : Int) ≤ 1024 by decide) ⟨fun _ => 1, []⟩ true
    [97, 0, 8, 13]
  exact ⟨_, _, hCall, (hLine.2 _ _ hCall).2.mpr (by decide)⟩

/-- A backspace on the empty line becomes the line. -/
theorem terminalReadline_stray :
    ∃ s rest, liebeosTerminalReadline ⟨fun _ => 0, []⟩ 1024 true [8, 13] = .returned s rest ∧
      HoldsText s.out.cells 0 [backspace] ∧ ¬ LineRead 1024 s := by
  let start : Readline := ⟨0, ⟨fun _ => 0, []⟩, [], []⟩
  let s : Readline := ((((start.got 8).show 8 true).edit 8).got 13).finish
  have hCall : liebeosTerminalReadline ⟨fun _ => 0, []⟩ 1024 true [8, 13] = .returned s [] := by
    have hKey : liebeosGetkeyBlock [8, 13] = some (8, [13]) := rfl
    have hEnter : liebeosGetkeyBlock [13] = some (13, []) := rfl
    rw [liebeosTerminalReadline, readlineLoop_key true (by decide) hKey, if_neg (by decide),
      readlineLoop_key true (by decide) hEnter, if_pos (by decide)]
  have hText : HoldsText s.out.cells 0 [backspace] := ⟨rfl, by decide, rfl⟩
  refine ⟨s, [], hCall, hText, fun hRead => ?_⟩
  exact absurd (hText.unique hRead.text) (by decide)

end LiebeOS
