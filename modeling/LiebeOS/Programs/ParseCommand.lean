import LiebeOS.Lib.Pieces
import LiebeOS.Lib.Run
import LiebeOS.Programs.Strtok

/-! How `liebeos.c` splits a command of the shell into its arguments. The list
of the argument records is the list of the strings in them. -/
namespace LiebeOS

open Attempts Pieces Transition

/-- The loop over the tokens. `malloc k` says whether the allocation after `k`
earlier ones of the call is granted. There are at most as many rounds as the
array has cells. -/
def parseArguments (malloc : Nat → Bool) :
    Nat → Nat → Option Nat × Tokenizer × List UInt8 → Attempt (List (List UInt8) × Tokenizer)
  | _, _, (none, t, _) => .returned ([], t)
  | 0, _, (some _, _, _) => .endless
  | rounds + 1, k, (some token, t, buf) =>
      if malloc k = false then .returned ([], t)
      else do
        let argument := strncpy (buf.drop token) 512
        let next ← strtok t buf none [space]
        let (arguments, t) ← parseArguments malloc rounds (k + 1) next
        .returned (argument :: arguments, t)

/-- The string is split in a copy on the stack. A call that is entered with `sp`
set goes through a pointer into the copy of an earlier call. No arguments stand
for the null pointer. -/
def liebeosParseCommand (t : Tokenizer) (command : List UInt8) (max : Int)
    (malloc : Nat → Bool) : Attempt (List (List UInt8) × Tokenizer) :=
  if 1025 ≤ max then .returned ([], t)
  else if t.sp ≠ none then .undefined
  else do
    let scommand := strncpy command 1025 ++ [0]
    let token ← strtok t scommand (some 0) [space]
    parseArguments malloc 1025 0 token

/-- `system` is the answer of the kernel to the arguments. -/
def liebeosSystemRun (t : Tokenizer) (command : List UInt8) (malloc : Nat → Bool)
    (system : List (List UInt8) → Int) : Attempt (Int × Tokenizer) := do
  let buf := strncpy command 1024
  let (arguments, t) ← liebeosParseCommand t buf 1024 malloc
  .returned (if arguments = [] then -1 else system arguments, t)

/-! ### The arguments -/

section Arguments

variable {t : Tokenizer} {text left : List UInt8} {str : Option Nat} {malloc : Nat → Bool}

/-- What the array keeps of an argument. -/
def argumentOf (token : List UInt8) : List UInt8 := token.take 511

/-- All allocations that a call asks for are granted. -/
def AllGranted (malloc : Nat → Bool) (k : Nat) (t : Tokenizer) (text : List UInt8) : Prop :=
  ∀ j < (tokens t text).length, malloc (k + j) = true

theorem allGranted_iff {k : Nat} (hSome : skipSpaces text ≠ []) :
    AllGranted malloc k t text ↔ malloc k = true ∧
      AllGranted malloc (k + 1) ((splitToken t (skipSpaces text)).1.foldl Tokenizer.toggle t)
        (splitToken t (skipSpaces text)).2 := by
  unfold AllGranted
  rw [tokens_of_token hSome, List.length_cons]
  constructor
  · intro hAll
    refine ⟨hAll 0 (Nat.succ_pos _), fun j hj => ?_⟩
    rw [Nat.add_assoc, Nat.add_comm 1]
    exact hAll (j + 1) (Nat.succ_lt_succ hj)
  · rintro ⟨hFirst, hRest⟩ j hj
    cases j with
    | zero => exact hFirst
    | succ j =>
        rw [Nat.add_comm j, ← Nat.add_assoc]
        exact hRest j (Nat.lt_of_succ_lt_succ hj)

theorem allGranted_setSp {k : Nat} (p : Option Nat) :
    AllGranted malloc k (t.setSp p) text ↔ AllGranted malloc k t text := by
  rw [AllGranted, AllGranted, tokens_setSp]

theorem foldl_toggle_spaces (t : Tokenizer) (text : List UInt8) :
    (leadingSpaces text).foldl Tokenizer.toggle t = t := by
  refine List.foldlRecOn (motive := (· = t)) _ _ rfl fun u hu c hc => ?_
  have hSpace : c = space := of_decide_eq_true (List.mem_takeWhile_imp (p := (· = space)) hc)
  rw [hu, hSpace, Tokenizer.toggle_space]

theorem foldl_toggle_skipSpaces (t : Tokenizer) (text : List UInt8) :
    (skipSpaces text).foldl Tokenizer.toggle t = text.foldl Tokenizer.toggle t := by
  conv_rhs => rw [← leadingSpaces_append text, List.foldl_append, foldl_toggle_spaces]

/-- Every character that is not skipped is looked at once. -/
theorem foldl_toggle_splitToken (t : Tokenizer) (text : List UInt8) :
    (splitToken t text).2.foldl Tokenizer.toggle ((splitToken t text).1.foldl Tokenizer.toggle t) =
      text.foldl Tokenizer.toggle t := by
  induction text generalizing t with
  | nil => rfl
  | cons c rest ih =>
      rw [splitToken]
      split_ifs with hCut
      · rw [List.foldl_cons, hCut.1]
        rfl
      · exact ih (t.toggle c)

/-- From any place in the array the calls deliver the tokens that are left, and
let the array go in the end, unless an allocation fails. -/
theorem parseArguments_text (hText : 0 ∉ text) (hStart : t.sp.or str = some left.length)
    {rounds : Nat} (hRounds : text.length < rounds) (k : Nat) :
    ∃ arguments t', (strtok t (left ++ (text ++ [0])) str [space] >>=
        parseArguments malloc rounds k) = .returned (arguments, t') ∧
      (AllGranted malloc k t text → arguments = (tokens t text).map argumentOf ∧
        t' = (text.foldl Tokenizer.toggle t).setSp none) ∧
      (¬ AllGranted malloc k t text → t'.sp ≠ none) := by
  induction rounds generalizing t text left str k with
  | zero => exact absurd hRounds (Nat.not_lt_zero _)
  | succ rounds ih =>
      by_cases hNone : skipSpaces text = []
      · have hTokens : tokens t text = [] := tokens_of_spaces hNone
        have hToggle : text.foldl Tokenizer.toggle t = t := by
          rw [← foldl_toggle_skipSpaces, hNone, List.foldl_nil]
        refine ⟨[], t.setSp none, ?_, fun _ => ?_, fun hRefused => ?_⟩
        · rw [strtok_space hText hStart, if_pos hNone]
          rfl
        · rw [hTokens, hToggle]
          exact ⟨rfl, rfl⟩
        · refine absurd (fun j hj => ?_) hRefused
          rw [hTokens] at hj
          exact absurd hj (Nat.not_lt_zero j)
      · obtain ⟨pStart, left', hToken, hCopy⟩ := strtok_token hText hNone hStart
        have hGranted : AllGranted malloc k t text ↔ _ := allGranted_iff hNone
        have hTokens := tokens_of_token (t := t) hNone
        have hToggle := foldl_toggle_splitToken t (skipSpaces text)
        have hBehind : 0 ∉ (splitToken t (skipSpaces text)).2 := fun h =>
          hText ((List.dropWhile_sublist _).subset ((splitToken_subset t _).2 h))
        have hShorter := splitToken_length t (skipSpaces text)
        have hSkip := skipSpaces_length text
        have hPositive := List.length_pos_iff.mpr hNone
        rw [foldl_toggle_skipSpaces] at hToggle
        rw [hToken]
        change ∃ _ _, parseArguments malloc (rounds + 1) k _ = _ ∧ _
        rw [parseArguments]
        cases hAnswer : malloc k with
        | false =>
            refine ⟨[], _, by rw [if_pos rfl], fun hAll => ?_, fun _ => ?_⟩
            · rw [hGranted, hAnswer] at hAll
              exact absurd hAll.1 Bool.false_ne_true
            · exact Option.some_ne_none left'.length
        | true =>
            obtain ⟨arguments, t', hRest, hAll, hRefused⟩ :=
              @ih (((splitToken t (skipSpaces text)).1.foldl Tokenizer.toggle t).setSp
                (some left'.length)) _ left' none hBehind rfl (by omega) (k + 1)
            rw [allGranted_setSp, tokens_setSp, foldl_toggle_setSp, hToggle] at hAll
            rw [allGranted_setSp] at hRefused
            refine ⟨argumentOf (splitToken t (skipSpaces text)).1 :: arguments, t', ?_,
              fun hBoth => ?_, fun hMissing => ?_⟩
            · rw [if_neg (by decide), ← Attempt.bind_bind, hRest, hCopy]
              rfl
            · obtain ⟨hArguments, hEnd⟩ := hAll (hGranted.mp hBoth).2
              rw [hTokens, List.map_cons, hArguments]
              exact ⟨rfl, hEnd⟩
            · exact hRefused fun hLater => hMissing (hGranted.mpr ⟨hAnswer, hLater⟩)

theorem zero_not_mem_strncpy (src : List UInt8) (count : Nat) : 0 ∉ strncpy src count := by
  intro hZero
  have hTaken : 0 ∈ (src.takeWhile (· ≠ 0)).take (count - 1) := hZero
  have hMarked := List.mem_takeWhile_imp (p := fun c : UInt8 => c ≠ 0) (List.take_subset _ _ hTaken)
  exact absurd hMarked (by decide)

theorem strncpy_length (src : List UInt8) (count : Nat) : (strncpy src count).length ≤ count - 1 := by
  rw [strncpy, List.length_take]
  exact Nat.min_le_left _ _

/-- A call that gets to the splitting and is entered with `sp` clear. -/
theorem liebeosParseCommand_text {command : List UInt8} {max : Int} (hMax : max < 1025)
    (hSp : t.sp = none) :
    ∃ arguments t', liebeosParseCommand t command max malloc = .returned (arguments, t') ∧
      (AllGranted malloc 0 t (strncpy command 1025) →
        arguments = (tokens t (strncpy command 1025)).map argumentOf ∧
          t' = ((strncpy command 1025).foldl Tokenizer.toggle t).setSp none) ∧
      (¬ AllGranted malloc 0 t (strncpy command 1025) → t'.sp ≠ none) := by
  have hLength := strncpy_length command 1025
  have hStart : t.sp.or (some 0) = some ([] : List UInt8).length := by
    rw [hSp]
    rfl
  obtain ⟨arguments, t', hReturned, hEnds⟩ := @parseArguments_text _ _ _ _ malloc
    (zero_not_mem_strncpy command 1025) hStart _
    (Nat.lt_of_le_of_lt hLength (Nat.lt_succ_self 1024)) 0
  refine ⟨arguments, t', ?_, hEnds⟩
  rw [liebeosParseCommand, if_neg (by omega), if_neg (not_not.mpr hSp)]
  exact hReturned

/-- The second copy does not cut a command that the first one has room for. -/
theorem liebeosSystemRun_of_short {command : List UInt8} {system : List (List UInt8) → Int}
    (hZero : 0 ∉ command) (hShort : command.length < 1024) :
    liebeosSystemRun t command malloc system =
      liebeosParseCommand t command 1024 malloc >>= fun parsed =>
        .returned (if parsed.1 = [] then -1 else system parsed.1, parsed.2) := by
  rw [liebeosSystemRun, strncpy_of_short hZero hShort]

/-- The kernel is asked to run the arguments of the whole command, unless there are none. -/
theorem liebeosSystemRun_text {command : List UInt8} {system : List (List UInt8) → Int}
    (hZero : 0 ∉ command) (hShort : command.length < 1024) (hSp : t.sp = none)
    (hAll : AllGranted malloc 0 t command) :
    liebeosSystemRun t command malloc system =
      .returned (if tokens t command = [] then -1 else system ((tokens t command).map argumentOf),
        (command.foldl Tokenizer.toggle t).setSp none) := by
  have hText : strncpy command 1025 = command := strncpy_of_short hZero (by omega)
  obtain ⟨arguments, t', hReturned, hGranted, _⟩ :=
    @liebeosParseCommand_text _ malloc command 1024 (by decide) hSp
  rw [hText] at hGranted
  obtain ⟨rfl, rfl⟩ := hGranted hAll
  rw [liebeosSystemRun_of_short hZero hShort, hReturned]
  change Attempt.returned (ite _ _ _, _) = _
  simp only [List.map_eq_nil_iff]

end Arguments

/-! ### Commands without quotes -/

section Unquoted

variable {t : Tokenizer} {text command : List UInt8} {max : Int}

/-- The arguments are the runs between the spaces, and there are none only if
there is no run. -/
structure SplitAtSpaces (command : List UInt8) (arguments : List (List UInt8)) : Prop where
  runs : arguments = (pieces (· = space) command).map argumentOf
  none : arguments = [] ↔ pieces (· = space) command = []

/-- Nothing is written; or an earlier command has left a quote open; or the text
consists of one word, with nothing behind it that shows in the argument. -/
def SplitsAsMeant (t : Tokenizer) (command : List UInt8) (max : Int) : Prop :=
  skipSpaces command = [] ∨ max < 1025 ∧ (t.quoted = true ∨
    (skipSpaces command).dropWhile (· ≠ space) = [] ∨
    skipSpaces ((skipSpaces command).dropWhile (· ≠ space)) = [] ∧
      511 ≤ ((skipSpaces command).takeWhile (· ≠ space)).length)

theorem toggle_of_unquoted {c : UInt8} (hSingle : c ≠ 39) (hDouble : c ≠ 34) : t.toggle c = t := by
  rw [Tokenizer.toggle, if_neg hSingle, if_neg hDouble]

theorem skipSpaces_eq_nil_iff : skipSpaces text = [] ↔ pieces (· = space) text = [] := by
  rw [pieces_eq_nil_iff]
  exact List.dropWhile_eq_nil_iff

/-- Without an open quote the whole text is one token. -/
theorem splitToken_of_closed (hClosed : t.quoted = false) (hSingle : 39 ∉ text)
    (hDouble : 34 ∉ text) : splitToken t text = (text, []) := by
  induction text with
  | nil => rfl
  | cons c rest ih =>
      have hSame : t.toggle c = t := toggle_of_unquoted
        (fun h => hSingle (h ▸ List.mem_cons_self)) (fun h => hDouble (h ▸ List.mem_cons_self))
      rw [splitToken, hSame, if_neg fun h => by rw [hClosed] at h; exact Bool.false_ne_true h.2,
        ih (fun h => hSingle (List.mem_cons_of_mem c h)) fun h => hDouble (List.mem_cons_of_mem c h)]

/-- With one open a token ends at the first space. -/
theorem splitToken_of_open (hOpen : t.quoted = true) (hSingle : 39 ∉ text) (hDouble : 34 ∉ text) :
    splitToken t text = (text.takeWhile (· ≠ space), (text.dropWhile (· ≠ space)).tail) := by
  induction text with
  | nil => rfl
  | cons c rest ih =>
      have hSame : t.toggle c = t := toggle_of_unquoted
        (fun h => hSingle (h ▸ List.mem_cons_self)) (fun h => hDouble (h ▸ List.mem_cons_self))
      rw [splitToken, hSame, List.takeWhile_cons, List.dropWhile_cons]
      by_cases hc : c = space
      · rw [if_pos ⟨hc, hOpen⟩, if_neg (by rw [hc]; decide), if_neg (by rw [hc]; decide)]
        rfl
      · rw [if_neg fun h => hc h.1, if_pos (decide_eq_true hc), if_pos (decide_eq_true hc),
          ih (fun h => hSingle (List.mem_cons_of_mem c h))
            fun h => hDouble (List.mem_cons_of_mem c h)]

theorem foldl_toggle_of_unquoted (hSingle : 39 ∉ text) (hDouble : 34 ∉ text) :
    text.foldl Tokenizer.toggle t = t := by
  refine List.foldlRecOn (motive := (· = t)) _ _ rfl fun u hu c hc => ?_
  rw [hu]
  exact toggle_of_unquoted (fun h => hSingle (h ▸ hc)) fun h => hDouble (h ▸ hc)

/-- The text behind the leading spaces is a run and what follows it. -/
theorem pieces_of_skipSpaces (hSome : skipSpaces text ≠ []) :
    pieces (· = space) text = (skipSpaces text).takeWhile (· ≠ space) ::
      pieces (· = space) ((skipSpaces text).dropWhile (· ≠ space)) := by
  have hPieces := pieces_eq_cons (p := (· = space)) hSome
  simpa only [skipSpaces, decide_not] using hPieces

theorem pieces_behind (text : List UInt8) :
    pieces (· = space) (text.dropWhile (· ≠ space)).tail =
      pieces (· = space) (text.dropWhile (· ≠ space)) := by
  have hTail := pieces_tail (p := (· = space)) text
  simpa only [decide_not] using hTail

theorem tokens_of_closed (hClosed : t.quoted = false) (hSingle : 39 ∉ text) (hDouble : 34 ∉ text)
    (hSome : skipSpaces text ≠ []) : tokens t text = [skipSpaces text] := by
  have hSubset : skipSpaces text ⊆ text := (List.dropWhile_sublist _).subset
  rw [tokens_of_token hSome, splitToken_of_closed hClosed (fun h => hSingle (hSubset h))
    fun h => hDouble (hSubset h), tokens_of_spaces rfl]

theorem tokens_of_open (hOpen : t.quoted = true) (hSingle : 39 ∉ text) (hDouble : 34 ∉ text) :
    tokens t text = pieces (· = space) text := by
  induction t, text using tokens.induct with
  | case1 t text hNone => rw [tokens_of_spaces hNone, skipSpaces_eq_nil_iff.mp hNone]
  | case2 t text hSome ih =>
      have hSubset : skipSpaces text ⊆ text := (List.dropWhile_sublist _).subset
      have hSingle' : 39 ∉ skipSpaces text := fun h => hSingle (hSubset h)
      have hDouble' : 34 ∉ skipSpaces text := fun h => hDouble (hSubset h)
      have hSplit := splitToken_of_open hOpen hSingle' hDouble'
      have hParts := splitToken_subset t (skipSpaces text)
      have hSame : (splitToken t (skipSpaces text)).1.foldl Tokenizer.toggle t = t :=
        foldl_toggle_of_unquoted (fun h => hSingle' (hParts.1 h)) fun h => hDouble' (hParts.1 h)
      rw [hSame] at ih
      rw [tokens_of_token hSome, hSame, pieces_of_skipSpaces hSome,
        ih hOpen (fun h => hSingle' (hParts.2 h)) fun h => hDouble' (hParts.2 h), hSplit,
        pieces_behind]

theorem argumentOf_append_iff (word behind : List UInt8) :
    argumentOf (word ++ behind) = argumentOf word ↔ behind = [] ∨ 511 ≤ word.length := by
  unfold argumentOf
  rw [List.take_append, List.append_right_eq_self, List.take_eq_nil_iff, Nat.sub_eq_zero_iff_le,
    or_comm]

/-- The one token of a text without open quotes is the list of its words only if
nothing that shows is behind the first word. -/
theorem wholeText_iff (hSome : skipSpaces text ≠ []) :
    [argumentOf (skipSpaces text)] = (pieces (· = space) text).map argumentOf ↔
      (skipSpaces text).dropWhile (· ≠ space) = [] ∨
        skipSpaces ((skipSpaces text).dropWhile (· ≠ space)) = [] ∧
          511 ≤ ((skipSpaces text).takeWhile (· ≠ space)).length := by
  have hWhole : argumentOf (skipSpaces text) = argumentOf ((skipSpaces text).takeWhile (· ≠ space)) ↔
      (skipSpaces text).dropWhile (· ≠ space) = [] ∨
        511 ≤ ((skipSpaces text).takeWhile (· ≠ space)).length := by
    rw [← argumentOf_append_iff, List.takeWhile_append_dropWhile]
  rw [pieces_of_skipSpaces hSome, List.map_cons, List.cons_eq_cons, hWhole, eq_comm (a := []),
    List.map_eq_nil_iff, ← skipSpaces_eq_nil_iff]
  constructor
  · rintro ⟨hEnd | hLong, hNone⟩
    · exact Or.inl hEnd
    · exact Or.inr ⟨hNone, hLong⟩
  · rintro (hEnd | ⟨hNone, hLong⟩)
    · exact ⟨Or.inl hEnd, by rw [hEnd]; rfl⟩
    · exact ⟨Or.inr hLong, hNone⟩

theorem splitAtSpaces_iff {arguments : List (List UInt8)} :
    SplitAtSpaces command arguments ↔
      arguments = (pieces (· = space) command).map argumentOf := by
  refine ⟨fun h => h.runs, fun h => ⟨h, ?_⟩⟩
  rw [h, List.map_eq_nil_iff]

/-- A command of the shell is split at its spaces exactly in these cases. -/
theorem parseCommand_splits (hSp : t.sp = none) (hZero : 0 ∉ command) (hSingle : 39 ∉ command)
    (hDouble : 34 ∉ command) (hShort : command.length < 1024) :
    ∃ arguments t', liebeosParseCommand t command max (fun _ => true) = .returned (arguments, t') ∧
      (SplitAtSpaces command arguments ↔ SplitsAsMeant t command max) := by
  by_cases hMax : 1025 ≤ max
  · refine ⟨[], t, by rw [liebeosParseCommand, if_pos hMax], ?_⟩
    rw [splitAtSpaces_iff, eq_comm, List.map_eq_nil_iff, ← skipSpaces_eq_nil_iff]
    exact ⟨Or.inl, fun h => h.resolve_right fun hSmall => by omega⟩
  · have hText : strncpy command 1025 = command := strncpy_of_short hZero (by omega)
    obtain ⟨arguments, t', hReturned, hAll, -⟩ := @liebeosParseCommand_text t (fun _ => true)
      command max (Int.lt_of_not_ge hMax) hSp
    obtain ⟨hArguments, -⟩ := hAll fun _ _ => rfl
    refine ⟨arguments, t', hReturned, ?_⟩
    rw [splitAtSpaces_iff, hArguments, hText]
    by_cases hNone : skipSpaces command = []
    · rw [tokens_of_spaces hNone, skipSpaces_eq_nil_iff.mp hNone]
      exact ⟨fun _ => Or.inl hNone, fun _ => rfl⟩
    · cases hQuoted : t.quoted with
      | true =>
          rw [tokens_of_open hQuoted hSingle hDouble]
          exact ⟨fun _ => Or.inr ⟨Int.lt_of_not_ge hMax, Or.inl hQuoted⟩, fun _ => rfl⟩
      | false =>
          rw [tokens_of_closed hQuoted hSingle hDouble hNone, List.map_singleton,
            wholeText_iff hNone, SplitsAsMeant, hQuoted, or_iff_right hNone,
            and_iff_right (Int.lt_of_not_ge hMax), or_iff_right Bool.false_ne_true]

theorem parseCommand_splits_word :
    (∃ arguments t', liebeosParseCommand tokenizerInit [32, 97, 98] 1024 (fun _ => true) =
      .returned (arguments, t') ∧ SplitAtSpaces [32, 97, 98] arguments) := by
  obtain ⟨arguments, t', hReturned, hSplit⟩ := @parseCommand_splits tokenizerInit [32, 97, 98] 1024
    rfl (by decide) (by decide) (by decide) (by decide)
  exact ⟨arguments, t', hReturned, hSplit.mpr (by unfold SplitsAsMeant; decide)⟩

/-- The arguments of `a b` are not its two words. -/
theorem parseCommand_unsplit :
    ¬ ∀ (t : Tokenizer) (command : List UInt8), t.sp = none → 0 ∉ command → 39 ∉ command →
      34 ∉ command → command.length < 1024 → ∃ arguments t',
        liebeosParseCommand t command 1024 (fun _ => true) = .returned (arguments, t') ∧
          SplitAtSpaces command arguments := by
  intro hClaim
  obtain ⟨arguments, t', hReturned, hSplit⟩ := hClaim tokenizerInit [97, 32, 98] rfl (by decide)
    (by decide) (by decide) (by decide)
  have hWhole : liebeosParseCommand tokenizerInit [97, 32, 98] 1024 (fun _ => true) =
      .returned ([[97, 32, 98]], tokenizerInit) := rfl
  rw [hWhole] at hReturned
  cases hReturned
  exact absurd hSplit.runs (by decide)

end Unquoted

/-! ### One command after the other -/

/-- One call, with the answers of the allocator to it. -/
structure ParseCall where
  command : List UInt8
  max : Int
  malloc : Nat → Bool

inductive ParseStep : Tokenizer → ParseCall → Tokenizer → Prop where
  | parse {t t' : Tokenizer} {e : ParseCall} {arguments : List (List UInt8)}
      (hReturned : liebeosParseCommand t e.command e.max e.malloc = .returned (arguments, t')) :
      ParseStep t e t'

/-- A call that is refused before it splits anything; or one whose quotes come
in pairs and whose allocations are all granted. -/
def LeavesNothing (t : Tokenizer) (e : ParseCall) : Prop :=
  1025 ≤ e.max ∨ AllGranted e.malloc 0 t (strncpy e.command 1025) ∧
    (strncpy e.command 1025).count 39 % 2 = 0 ∧ (strncpy e.command 1025).count 34 % 2 = 0

/-- Every command gets the arguments that it gets in a new process. -/
def ParsesAsFresh (t : Tokenizer) : Prop :=
  ∀ command max arguments t', liebeosParseCommand tokenizerInit command max (fun _ => true) =
      .returned (arguments, t') →
    ∃ u, liebeosParseCommand t command max (fun _ => true) = .returned (arguments, u)

section Commands

variable {t t' : Tokenizer} {e : ParseCall} {events : List ParseCall}

theorem xor_parity (q : Bool) (n : Nat) :
    (!q ^^ decide (n % 2 ≠ 0)) = (q ^^ decide ((n + 1) % 2 ≠ 0)) := by
  have hParity : decide ((n + 1) % 2 ≠ 0) = !decide (n % 2 ≠ 0) := by
    rw [← decide_not, decide_eq_decide]
    omega
  rw [hParity, Bool.not_xor, Bool.xor_not]

theorem foldl_toggle_single (t : Tokenizer) (text : List UInt8) :
    (text.foldl Tokenizer.toggle t).singleQuoteStarted =
      (t.singleQuoteStarted ^^ decide (text.count 39 % 2 ≠ 0)) := by
  induction text generalizing t with
  | nil => exact (Bool.xor_false _).symm
  | cons c text ih =>
      rw [List.foldl_cons, ih]
      by_cases hc : c = 39
      · rw [hc, List.count_cons_self, ← xor_parity]
        rfl
      · rw [List.count_cons_of_ne hc, Tokenizer.toggle, if_neg hc]

theorem foldl_toggle_double (t : Tokenizer) (text : List UInt8) :
    (text.foldl Tokenizer.toggle t).doubleQuoteStarted =
      (t.doubleQuoteStarted ^^ decide (text.count 34 % 2 ≠ 0)) := by
  induction text generalizing t with
  | nil => exact (Bool.xor_false _).symm
  | cons c text ih =>
      rw [List.foldl_cons, ih]
      by_cases hc : c = 34
      · rw [hc, List.count_cons_self, ← xor_parity]
        rfl
      · rw [List.count_cons_of_ne hc]
        dsimp only [Tokenizer.toggle]
        rw [if_neg hc]

/-- After a text has been scanned to its end from a clear start, the variables
are clear again if each kind of quote occurs an even number of times. -/
theorem foldl_toggle_init_iff (text : List UInt8) :
    (text.foldl Tokenizer.toggle tokenizerInit).setSp none = tokenizerInit ↔
      text.count 39 % 2 = 0 ∧ text.count 34 % 2 = 0 := by
  have hSingle := foldl_toggle_single tokenizerInit text
  have hDouble := foldl_toggle_double tokenizerInit text
  rw [tokenizerInit, Bool.false_xor] at hSingle hDouble
  rw [Tokenizer.setSp, tokenizerInit, hSingle, hDouble, Tokenizer.mk.injEq, and_iff_right rfl,
    decide_eq_false_iff_not, decide_eq_false_iff_not, not_not, not_not]

theorem ParseStep.leavesNothing_iff (hStep : ParseStep tokenizerInit e t') :
    t' = tokenizerInit ↔ LeavesNothing tokenizerInit e := by
  cases hStep with
  | parse hReturned =>
      by_cases hMax : 1025 ≤ e.max
      · rw [liebeosParseCommand, if_pos hMax] at hReturned
        cases hReturned
        exact ⟨fun _ => Or.inl hMax, fun _ => rfl⟩
      · obtain ⟨_, _, hText, hAll, hRefused⟩ := @liebeosParseCommand_text tokenizerInit e.malloc
          e.command e.max (Int.lt_of_not_ge hMax) rfl
        rw [hText] at hReturned
        cases hReturned
        rw [LeavesNothing, or_iff_right hMax]
        by_cases hGranted : AllGranted e.malloc 0 tokenizerInit (strncpy e.command 1025)
        · rw [(hAll hGranted).2, foldl_toggle_init_iff, and_iff_right hGranted]
        · refine ⟨fun hClear => ?_, fun hBoth => absurd hBoth.1 hGranted⟩
          rw [hClear] at hRefused
          exact absurd rfl (hRefused hGranted)

/-- With a quote left open `a b` gets two arguments instead of one. -/
theorem parseCommand_quoted (hSp : t.sp = none) (hQuoted : t.quoted = true) :
    ∃ u, liebeosParseCommand t [97, 32, 98] 1024 (fun _ => true) =
      .returned ([[97], [98]], u) := by
  obtain ⟨sp, single, double⟩ := t
  cases hSp
  cases single <;> cases double
  · exact absurd hQuoted (by decide)
  all_goals exact ⟨_, rfl⟩

/-- Anything that is left in the variables shows in some command. -/
theorem parsesAsFresh_iff : ParsesAsFresh t ↔ t = tokenizerInit := by
  refine ⟨fun hFresh => ?_, fun hClear => ?_⟩
  · have hSp : t.sp = none := by
      by_contra hPending
      obtain ⟨u, hParse⟩ := hFresh [] 1024 [] tokenizerInit rfl
      rw [liebeosParseCommand, if_neg (by decide), if_pos hPending] at hParse
      exact nomatch hParse
    cases hQuoted : t.quoted with
    | true =>
        obtain ⟨u, hTwo⟩ := parseCommand_quoted hSp hQuoted
        obtain ⟨u', hOne⟩ := hFresh [97, 32, 98] 1024 [[97, 32, 98]] tokenizerInit rfl
        rw [hTwo] at hOne
        exact nomatch hOne
    | false =>
        obtain ⟨sp, single, double⟩ := t
        obtain ⟨hSingle, hDouble⟩ := Bool.or_eq_false_iff.mp hQuoted
        exact (Tokenizer.mk.injEq ..).mpr ⟨hSp, hSingle, hDouble⟩
  · rw [hClear]
    exact fun _ _ _ t' hParse => ⟨t', hParse⟩

/-- After commands that all leave nothing behind, every command is parsed as if
it were the first; and a further call keeps it so only if it leaves nothing
behind either. -/
theorem parseRun_fresh (run : Run (Guarded ParseStep LeavesNothing) tokenizerInit events t) :
    ParsesAsFresh t ∧ ∀ e t', ParseStep t e t' → (ParsesAsFresh t' ↔ LeavesNothing t e) := by
  have hClear : t = tokenizerInit := by
    refine @Run.invariant _ _ _ (· = tokenizerInit) _ _ _ run rfl fun u e _ hu hStep => ?_
    rw [hu] at hStep
    exact hStep.2.leavesNothing_iff.mpr hStep.1
  rw [hClear]
  exact ⟨parsesAsFresh_iff.mpr rfl, fun e t' hStep => by
    rw [parsesAsFresh_iff, hStep.leavesNothing_iff]⟩

theorem parseRun_fresh_quoted :
    ∃ t, Run (Guarded ParseStep LeavesNothing) tokenizerInit
        [⟨[39, 97, 39], 1024, fun _ => true⟩, ⟨[97], 2048, fun _ => false⟩] t ∧
      ParsesAsFresh t := by
  have run : Run (Guarded ParseStep LeavesNothing) tokenizerInit
      [⟨[39, 97, 39], 1024, fun _ => true⟩, ⟨[97], 2048, fun _ => false⟩] tokenizerInit :=
    (Run.single ⟨Or.inr ⟨fun _ _ => rfl, by decide, by decide⟩,
      @ParseStep.parse _ _ _ [[39, 97, 39]] rfl⟩).snoc
      ⟨Or.inl (by decide), @ParseStep.parse _ _ _ [] rfl⟩
  exact ⟨tokenizerInit, run, (parseRun_fresh run).1⟩

/-- A quote is never closed, and the next command is split differently. -/
theorem parseRun_open_quote :
    ¬ ∀ (events : List ParseCall) (t : Tokenizer), Run ParseStep tokenizerInit events t →
      ParsesAsFresh t := by
  intro hClaim
  have hStep : ParseStep tokenizerInit ⟨[39, 97], 1024, fun _ => true⟩ ⟨none, true, false⟩ :=
    @ParseStep.parse _ _ _ [[39, 97]] rfl
  have hFresh := hClaim _ _ (Run.single hStep)
  rw [parsesAsFresh_iff] at hFresh
  exact absurd hFresh (by decide)

end Commands

end LiebeOS
