import Mathlib.Data.List.GetD
import Mathlib.Data.List.TakeWhile
import LiebeOS.Lib.Attempt

/-! The tokenizer of the programs' `string.c`. The string that is being cut up
is the list of the cells of its array, terminator included. -/
namespace LiebeOS

open Attempts

def space : UInt8 := 0x20

/-- The variables that outlive a call. `sp` is an offset into the string; null
is `none`. -/
structure Tokenizer where
  sp : Option Nat
  singleQuoteStarted : Bool
  doubleQuoteStarted : Bool
deriving DecidableEq

def tokenizerInit : Tokenizer := ⟨none, false, false⟩

/-- `sp = p` -/
def Tokenizer.setSp (t : Tokenizer) (p : Option Nat) : Tokenizer := { t with sp := p }

/-- What `strncpy` leaves in a destination of `count` cells, up to the
terminator that it always writes. -/
def strncpy (src : List UInt8) (count : Nat) : List UInt8 :=
  (src.takeWhile (· ≠ 0)).take (count - 1)

/-- Each quote character turns its own flag around. -/
def Tokenizer.toggle (t : Tokenizer) (c : UInt8) : Tokenizer :=
  { t with
    singleQuoteStarted := if c = 39 then !t.singleQuoteStarted else t.singleQuoteStarted
    doubleQuoteStarted := if c = 34 then !t.doubleQuoteStarted else t.doubleQuoteStarted }

def Tokenizer.quoted (t : Tokenizer) : Bool := t.singleQuoteStarted || t.doubleQuoteStarted

/-- The first loop of `strtok`. The argument is what the array holds from
`pStart` on. -/
def skipDelimiters (delimiters : List UInt8) : List UInt8 → Nat → Attempt Nat
  | [], _ => .undefined
  | c :: rest, pStart =>
      if delimiters.findIdx (· == c) = delimiters.length then .returned pStart
      else skipDelimiters delimiters rest (pStart + 1)

/-- The second loop, which carries the index `i` along. It looks for a delimiter
only while a quote is open, and leaves `i` as it was otherwise. -/
def findTokenEnd (delimiters : List UInt8) :
    List UInt8 → Nat → Nat → Tokenizer → List UInt8 → Attempt (Tokenizer × List UInt8)
  | [], _, _, _, _ => .undefined
  | c :: rest, sp, i, t, buf =>
      if c = 0 then .returned (t.setSp (some sp), buf)
      else
        let t := t.toggle c
        let i := if t.quoted then delimiters.findIdx (· == c) else i
        let buf := if t.quoted ∧ i < delimiters.length then buf.set sp 0 else buf
        if i < delimiters.length then .returned (t.setSp (some (sp + 1)), buf)
        else findTokenEnd delimiters rest (sp + 1) i t buf

/-- `strtok(str, delimiters)`. A string that is passed while `sp` is set is
ignored. -/
def strtok (t : Tokenizer) (buf : List UInt8) (str : Option Nat) (delimiters : List UInt8) :
    Attempt (Option Nat × Tokenizer × List UInt8) :=
  match t.sp.or str with
  | none => .returned (none, t, buf)
  | some start => do
      let pStart ← skipDelimiters delimiters (buf.drop start) start
      if buf.getD pStart 0 = 0 then .returned (none, t.setSp none, buf)
      else do
        let (t, buf) ← findTokenEnd delimiters (buf.drop pStart) pStart delimiters.length t buf
        .returned (some pStart, t, buf)

/-! ### What is cut off -/

/-- The first token of a text that begins with one, and the text behind the
space that ends it. A space only ends a token while a quote is open. -/
def splitToken : Tokenizer → List UInt8 → List UInt8 × List UInt8
  | _, [] => ([], [])
  | t, c :: rest =>
      if c = space ∧ t.quoted then ([], rest)
      else (c :: (splitToken (t.toggle c) rest).1, (splitToken (t.toggle c) rest).2)

def skipSpaces (text : List UInt8) : List UInt8 := text.dropWhile (· = space)

theorem splitToken_setSp (t : Tokenizer) (p : Option Nat) (text : List UInt8) :
    splitToken (t.setSp p) text = splitToken t text := by
  induction text generalizing t with
  | nil => rfl
  | cons c rest ih =>
      have hRest : splitToken ((t.setSp p).toggle c) rest = splitToken (t.toggle c) rest :=
        ih (t.toggle c)
      rw [splitToken, splitToken, hRest]
      rfl

theorem splitToken_length (t : Tokenizer) (text : List UInt8) :
    (splitToken t text).2.length ≤ text.length - 1 := by
  induction text generalizing t with
  | nil => exact Nat.le_refl 0
  | cons c rest ih =>
      rw [splitToken]
      split_ifs
      · exact Nat.le_refl _
      · exact Nat.le_trans (ih (t.toggle c)) (Nat.sub_le _ _)

theorem skipSpaces_length (text : List UInt8) : (skipSpaces text).length ≤ text.length :=
  (List.dropWhile_sublist _).length_le

/-- All the tokens of a text. -/
def tokens (t : Tokenizer) (text : List UInt8) : List (List UInt8) :=
  if skipSpaces text = [] then []
  else
    (splitToken t (skipSpaces text)).1 ::
      tokens ((splitToken t (skipSpaces text)).1.foldl Tokenizer.toggle t)
        (splitToken t (skipSpaces text)).2
termination_by text.length
decreasing_by
  have hSplit := splitToken_length t (skipSpaces text)
  have hSkip := skipSpaces_length text
  have hSome := List.length_pos_iff.mpr ‹_›
  omega

theorem tokens_of_spaces {t : Tokenizer} {text : List UInt8} (hNone : skipSpaces text = []) :
    tokens t text = [] := by
  rw [tokens, if_pos hNone]

theorem tokens_of_token {t : Tokenizer} {text : List UInt8} (hSome : skipSpaces text ≠ []) :
    tokens t text = (splitToken t (skipSpaces text)).1 ::
      tokens ((splitToken t (skipSpaces text)).1.foldl Tokenizer.toggle t)
        (splitToken t (skipSpaces text)).2 := by
  rw [tokens, if_neg hSome]

theorem foldl_toggle_setSp (t : Tokenizer) (p : Option Nat) (text : List UInt8) :
    text.foldl Tokenizer.toggle (t.setSp p) = (text.foldl Tokenizer.toggle t).setSp p := by
  induction text generalizing t with
  | nil => rfl
  | cons c rest ih => exact ih (t.toggle c)

/-- The tokens depend on the quotes that are open, and not on `sp`. -/
theorem tokens_setSp (t : Tokenizer) (p : Option Nat) (text : List UInt8) :
    tokens (t.setSp p) text = tokens t text := by
  induction t, text using tokens.induct with
  | case1 t text hNone => rw [tokens_of_spaces hNone, tokens_of_spaces hNone]
  | case2 t text hSome ih =>
      rw [tokens_of_token hSome, tokens_of_token hSome, splitToken_setSp, foldl_toggle_setSp, ih]

/-! ### The loops -/

section Loops

variable {t : Tokenizer} {text left : List UInt8} {c : UInt8}

theorem findIdx_space (c : UInt8) : [space].findIdx (· == c) = if c = space then 0 else 1 := by
  rw [List.findIdx_cons]
  by_cases hc : c = space
  · rw [if_pos hc, hc]
    rfl
  · rw [if_neg hc, beq_false_of_ne (Ne.symm hc)]
    rfl

@[simp] theorem Tokenizer.toggle_space (t : Tokenizer) : t.toggle space = t := rfl

theorem skipDelimiters_space (hText : 0 ∉ text) (p : Nat) :
    skipDelimiters [space] (text ++ [0]) p =
      .returned (p + (text.takeWhile (· = space)).length) := by
  induction text generalizing p with
  | nil => rfl
  | cons c rest ih =>
      have hRest : 0 ∉ rest := fun h => hText (List.mem_cons_of_mem c h)
      rw [List.cons_append, skipDelimiters, findIdx_space, List.takeWhile_cons]
      by_cases hc : c = space
      · rw [if_pos hc, if_neg (by decide), ih hRest, if_pos (decide_eq_true hc), List.length_cons,
          Nat.add_assoc, Nat.add_comm 1]
      · rw [if_neg hc, List.length_singleton, if_pos rfl, if_neg (by rwa [decide_eq_true_iff])]
        rfl

theorem findTokenEnd_cons (hc : c ≠ 0) (rest : List UInt8) (sp : Nat) (buf : List UInt8) :
    findTokenEnd [space] (c :: rest) sp 1 t buf =
      if c = space ∧ t.quoted then .returned (t.setSp (some (sp + 1)), buf.set sp 0)
      else findTokenEnd [space] rest (sp + 1) 1 (t.toggle c) buf := by
  have hIndex : (if (t.toggle c).quoted then [space].findIdx (· == c) else 1) =
      if c = space ∧ t.quoted then 0 else 1 := by
    rw [findIdx_space]
    by_cases hSpace : c = space
    · rw [hSpace, Tokenizer.toggle_space]
      cases t.quoted <;> rfl
    · rw [if_neg hSpace, ite_self, if_neg fun h => hSpace h.1]
  rw [findTokenEnd, if_neg hc]
  dsimp only
  rw [hIndex, List.length_singleton]
  by_cases hCut : c = space ∧ t.quoted
  · rw [if_pos hCut, if_pos hCut, if_pos Nat.zero_lt_one, hCut.1, Tokenizer.toggle_space,
      if_pos ⟨hCut.2, Nat.zero_lt_one⟩]
  · rw [if_neg hCut, if_neg hCut, if_neg (Nat.lt_irrefl 1), if_neg fun h => Nat.lt_irrefl 1 h.2]

/-- The token is scanned to its end, where the next call goes on. The array
then holds the token with a terminator behind it. -/
theorem findTokenEnd_space (hText : 0 ∉ text) (t : Tokenizer) (left : List UInt8) :
    ∃ left', findTokenEnd [space] (text ++ [0]) left.length 1 t (left ++ (text ++ [0])) =
        .returned (((splitToken t text).1.foldl Tokenizer.toggle t).setSp (some left'.length),
          left' ++ ((splitToken t text).2 ++ [0])) ∧
      left ++ ((splitToken t text).1 ++ [0]) <+: left' ++ ((splitToken t text).2 ++ [0]) := by
  induction text generalizing t left with
  | nil => exact ⟨left, rfl, List.prefix_refl _⟩
  | cons c rest ih =>
      have hc : c ≠ 0 := fun h => hText (h ▸ List.mem_cons_self)
      have hRest : 0 ∉ rest := fun h => hText (List.mem_cons_of_mem c h)
      rw [List.cons_append, findTokenEnd_cons hc, splitToken]
      by_cases hCut : c = space ∧ t.quoted
      · rw [if_pos hCut, if_pos hCut]
        refine ⟨left ++ [0], ?_, ?_⟩
        · rw [List.set_append_right _ _ (Nat.le_refl _), Nat.sub_self, List.set_cons_zero,
            List.length_append, List.append_assoc]
          rfl
        · rw [List.append_assoc]
          exact (List.prefix_append_right_inj left).mpr ⟨rest ++ [0], rfl⟩
      · rw [if_neg hCut, if_neg hCut]
        obtain ⟨left', hEnd, hPrefix⟩ := ih hRest (t.toggle c) (left ++ [c])
        rw [List.length_append, List.append_assoc] at hEnd
        rw [List.append_assoc] at hPrefix
        exact ⟨left', hEnd, hPrefix⟩

end Loops

/-! ### The call -/

section Call

variable {t : Tokenizer} {text left : List UInt8} {str : Option Nat}

theorem strncpy_append_zero {token : List UInt8} (hToken : 0 ∉ token) (behind : List UInt8)
    (count : Nat) : strncpy (token ++ 0 :: behind) count = token.take (count - 1) := by
  have hWhole : ∀ c ∈ token, decide (c ≠ 0) = true := fun c hc =>
    decide_eq_true fun hZero => hToken (hZero ▸ hc)
  rw [strncpy, List.takeWhile_append_of_pos hWhole, List.takeWhile_cons_of_neg (by decide),
    List.append_nil]

theorem strncpy_of_short {src : List UInt8} {count : Nat} (hSrc : 0 ∉ src)
    (hShort : src.length < count) : strncpy src count = src := by
  have hWhole : ∀ c ∈ src, decide (c ≠ 0) = true := fun c hc =>
    decide_eq_true fun hZero => hSrc (hZero ▸ hc)
  rw [strncpy, List.takeWhile_eq_self_iff.mpr hWhole, List.take_of_length_le (by omega)]

theorem splitToken_subset (t : Tokenizer) (text : List UInt8) :
    (splitToken t text).1 ⊆ text ∧ (splitToken t text).2 ⊆ text := by
  induction text generalizing t with
  | nil => exact ⟨List.Subset.refl _, List.Subset.refl _⟩
  | cons c rest ih =>
      rw [splitToken]
      split_ifs
      · exact ⟨List.nil_subset _, List.subset_cons_self c rest⟩
      · exact ⟨List.cons_subset_cons c (ih _).1, List.subset_cons_of_subset c (ih _).2⟩

def leadingSpaces (text : List UInt8) : List UInt8 := text.takeWhile (· = space)

theorem leadingSpaces_append (text : List UInt8) : leadingSpaces text ++ skipSpaces text = text :=
  List.takeWhile_append_dropWhile

/-- A call on an array that holds `text` from the start on. -/
theorem strtok_space (hText : 0 ∉ text) (hStart : t.sp.or str = some left.length) :
    strtok t (left ++ (text ++ [0])) str [space] =
      if skipSpaces text = [] then .returned (none, t.setSp none, left ++ (text ++ [0]))
      else
        findTokenEnd [space] (skipSpaces text ++ [0]) (left ++ leadingSpaces text).length 1 t
            ((left ++ leadingSpaces text) ++ (skipSpaces text ++ [0])) >>= fun found =>
          .returned (some (left ++ leadingSpaces text).length, found) := by
  have hBuf : left ++ (text ++ [0]) = (left ++ leadingSpaces text) ++ (skipSpaces text ++ [0]) := by
    conv_lhs => rw [← leadingSpaces_append text]
    rw [List.append_assoc, List.append_assoc]
  have hSkip : left.length + (text.takeWhile (· = space)).length =
      (left ++ leadingSpaces text).length := List.length_append.symm
  rw [strtok, hStart]
  dsimp only
  rw [List.drop_left, skipDelimiters_space hText, hSkip]
  change (if _ then _ else _) = _
  rw [hBuf, List.drop_left, List.getD_append_right _ _ _ _ (Nat.le_refl _), Nat.sub_self,
    List.length_singleton]
  cases hRest : skipSpaces text with
  | nil => rw [if_pos rfl, List.nil_append, List.getD_cons_zero, if_pos rfl]
  | cons c rest =>
      have hc : c ≠ 0 := fun hZero =>
        hText (hZero ▸ (List.dropWhile_sublist _).subset (hRest ▸ List.mem_cons_self))
      rw [List.cons_append, List.getD_cons_zero, if_neg hc, if_neg (List.cons_ne_nil _ _)]

/-- A call that finds a token, which can be copied from the array. -/
theorem strtok_token (hText : 0 ∉ text) (hSome : skipSpaces text ≠ [])
    (hStart : t.sp.or str = some left.length) :
    ∃ pStart left', strtok t (left ++ (text ++ [0])) str [space] =
        .returned (some pStart,
          ((splitToken t (skipSpaces text)).1.foldl Tokenizer.toggle t).setSp (some left'.length),
          left' ++ ((splitToken t (skipSpaces text)).2 ++ [0])) ∧
      ∀ count, strncpy ((left' ++ ((splitToken t (skipSpaces text)).2 ++ [0])).drop pStart) count =
        (splitToken t (skipSpaces text)).1.take (count - 1) := by
  have hRest : 0 ∉ skipSpaces text := fun h => hText ((List.dropWhile_sublist _).subset h)
  have hToken : 0 ∉ (splitToken t (skipSpaces text)).1 := fun h =>
    hRest ((splitToken_subset t _).1 h)
  obtain ⟨left', hEnd, behind, hBuf⟩ := findTokenEnd_space hRest t (left ++ leadingSpaces text)
  refine ⟨(left ++ leadingSpaces text).length, left', ?_, fun count => ?_⟩
  · rw [strtok_space hText hStart, if_neg hSome, hEnd]
    rfl
  · rw [← hBuf, List.append_assoc, List.drop_left, List.append_assoc]
    exact strncpy_append_zero hToken behind count

end Call

end LiebeOS
