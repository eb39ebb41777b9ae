import LiebeOS.Lib.Loop
import LiebeOS.Programs.Itoa
import LiebeOS.Programs.Strtok

/-! `printf` of the programs' `stdio.c`. The format and the strings lie in memory, where
`itoa` has its static array. The pointer into the format is moved by the header of the loop
and inside the loop. -/
namespace LiebeOS

open Loop CharArray Decimal

def percent : UInt8 := 37

/-- An argument behind the format. A string is the pointer to it. -/
inductive PrintfArg where
  | int (ival : Int32)
  | string (sval : Int)

/-- `output` has an entry for each call of `putchar` and of `print`, and `reads` are the
places of the format that have been looked at. -/
structure PrintfState where
  p : Int
  ap : List PrintfArg
  output : List (List UInt8)
  reads : List Int
  mem : Int → UInt8

/-- The characters that `print` has the kernel write. It copies the string into a buffer
of 1024 characters first. -/
def printed (mem : Int → UInt8) (string : Int) : List UInt8 :=
  strncpy (cellsFrom mem string 1024) 1024

/-- The pointer that `itoa` returns, and memory behind the call. Its array is at address
`array`. -/
def itoaCall (array : Int) (mem : Int → UInt8) (i : Int) : Option (Int × (Int → UInt8)) := do
  let (loc, text) ← itoa i ⟨fun k => mem (array + k), []⟩
  some (array + loc, fun k => text.cells (k - array))

/-- `*p` -/
def PrintfState.look (s : PrintfState) : PrintfState := { s with reads := s.p :: s.reads }

/-- `p++` -/
def PrintfState.next (s : PrintfState) : PrintfState := { s with p := s.p + 1 }

def PrintfState.write (s : PrintfState) (chars : List UInt8) : PrintfState :=
  { s with output := s.output ++ [chars] }

/-- `ival = va_arg(ap, int); print(itoa(ival))`, undefined without such an argument. -/
def PrintfState.printInt (s : PrintfState) (array : Int) : Option PrintfState :=
  match s.ap with
  | .int ival :: ap => do
      let (string, mem) ← itoaCall array s.mem ival.toInt
      some ({ s with ap := ap, mem := mem }.write (printed mem string))
  | _ => none

/-- `sval = va_arg(ap, char *); print(sval)`, undefined without such an argument. -/
def PrintfState.printString (s : PrintfState) : Option PrintfState :=
  match s.ap with
  | .string sval :: ap => some ({ s with ap := ap }.write (printed s.mem sval))
  | _ => none

/-- The loop of `printf`, with the `p++` of its header at the end of a round. -/
def printfRound (array : Int) (s : PrintfState) : Option (PrintfState ⊕ PrintfState) :=
  let s := s.look
  if s.mem s.p = 0 then some (.inr s)
  else if s.mem s.p ≠ percent then some (.inl (s.write [s.mem s.p]).next)
  else
    let s := s.next.look
    if s.mem s.p = 100 then (s.printInt array).map fun s => .inl s.next
    else if s.mem s.p = 115 then s.printString.map fun s => .inl s.next
    else some (.inl (s.write [s.mem s.p]).next)

def printfStart (mem : Int → UInt8) (fmt : Int) (args : List PrintfArg) : PrintfState :=
  ⟨fmt, args, [], [], mem⟩

/-- The call `printf(fmt, args)` comes back, in state `s`. -/
def PrintfReturns (array : Int) (mem : Int → UInt8) (fmt : Int) (args : List PrintfArg)
    (s : PrintfState) : Prop :=
  Returns (printfRound array) (printfStart mem fmt args) s

/-! ### What a format stands for -/

/-- The parts of a format. -/
inductive Conversion where
  | char (c : UInt8)
  | int
  | string

def Conversion.takesArg : Conversion → Bool
  | .char _ => false
  | .int | .string => true

/-- What a character behind a `%` asks for. -/
def conversion (c : UInt8) : Conversion :=
  if c = 100 then .int else if c = 115 then .string else .char c

/-- A `%` at the end has no character behind it. -/
def conversions : List UInt8 → List Conversion
  | [] => []
  | c :: fmt =>
      if c = percent then
        match fmt with
        | [] => []
        | d :: fmt => conversion d :: conversions fmt
      else .char c :: conversions fmt

/-- The format ends in a `%` that is not the second character of a pair. -/
def LonePercent : List UInt8 → Prop
  | [] => False
  | c :: fmt =>
      if c = percent then
        match fmt with
        | [] => True
        | _ :: fmt => LonePercent fmt
      else LonePercent fmt

/-- What the parts stand for in `mem`, one text for each: the arguments match, and their
strings are there. -/
inductive Expands (mem : Int → UInt8) :
    List Conversion → List PrintfArg → List (List UInt8) → Prop where
  | nil (args : List PrintfArg) : Expands mem [] args []
  | char (c : UInt8) {parts : List Conversion} {args : List PrintfArg} {texts : List (List UInt8)}
      (rest : Expands mem parts args texts) : Expands mem (.char c :: parts) args ([c] :: texts)
  | int (ival : Int32) {parts : List Conversion} {args : List PrintfArg}
      {texts : List (List UInt8)} (rest : Expands mem parts args texts) :
      Expands mem (.int :: parts) (.int ival :: args) (numeral ival.toInt :: texts)
  | string {sval : Int} {string : List UInt8} {parts : List Conversion} {args : List PrintfArg}
      {texts : List (List UInt8)} (held : HoldsText mem sval string)
      (rest : Expands mem parts args texts) :
      Expands mem (.string :: parts) (.string sval :: args) (string :: texts)

/-- The arguments that the parts use. -/
def usedArgs (parts : List Conversion) (args : List PrintfArg) : List PrintfArg :=
  args.take (parts.countP Conversion.takesArg)

/-- The kernel's buffer has room for every string that is printed. -/
def StringsFit (mem : Int → UInt8) (parts : List Conversion) (args : List PrintfArg) : Prop :=
  ∀ sval string, .string sval ∈ usedArgs parts args → HoldsText mem sval string →
    string.length < 1024

/-- Memory with the numeral of `i` and its NUL at the end of the array. -/
def numeralStored (array : Int) (mem : Int → UInt8) (i : Int) : Int → UInt8 := fun k =>
  if array + 11 - (numeral i).length ≤ k ∧ k < array + 12 then
    (numeral i)[(k - (array + 11 - (numeral i).length)).toNat]?.getD 0
  else mem k

/-- None of the numerals that are stored before a string is printed, into memory as it is in
`mem`, changes what is shown of the string. -/
def StringsKept (array : Int) (start : Int → UInt8) :
    (Int → UInt8) → List Conversion → List PrintfArg → Prop
  | mem, .char _ :: parts, args => StringsKept array start mem parts args
  | mem, .int :: parts, .int ival :: args =>
      StringsKept array start (numeralStored array mem ival.toInt) parts args
  | mem, .string :: parts, .string sval :: args =>
      printed mem sval = printed start sval ∧ StringsKept array start mem parts args
  | _, _, _ => True

/-- Memory behind a part, and the arguments that are left. -/
def Conversion.behind (array : Int) (mem : Int → UInt8) :
    Conversion → List PrintfArg → (Int → UInt8) × List PrintfArg
  | .char _, args => (mem, args)
  | .int, .int ival :: args => (numeralStored array mem ival.toInt, args)
  | _, args => (mem, args.tail)

/-- None of the numerals, stored into memory as it is in `mem`, changes what is left of the
format at `p`. -/
def FormatKept (array : Int) : (Int → UInt8) → Int → List UInt8 → List PrintfArg → Prop
  | _, _, [], _ => True
  | mem, p, c :: fmt, args =>
      if c = percent then
        match fmt with
        | [] => True
        | d :: fmt =>
            let behind := (conversion d).behind array mem args
            HoldsText behind.1 (p + 1 + 1) fmt ∧ FormatKept array behind.1 (p + 1 + 1) fmt behind.2
      else FormatKept array mem (p + 1) fmt args

/-- None of the `n` characters of a text, nor its NUL, is in the array. -/
def OutsideArray (array text : Int) (n : Nat) : Prop :=
  ∀ k, text ≤ k → k ≤ text + n → k < array ∨ array + 12 ≤ k

/-! ### One part of a format -/

/-- What the calls for the parts show, while the numerals change memory. -/
def printedParts (array : Int) :
    (Int → UInt8) → List Conversion → List PrintfArg → List (List UInt8)
  | mem, .char c :: parts, args => [c] :: printedParts array mem parts args
  | mem, .int :: parts, .int ival :: args =>
      numeral ival.toInt :: printedParts array (numeralStored array mem ival.toInt) parts args
  | mem, .string :: parts, .string sval :: args =>
      printed mem sval :: printedParts array mem parts args
  | _, _, _ => []

section Parts

variable {array : Int} {start mem : Int → UInt8} {parts : List Conversion} {args : List PrintfArg}
  {texts : List (List UInt8)}

theorem stringsFit_char (c : UInt8) :
    StringsFit start (.char c :: parts) args ↔ StringsFit start parts args := by
  unfold StringsFit usedArgs
  rw [List.countP_cons_of_neg (by simp [Conversion.takesArg])]

theorem stringsFit_int (ival : Int32) :
    StringsFit start (.int :: parts) (.int ival :: args) ↔ StringsFit start parts args := by
  unfold StringsFit usedArgs
  rw [List.countP_cons_of_pos rfl, List.take_succ_cons]
  simp

theorem stringsFit_string {sval : Int} {string : List UInt8} (h : HoldsText start sval string) :
    StringsFit start (.string :: parts) (.string sval :: args) ↔
      string.length < 1024 ∧ StringsFit start parts args := by
  unfold StringsFit usedArgs
  rw [List.countP_cons_of_pos rfl, List.take_succ_cons]
  constructor
  · exact fun hFit => ⟨hFit sval string List.mem_cons_self h,
      fun sval' string' hUsed => hFit sval' string' (List.mem_cons_of_mem _ hUsed)⟩
  · rintro ⟨hFits, hRest⟩ sval' string' hUsed hHeld
    rcases List.mem_cons.mp hUsed with hSame | hUsed
    · obtain rfl := PrintfArg.string.inj hSame
      rwa [hHeld.unique h]
    · exact hRest sval' string' hUsed hHeld

theorem printed_held {sval : Int} {string : List UInt8} (h : HoldsText mem sval string) :
    printed mem sval = string.take 1023 := by
  have hText : printed mem sval = ((cellsFrom mem sval 1024).takeWhile (· ≠ 0)).take 1023 := rfl
  rw [hText, h.takeWhile, List.take_take]
  rfl

/-- A string is shown as it was when the kernel's buffer has room for it and nothing has
changed what is shown. -/
theorem printed_iff {sval : Int} {string : List UInt8} (h : HoldsText start sval string) :
    printed mem sval = string ↔ string.length < 1024 ∧ printed mem sval = printed start sval := by
  constructor
  · intro hSame
    have hCut : (printed mem sval).length ≤ 1023 := List.length_take_le ..
    rw [hSame] at hCut
    refine ⟨by omega, ?_⟩
    rw [hSame, printed_held h, List.take_of_length_le hCut]
  · rintro ⟨hFits, hSame⟩
    rw [hSame, printed_held h, List.take_of_length_le (by omega)]

/-- The parts show what they stand for unless a string is cut off or changed. -/
theorem Expands.printed_iff (h : Expands start parts args texts) :
    printedParts array mem parts args = texts ↔
      StringsFit start parts args ∧ StringsKept array start mem parts args := by
  induction h generalizing mem with
  | nil args => simp [printedParts, StringsFit, StringsKept, usedArgs]
  | char c rest ih =>
      rw [stringsFit_char, printedParts, StringsKept, ← ih]
      exact List.cons_inj_right _
  | int ival rest ih =>
      rw [stringsFit_int, printedParts, StringsKept, ← ih]
      exact List.cons_inj_right _
  | string held rest ih =>
      rw [stringsFit_string held, printedParts, StringsKept, List.cons.injEq,
        LiebeOS.printed_iff held, ih]
      exact and_and_and_comm

/-- Strings that are not changed can only be cut off. -/
theorem Expands.printed_prefix (h : Expands start parts args texts)
    (hKept : StringsKept array start mem parts args) :
    List.Forall₂ (· <+: ·) (printedParts array mem parts args) texts := by
  induction h generalizing mem with
  | nil args => exact List.Forall₂.nil
  | char c rest ih => exact List.Forall₂.cons List.prefix_rfl (ih hKept)
  | int ival rest ih => exact List.Forall₂.cons List.prefix_rfl (ih hKept)
  | string held rest ih =>
      obtain ⟨hSame, hRest⟩ := hKept
      refine List.Forall₂.cons ?_ (ih hRest)
      rw [hSame, printed_held held]
      exact List.take_prefix ..

theorem flatten_length_le {xs ys : List (List UInt8)} (h : List.Forall₂ (· <+: ·) xs ys) :
    xs.flatten.length ≤ ys.flatten.length := by
  induction h with
  | nil => exact Nat.le_refl 0
  | cons hHead _ ih =>
      rw [List.flatten_cons, List.flatten_cons, List.length_append, List.length_append]
      exact Nat.add_le_add hHead.length_le ih

/-- Texts that have been cut off are not made up for by the others. -/
theorem flatten_prefix {xs ys : List (List UInt8)} (h : List.Forall₂ (· <+: ·) xs ys)
    (hFlat : xs.flatten = ys.flatten) : xs = ys := by
  induction h with
  | nil => rfl
  | cons hHead hTail ih =>
      rw [List.flatten_cons, List.flatten_cons] at hFlat
      have hLengths := congrArg List.length hFlat
      rw [List.length_append, List.length_append] at hLengths
      have hHeadLength := hHead.length_le
      have hTailLength := flatten_length_le hTail
      obtain ⟨hSame, hRest⟩ := List.append_inj hFlat (by omega)
      rw [hSame, ih hRest]

end Parts

/-! ### The numerals in memory -/

section Numerals

variable (array : Int) (mem : Int → UInt8) (ival : Int32)

/-- `itoa` returns the place of the numeral in its array. -/
theorem itoaCall_numeral :
    itoaCall array mem ival.toInt = some (array + 11 - (numeral ival.toInt).length,
      numeralStored array mem ival.toInt) ∧
    HoldsText (numeralStored array mem ival.toInt) (array + 11 - (numeral ival.toInt).length)
      (numeral ival.toInt) ∧ (numeral ival.toInt).length ≤ 11 := by
  obtain ⟨text, hCall, hLength, hText, hStored⟩ :=
    itoa_numeral ival.le_toInt ival.toInt_lt ⟨fun k => mem (array + k), []⟩
  have hPlace : array + (11 - ((numeral ival.toInt).length : Int)) =
      array + 11 - (numeral ival.toInt).length := by omega
  have hMem : (fun k => text.cells (k - array)) = numeralStored array mem ival.toInt := by
    funext k
    unfold numeralStored
    split
    · rename_i hIn
      have hCell := hText.cell (k := (k - (array + 11 - (numeral ival.toInt).length)).toNat)
        (by omega)
      rw [← hCell]
      congr 1
      omega
    · rename_i hOut
      rw [hStored.others _ (by omega)]
      exact congrArg mem (by omega)
  refine ⟨?_, ?_, hLength⟩
  · rw [itoaCall, hCall, Option.bind_eq_bind, Option.bind_some]
    dsimp only
    rw [hPlace, hMem]
  · rw [← hMem, ← hPlace]
    exact hText.shift array

variable {array}

theorem numeralStored_outside {k : Int} (hOut : k < array ∨ array + 12 ≤ k) :
    numeralStored array mem ival.toInt k = mem k := by
  have hLength := (itoaCall_numeral array mem ival).2.2
  exact if_neg (by omega)

end Numerals

/-! ### The loop -/

theorem conversions_ordinary {c : UInt8} (fmt : List UInt8) (h : c ≠ percent) :
    conversions (c :: fmt) = .char c :: conversions fmt := by
  rw [conversions.eq_def]
  exact if_neg h

theorem lonePercent_ordinary {c : UInt8} (fmt : List UInt8) (h : c ≠ percent) :
    LonePercent (c :: fmt) ↔ LonePercent fmt := by
  rw [LonePercent.eq_def]
  exact iff_of_eq (if_neg h)

theorem formatKept_ordinary {array p : Int} {mem : Int → UInt8} {args : List PrintfArg} {c : UInt8}
    (fmt : List UInt8) (h : c ≠ percent) :
    FormatKept array mem p (c :: fmt) args ↔ FormatKept array mem (p + 1) fmt args := by
  rw [FormatKept.eq_def]
  exact iff_of_eq (if_neg h)

section Run

variable {array : Int} {start : Int → UInt8} {s t : PrintfState} {fmt : List UInt8}
  {texts : List (List UInt8)}

/-- What the `switch` does for a part. -/
def PrintfState.convert (s : PrintfState) (array : Int) : Conversion → Option PrintfState
  | .char c => some (s.write [c])
  | .int => s.printInt array
  | .string => s.printString

theorem printfRound_end (h : s.mem s.p = 0) : printfRound array s = some (.inr s.look) := if_pos h

theorem printfRound_ordinary {c : UInt8} (h : s.mem s.p = c) (hChar : c ≠ 0) (hOther : c ≠ percent) :
    printfRound array s = some (.inl (s.look.write [c]).next) := by
  subst h
  rw [printfRound]
  exact (if_neg hChar).trans (if_pos hOther)

theorem printfRound_pair {d : UInt8} (h : s.mem s.p = percent) (hNext : s.mem (s.p + 1) = d) :
    printfRound array s =
      (s.look.next.look.convert array (conversion d)).map fun s => .inl s.next := by
  subst hNext
  have hPercent : s.look.mem s.look.p = percent := h
  have hSecond : s.look.next.look.mem s.look.next.look.p = s.mem (s.p + 1) := rfl
  simp only [printfRound, hPercent, hSecond]
  rw [if_neg (by decide), if_neg (by decide), conversion]
  split
  · rfl
  · split
    · rfl
    · rfl

/-- A part moves neither the pointer nor what has been looked at. -/
theorem convert_keeps {part : Conversion} (h : s.convert array part = some t) :
    t.p = s.p ∧ t.reads = s.reads ∧ part.behind array s.mem s.ap = (t.mem, t.ap) := by
  cases part with
  | char c =>
      obtain rfl := Option.some.inj h
      exact ⟨rfl, rfl, rfl⟩
  | int =>
      change s.printInt array = some t at h
      unfold PrintfState.printInt at h
      split at h
      · rename_i ival ap hArg
        rw [(itoaCall_numeral array s.mem ival).1] at h
        obtain rfl := Option.some.inj h
        rw [hArg]
        exact ⟨rfl, rfl, rfl⟩
      · exact absurd h (by simp)
  | string =>
      change s.printString = some t at h
      unfold PrintfState.printString at h
      split at h
      · rename_i sval ap hArg
        obtain rfl := Option.some.inj h
        rw [hArg]
        exact ⟨rfl, rfl, rfl⟩
      · exact absurd h (by simp)

/-- What is left of the format is still there behind a part. -/
theorem convert_format {d : UInt8} {p : Int} (h : s.convert array (conversion d) = some t)
    (hKept : FormatKept array s.mem p (percent :: d :: fmt) s.ap) :
    HoldsText t.mem (p + 1 + 1) fmt ∧ FormatKept array t.mem (p + 1 + 1) fmt t.ap := by
  rw [FormatKept, if_pos rfl] at hKept
  dsimp only at hKept
  rwa [(convert_keeps h).2.2] at hKept

/-- A part whose argument is there is printed by one call. -/
theorem convert_prints {part : Conversion} {parts : List Conversion}
    (h : Expands start (part :: parts) s.ap texts) :
    ∃ t text rest, s.convert array part = some t ∧ t.output = s.output ++ [text] ∧
      Expands start parts t.ap rest ∧
      printedParts array s.mem (part :: parts) s.ap = text :: printedParts array t.mem parts t.ap := by
  obtain ⟨p, ap, before, reads, mem⟩ := s
  cases h with
  | char c rest => exact ⟨_, [c], _, rfl, rfl, rest, rfl⟩
  | @int ival _ args _ rest =>
      obtain ⟨hCall, hHeld, hLength⟩ := itoaCall_numeral array mem ival
      have hShown := printed_held hHeld
      rw [List.take_of_length_le (by omega)] at hShown
      refine ⟨⟨p, args, before ++ [numeral ival.toInt], reads, numeralStored array mem ival.toInt⟩,
        _, _, ?_, rfl, rest, rfl⟩
      simp only [PrintfState.convert, PrintfState.printInt, hCall, Option.bind_eq_bind,
        Option.bind_some, hShown, PrintfState.write]
  | string held rest => exact ⟨_, _, _, rfl, rfl, rest, rfl⟩

/-- Where no `%` stands alone the loop looks at the format only, and prints its parts. -/
theorem printf_run (hHeld : HoldsText s.mem s.p fmt) (hKept : FormatKept array s.mem s.p fmt s.ap)
    (hPairs : ¬ LonePercent fmt) (hArgs : Expands start (conversions fmt) s.ap texts) :
    ∃ t, Returns (printfRound array) s t ∧
      t.output = s.output ++ printedParts array s.mem (conversions fmt) s.ap ∧
      ∀ k ∈ t.reads, k ∈ s.reads ∨ (s.p ≤ k ∧ k ≤ s.p + fmt.length) := by
  induction fmt using conversions.induct generalizing s texts with
  | case1 =>
      refine ⟨s.look, Returns.leave (printfRound_end hHeld), (List.append_nil _).symm, ?_⟩
      intro k hk
      rcases List.mem_cons.mp hk with rfl | hBefore
      · exact Or.inr ⟨Int.le_refl _, by simp⟩
      · exact Or.inl hBefore
  | case2 => exact absurd (by simp [LonePercent]) hPairs
  | case3 d fmt ih =>
      obtain ⟨hFirst, _, hSecond, _, _⟩ := hHeld
      rw [conversions, if_pos rfl] at hArgs ⊢
      rw [LonePercent, if_pos rfl] at hPairs
      obtain ⟨m, text, rest, hConvert, hOutput, hArgsRest, hPrinted⟩ :=
        @convert_prints array _ s.look.next.look _ _ _ hArgs
      obtain ⟨hPlace, hReads, _⟩ := convert_keeps hConvert
      have hNextPlace : m.next.p = s.p + 1 + 1 := congrArg (· + 1) hPlace
      obtain ⟨hHeldRest, hKeptRest⟩ := convert_format (s := s.look.next.look) hConvert hKept
      obtain ⟨t, hReturns, hText, hLooked⟩ := ih (s := m.next) (by rwa [hNextPlace])
        (by rwa [hNextPlace]) hPairs hArgsRest
      refine ⟨t, Returns.goOn ?_ hReturns, ?_, fun k hk => ?_⟩
      · rw [printfRound_pair hFirst hSecond, hConvert]
        rfl
      · have hParts : printedParts array s.mem (conversion d :: conversions fmt) s.ap =
            text :: printedParts array m.mem (conversions fmt) m.ap := hPrinted
        have hBefore : m.next.output = s.output ++ [text] := hOutput
        rw [hText, hParts, hBefore, List.append_assoc]
        rfl
      · rw [List.length_cons, List.length_cons]
        rcases hLooked k hk with hBefore | ⟨hLow, hHigh⟩
        · have hMem : k ∈ (s.p + 1) :: s.p :: s.reads := by
            rw [← show m.next.reads = (s.p + 1) :: s.p :: s.reads from hReads]
            exact hBefore
          rcases List.mem_cons.mp hMem with rfl | hMem
          · exact Or.inr ⟨by omega, by push_cast; omega⟩
          · rcases List.mem_cons.mp hMem with rfl | hMem
            · exact Or.inr ⟨by omega, by push_cast; omega⟩
            · exact Or.inl hMem
        · rw [hNextPlace] at hLow hHigh
          exact Or.inr ⟨by omega, by push_cast; omega⟩
  | case4 c fmt hOther ih =>
      obtain ⟨hFirst, hChar, hRest⟩ := hHeld
      rw [conversions_ordinary fmt hOther] at hArgs ⊢
      rw [lonePercent_ordinary fmt hOther] at hPairs
      rw [formatKept_ordinary fmt hOther] at hKept
      cases hArgs with
      | char _ hArgsRest =>
          have hPlace : (s.look.write [c]).next.p = s.p + 1 := rfl
          obtain ⟨t, hReturns, hText, hLooked⟩ :=
            ih (s := (s.look.write [c]).next) hRest hKept hPairs hArgsRest
          refine ⟨t, Returns.goOn (printfRound_ordinary hFirst hChar hOther) hReturns, ?_, ?_⟩
          · rw [hText]
            exact List.append_assoc ..
          · intro k hk
            rw [List.length_cons]
            rcases hLooked k hk with hBefore | ⟨hLow, hHigh⟩
            · rcases List.mem_cons.mp hBefore with rfl | hMem
              · exact Or.inr ⟨Int.le_refl _, by push_cast; omega⟩
              · exact Or.inl hMem
            · rw [hPlace] at hLow hHigh
              exact Or.inr ⟨by omega, by push_cast; omega⟩

/-- A round looks at `p`, and keeps what has been looked at before. -/
theorem printfRound_reads (h : printfRound array s = some (.inl t) ∨ printfRound array s = some (.inr t)) :
    ∀ k ∈ s.p :: s.reads, k ∈ t.reads := by
  intro k hk
  by_cases hEnd : s.mem s.p = 0
  · rw [printfRound_end hEnd] at h
    obtain rfl : s.look = t := by simpa using h
    exact hk
  · by_cases hPercent : s.mem s.p = percent
    · rw [printfRound_pair hPercent rfl] at h
      rcases h with h | h
      · obtain ⟨m, hConvert, hNext⟩ := Option.map_eq_some_iff.mp h
        obtain rfl := Sum.inl.inj hNext
        have hReads : m.next.reads = (s.p + 1) :: s.p :: s.reads := (convert_keeps hConvert).2.1
        rw [hReads]
        exact List.mem_cons_of_mem _ hk
      · obtain ⟨_, _, hNext⟩ := Option.map_eq_some_iff.mp h
        exact absurd hNext (by simp)
    · rw [printfRound_ordinary rfl hEnd hPercent] at h
      obtain rfl : (s.look.write [s.mem s.p]).next = t := by simpa using h
      exact hk

/-- What the loop looks at is on record when it is left. -/
theorem PrintfState.mem_reads (h : Returns (printfRound array) s t) :
    ∀ k ∈ s.p :: s.reads, k ∈ t.reads := by
  refine Returns.induction (P := fun s => ∀ k ∈ s.p :: s.reads, k ∈ t.reads) h ?_ ?_
  · exact fun s hLeave => printfRound_reads (Or.inr hLeave)
  · intro s m hRound hRest k hk
    exact hRest k (List.mem_cons_of_mem _ (printfRound_reads (Or.inl hRound) k hk))

/-- Behind a `%` that stands alone the loop goes on beyond the NUL. -/
theorem printf_run_past (hHeld : HoldsText s.mem s.p fmt)
    (hKept : FormatKept array s.mem s.p fmt s.ap) (hLone : LonePercent fmt)
    (h : Returns (printfRound array) s t) : s.p + fmt.length + 1 ∈ t.reads := by
  induction fmt using conversions.induct generalizing s with
  | case1 => exact hLone.elim
  | case2 =>
      obtain ⟨hFirst, _, hNul⟩ := hHeld
      have hRound : printfRound array s = some (.inl (s.look.next.look.write [0]).next) :=
        printfRound_pair hFirst hNul
      rcases h.cases with hLeft | ⟨m, hOther, hRest⟩
      · rw [hRound] at hLeft
        exact absurd hLeft (by simp)
      · obtain rfl : (s.look.next.look.write [0]).next = m := by
          simpa using hRound.symm.trans hOther
        exact PrintfState.mem_reads hRest _ List.mem_cons_self
  | case3 d fmt ih =>
      obtain ⟨hFirst, _, hSecond, _, _⟩ := hHeld
      rw [LonePercent, if_pos rfl] at hLone
      rcases h.cases with hLeft | ⟨m, hRound, hRest⟩
      · rw [printfRound_pair hFirst hSecond] at hLeft
        obtain ⟨_, _, hNext⟩ := Option.map_eq_some_iff.mp hLeft
        exact absurd hNext (by simp)
      · rw [printfRound_pair hFirst hSecond] at hRound
        obtain ⟨n, hConvert, hNext⟩ := Option.map_eq_some_iff.mp hRound
        obtain rfl := Sum.inl.inj hNext
        have hPlace : n.next.p = s.p + 1 + 1 := congrArg (· + 1) (convert_keeps hConvert).1
        obtain ⟨hHeldRest, hKeptRest⟩ := convert_format (s := s.look.next.look) hConvert hKept
        have hPast := ih (s := n.next) (by rwa [hPlace]) (by rwa [hPlace]) hLone hRest
        rw [hPlace] at hPast
        rw [List.length_cons, List.length_cons]
        push_cast
        rwa [show s.p + (fmt.length + 1 + 1) + 1 = s.p + 1 + 1 + fmt.length + 1 by omega]
  | case4 c fmt hOther ih =>
      obtain ⟨hFirst, hChar, hTail⟩ := hHeld
      rw [lonePercent_ordinary fmt hOther] at hLone
      rw [formatKept_ordinary fmt hOther] at hKept
      have hOrdinary : printfRound array s = some (.inl (s.look.write [c]).next) :=
        printfRound_ordinary hFirst hChar hOther
      rcases h.cases with hLeft | ⟨m, hRound, hRest⟩
      · rw [hOrdinary] at hLeft
        exact absurd hLeft (by simp)
      · obtain rfl : (s.look.write [c]).next = m := by
          simpa using hOrdinary.symm.trans hRound
        have hPast := ih (s := (s.look.write [c]).next) hTail hKept hLone hRest
        rw [List.length_cons]
        push_cast
        rwa [show s.p + (fmt.length + 1) + 1 = s.p + 1 + fmt.length + 1 by omega]

end Run

/-! ### The call -/

/-- The call comes back without having looked behind the NUL of the format, and `output` is
what its calls of `putchar` and `print` have shown. -/
def PrintfOutputs (array : Int) (mem : Int → UInt8) (fmt : Int) (chars : List UInt8)
    (args : List PrintfArg) (output : List (List UInt8)) : Prop :=
  ∃ s, PrintfReturns array mem fmt args s ∧ (∀ k ∈ s.reads, fmt ≤ k ∧ k ≤ fmt + chars.length) ∧
    s.output = output

section Call

variable {array fmt : Int} {mem start : Int → UInt8} {chars : List UInt8} {parts : List Conversion}
  {args : List PrintfArg} {texts output : List (List UInt8)}

theorem printf_outputs (hFmt : HoldsText mem fmt chars) (hKept : FormatKept array mem fmt chars args)
    (hArgs : Expands mem (conversions chars) args texts) :
    PrintfOutputs array mem fmt chars args output ↔
      ¬ LonePercent chars ∧ printedParts array mem (conversions chars) args = output := by
  constructor
  · rintro ⟨s, hReturns, hInside, rfl⟩
    have hPairs : ¬ LonePercent chars := fun hLone => by
      have hPast := (hInside _ (printf_run_past hFmt hKept hLone hReturns)).2
      change fmt + chars.length + 1 ≤ fmt + chars.length at hPast
      omega
    obtain ⟨t, hRun, hText, _⟩ :=
      printf_run (s := printfStart mem fmt args) hFmt hKept hPairs hArgs
    obtain rfl := hReturns.unique hRun
    exact ⟨hPairs, hText.symm⟩
  · rintro ⟨hPairs, rfl⟩
    obtain ⟨s, hReturns, hText, hLooked⟩ :=
      printf_run (s := printfStart mem fmt args) hFmt hKept hPairs hArgs
    exact ⟨s, hReturns, fun k hk => (hLooked k hk).resolve_left List.not_mem_nil, hText⟩

theorem behind_outside (part : Conversion) {k : Int} (hOut : k < array ∨ array + 12 ≤ k) :
    (part.behind array mem args).1 k = mem k := by
  unfold Conversion.behind
  split
  · rfl
  · exact numeralStored_outside mem _ hOut
  · rfl

/-- A format outside the array is kept. -/
theorem formatKept_of_outside (hFmt : HoldsText mem fmt chars)
    (hOutside : OutsideArray array fmt chars.length) : FormatKept array mem fmt chars args := by
  induction chars using conversions.induct generalizing mem fmt args with
  | case1 => trivial
  | case2 => exact (if_pos rfl).mpr trivial
  | case3 d chars ih =>
      obtain ⟨_, _, _, _, hRest⟩ := hFmt
      rw [List.length_cons, List.length_cons] at hOutside
      have hOutsideRest : OutsideArray array (fmt + 1 + 1) chars.length := fun k hLow hHigh =>
        hOutside k (by omega) (by omega)
      have hHeld : HoldsText ((conversion d).behind array mem args).1 (fmt + 1 + 1) chars :=
        hRest.congr fun k hLow hHigh => behind_outside _ (hOutsideRest k hLow hHigh)
      rw [FormatKept, if_pos rfl]
      exact ⟨hHeld, ih hHeld hOutsideRest⟩
  | case4 c chars hOther ih =>
      obtain ⟨_, _, hRest⟩ := hFmt
      rw [List.length_cons] at hOutside
      rw [formatKept_ordinary chars hOther]
      exact ih hRest fun k hLow hHigh => hOutside k (by omega) (by omega)

/-- A format without `%d` is kept wherever it lies. -/
theorem formatKept_of_noInt (hFmt : HoldsText mem fmt chars) (hNone : .int ∉ conversions chars) :
    FormatKept array mem fmt chars args := by
  induction chars using conversions.induct generalizing fmt args with
  | case1 => trivial
  | case2 => exact (if_pos rfl).mpr trivial
  | case3 d chars ih =>
      obtain ⟨_, _, _, _, hRest⟩ := hFmt
      rw [conversions, if_pos rfl, List.mem_cons, not_or] at hNone
      have hSame : ((conversion d).behind array mem args).1 = mem := by
        unfold Conversion.behind
        split
        · rfl
        · rename_i hInt
          exact absurd hInt.symm hNone.1
        · rfl
      rw [FormatKept, if_pos rfl]
      dsimp only
      rw [hSame]
      exact ⟨hRest, ih hRest hNone.2⟩
  | case4 c chars hOther ih =>
      obtain ⟨_, _, hRest⟩ := hFmt
      rw [conversions_ordinary chars hOther, List.mem_cons, not_or] at hNone
      rw [formatKept_ordinary chars hOther]
      exact ih hRest hNone.2

/-- Strings outside the array are kept. -/
theorem stringsKept_of_outside (h : Expands start parts args texts)
    (hStrings : ∀ sval string, .string sval ∈ args → HoldsText start sval string →
      OutsideArray array sval string.length)
    (hSame : ∀ k, k < array ∨ array + 12 ≤ k → mem k = start k) :
    StringsKept array start mem parts args := by
  induction h generalizing mem with
  | nil args => trivial
  | char c rest ih => exact ih hStrings hSame
  | int ival rest ih =>
      exact ih (fun sval string hArg => hStrings sval string (List.mem_cons_of_mem _ hArg))
        fun k hOut => (numeralStored_outside mem ival hOut).trans (hSame k hOut)
  | @string sval string _ _ _ held rest ih =>
      have hOutside := hStrings sval string List.mem_cons_self held
      refine ⟨?_, ih (fun sval string hArg => hStrings sval string (List.mem_cons_of_mem _ hArg))
        hSame⟩
      have hHeld : HoldsText mem sval string :=
        held.congr fun k hLow hHigh => hSame k (hOutside k hLow hHigh)
      rw [printed_held hHeld, printed_held held]

end Call

/-- A format that the numbers do not change is printed part by part with its arguments put
in, unless it ends in a `%` that stands alone, or a string is longer than the buffer of the
kernel or lies where a number before it is written. Where no string is changed the text as a
whole is not right either unless the parts are. -/
theorem printf_faithful_iff {array fmt : Int} {mem : Int → UInt8} {chars : List UInt8}
    {args : List PrintfArg} {texts : List (List UInt8)} (hFmt : HoldsText mem fmt chars)
    (hFormat : FormatKept array mem fmt chars args)
    (hArgs : Expands mem (conversions chars) args texts) :
    (PrintfOutputs array mem fmt chars args texts ↔
      ¬ LonePercent chars ∧ StringsFit mem (conversions chars) args ∧
        StringsKept array mem mem (conversions chars) args) ∧
    (StringsKept array mem mem (conversions chars) args →
      ((∃ output, PrintfOutputs array mem fmt chars args output ∧ output.flatten = texts.flatten) ↔
        ¬ LonePercent chars ∧ StringsFit mem (conversions chars) args)) := by
  refine ⟨?_, fun hKept => ?_⟩
  · rw [printf_outputs hFmt hFormat hArgs, hArgs.printed_iff]
  · constructor
    · rintro ⟨output, hOutput, hFlat⟩
      obtain ⟨hPairs, rfl⟩ := (printf_outputs hFmt hFormat hArgs).mp hOutput
      have hParts := flatten_prefix (hArgs.printed_prefix hKept) hFlat
      exact ⟨hPairs, (hArgs.printed_iff.mp hParts).1⟩
    · rintro ⟨hPairs, hFit⟩
      exact ⟨texts, (printf_outputs hFmt hFormat hArgs).mpr
        ⟨hPairs, hArgs.printed_iff.mpr ⟨hFit, hKept⟩⟩, rfl⟩

/-- `printf("%d%s", -5, "a")` prints `-5` and `a`. -/
theorem printf_faithful_minus_five :
    let mem : Int → UInt8 := fun k => if k = 0 then percent else if k = 1 then 100 else
      if k = 2 then percent else if k = 3 then 115 else if k = 8 then 97 else 0
    PrintfOutputs 16 mem 0 [percent, 100, percent, 115] [.int (-5), .string 8] [[minus, 53], [97]] := by
  intro mem
  have hFmt : HoldsText mem 0 [percent, 100, percent, 115] :=
    ⟨rfl, by decide, rfl, by decide, rfl, by decide, rfl, by decide, rfl⟩
  have hString : HoldsText mem 8 [97] := ⟨rfl, by decide, rfl⟩
  have hArgs : Expands mem [.int, .string] [.int (-5), .string 8] [numeral (-5), [97]] :=
    .int (-5) (.string hString (.nil []))
  have hNumeral : numeral (-5) = [minus, 53] := by decide +kernel
  have hAway : ∀ sval string, PrintfArg.string sval ∈ [.int (-5), .string 8] →
      HoldsText mem sval string → OutsideArray 16 sval string.length := by
    intro sval string hArg hHeld k hLow hHigh
    obtain rfl : sval = 8 := by simpa using hArg
    obtain rfl := hHeld.unique hString
    exact Or.inl (show k < 16 by simp at hHigh; omega)
  rw [hNumeral] at hArgs
  refine (printf_faithful_iff hFmt (formatKept_of_outside hFmt fun k hLow hHigh => Or.inl ?_)
    hArgs).1.mpr ⟨by simp [LonePercent, percent], ?_,
      stringsKept_of_outside hArgs hAway fun _ _ => rfl⟩
  · simp at hHigh
    omega
  · intro sval string hUsed hHeld
    have hArg : PrintfArg.string sval ∈ [.int (-5), .string 8] := hUsed
    obtain rfl : sval = 8 := by simpa using hArg
    rw [hHeld.unique hString]
    decide

/-- `printf("%")` goes on with the characters behind the format. -/
theorem printf_lone_percent :
    let mem : Int → UInt8 := fun k => if k = 0 then percent else if k = 2 then 120 else 0
    HoldsText mem 0 [percent] ∧ OutsideArray 16 0 1 ∧ Expands mem (conversions [percent]) [] [] ∧
      (∃ s, PrintfReturns 16 mem 0 [] s ∧ s.output = [[0], [120]] ∧ 2 ∈ s.reads) ∧
      ∀ output, ¬ PrintfOutputs 16 mem 0 [percent] [] output := by
  intro mem
  have hReturns : PrintfReturns 16 mem 0 [] ⟨3, [], [[0], [120]], [3, 2, 1, 0], mem⟩ := ⟨3, rfl⟩
  refine ⟨⟨rfl, by decide, rfl⟩, fun k hLow hHigh => Or.inl (by simp at hHigh; omega), .nil [],
    ⟨_, hReturns, rfl, by decide⟩, ?_⟩
  rintro output ⟨s, hAgain, hInside, _⟩
  obtain rfl := hReturns.unique hAgain
  exact absurd (hInside 2 (by decide)).2 (by decide)

/-- `printf("%d%s", 7, itoa(5))` prints the 7 twice. -/
theorem printf_shared_array :
    let mem : Int → UInt8 := fun k => if k = 0 then percent else if k = 1 then 100 else
      if k = 2 then percent else if k = 3 then 115 else if k = 26 then 53 else 0
    Expands mem (conversions [percent, 100, percent, 115]) [.int 7, .string 26] [[55], [53]] ∧
      PrintfOutputs 16 mem 0 [percent, 100, percent, 115] [.int 7, .string 26] [[55], [55]] := by
  intro mem
  have hFmt : HoldsText mem 0 [percent, 100, percent, 115] :=
    ⟨rfl, by decide, rfl, by decide, rfl, by decide, rfl, by decide, rfl⟩
  have hNumeral : numeral 7 = [55] := by decide +kernel
  have hArgs : Expands mem [.int, .string] [.int 7, .string 26] [numeral 7, [53]] :=
    .int 7 (.string ⟨rfl, by decide, rfl⟩ (.nil []))
  rw [hNumeral] at hArgs
  refine ⟨hArgs, (printf_outputs hFmt (formatKept_of_outside hFmt fun k hLow hHigh => Or.inl ?_)
    hArgs).mpr ⟨by simp [LonePercent, percent], by decide +kernel⟩⟩
  simp at hHigh
  omega

end LiebeOS
