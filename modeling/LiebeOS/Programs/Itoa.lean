import LiebeOS.Lib.MachineInt
import LiebeOS.Lib.CharArray
import LiebeOS.Lib.Decimal

/-! `itoa` of the programs' `stdlib.c`. Digits are stored from the end of a static array
towards its start, from a value that is made negative first. -/
namespace LiebeOS

open MachineInt CharArray Decimal

/-- The character that an `int` is stored as. -/
def toChar (x : Int) : UInt8 := UInt8.ofNat (toWord x)

/-- `text[--loc] = c` -/
def itoaStore (loc : Int) (text : CharArray) (c : UInt8) : Option (Int × CharArray) := do
  let loc ← checked (loc - 1)
  some (loc, text.store loc c)

/-- The loop `while (i)`. -/
def itoaLoop (i loc : Int) (text : CharArray) : Option (Int × CharArray) :=
  if _ : i = 0 then some (loc, text)
  else do
    let c ← checked (48 - i.tmod 10)
    let (loc, text) ← itoaStore loc text (toChar c)
    match _hNext : checked (i.tdiv 10) with
    | none => none
    | some next => itoaLoop next loc text
termination_by i.natAbs
decreasing_by
  rw [eq_of_checked _hNext, Int.natAbs_tdiv]
  exact Nat.div_lt_self (Int.natAbs_pos.mpr ‹¬ i = 0›) (by decide)

/-- The offset into `text` that is returned, and `text`. `none` when an `int` overflows. -/
def itoa (i : Int) (text : CharArray) : Option (Int × CharArray) := do
  let text := text.store 11 0
  let neg := decide (i < 0)
  let i ← if 0 ≤ i then checked (-i) else some i
  let (loc, text) ← itoaLoop i 11 text
  let (loc, text) ← if loc = 11 then itoaStore loc text 48 else some (loc, text)
  if neg then itoaStore loc text 45 else some (loc, text)

section Loop

variable {loc : Int} {text : CharArray} {held : List UInt8}

theorem itoaStore_of_pos (c : UInt8) (hLow : 0 < loc) (hHigh : loc ≤ 11) :
    itoaStore loc text c = some (loc - 1, text.store (loc - 1) c) := by
  rw [itoaStore, checked_of_range (by omega) (by omega)]
  rfl

theorem toChar_digit {d : Nat} (h : d < 10) : toChar (48 + d) = digit d := by
  have hWord : toWord (48 + d) = 48 + d := by
    unfold toWord
    omega
  rw [toChar, hWord, digit]

/-- A round of the loop puts the last digit of a number in front of what is held. -/
theorem itoaLoop_of_pos {n : Nat} (hInt : n ≤ 2147483648) (hSome : 0 < n) (hLow : 0 < loc)
    (hHigh : loc ≤ 11) :
    itoaLoop (-n) loc text =
      itoaLoop (-((n / 10 : Nat) : Int)) (loc - 1) (text.store (loc - 1) (digit (n % 10))) := by
  have hRemainder : 48 - (-(n : Int)).tmod 10 = 48 + (n % 10 : Nat) := by
    rw [Int.neg_tmod, Int.tmod_eq_emod_of_nonneg (by omega)]
    omega
  have hQuotient : (-(n : Int)).tdiv 10 = -((n / 10 : Nat) : Int) := by
    rw [Int.neg_tdiv, Int.tdiv_eq_ediv_of_nonneg (by omega)]
    omega
  have hDigit : n % 10 < 10 := Nat.mod_lt n (by decide)
  rw [itoaLoop, dif_neg (by omega), hRemainder, hQuotient, checked_of_range (by omega) (by omega),
    checked_of_range (by omega) (by omega), Option.bind_eq_bind, Option.bind_some,
    toChar_digit hDigit, itoaStore_of_pos _ hLow hHigh]
  rfl

/-- The loop stores the digits of a number in front of what is held. -/
theorem itoaLoop_digits {n : Nat} (hInt : n ≤ 2147483648) (hRoom : (digits n).length ≤ loc)
    (hHigh : loc ≤ 11) (hHeld : HoldsText text.cells loc held) :
    ∃ text', itoaLoop (-n) loc text = some (loc - (digits n).length, text') ∧
      HoldsText text'.cells (loc - (digits n).length) (digits n ++ held) ∧
      StoresWithin text text' (loc - (digits n).length) 11 := by
  induction n using Nat.strong_induction_on generalizing loc text held with
  | _ n ih =>
      rcases Nat.eq_zero_or_pos n with rfl | hSome
      · refine ⟨text, ?_, ?_, StoresWithin.refl text _ 11⟩
        · rw [itoaLoop, dif_pos (by rfl), digits_zero]
          simp
        · simpa using hHeld
      · have hLength : (digits n).length = (digits (n / 10)).length + 1 := by
          rw [digits_of_pos hSome, List.length_append, List.length_singleton]
        have hDigit : digit (n % 10) ≠ 0 := fun hZero => by
          have hRange := (digit_range (Nat.mod_lt n (by decide))).1
          rw [hZero] at hRange
          exact absurd hRange (by decide)
        have hFront : HoldsText (text.store (loc - 1) (digit (n % 10))).cells (loc - 1)
            (digit (n % 10) :: held) :=
          HoldsText.store_front (by rwa [Int.sub_add_cancel]) hDigit
        obtain ⟨text', hRest, hText, hStores⟩ :=
          ih (n / 10) (by omega) (by omega) (by omega) (by omega) hFront
        have hStart : loc - (digits n).length = loc - 1 - (digits (n / 10)).length := by omega
        refine ⟨text', ?_, ?_, ?_⟩
        · rw [itoaLoop_of_pos hInt hSome (by omega) hHigh, hRest, hStart]
        · rw [hStart, digits_of_pos hSome, List.append_assoc]
          exact hText
        · rw [hStart]
          exact (storesWithin_store text _ (by omega) (by omega)).trans hStores

end Loop

theorem digits_le_numeral (i : Int) : (digits i.natAbs).length ≤ (numeral i).length := by
  unfold numeral natNumeral
  split
  · split
    · rename_i _ hZero
      simp [hZero]
    · simp
  · split
    · rename_i _ hZero
      simp [hZero]
    · exact Nat.le_refl _

/-- The sign of `i` is put in front of the digits, and the NUL is at index 11. -/
theorem itoa_numeral {i : Int} (hLow : -2147483648 ≤ i) (hHigh : i < 2147483648)
    (text : CharArray) :
    ∃ text', itoa i text = some (11 - ((numeral i).length : Int), text') ∧
      (numeral i).length ≤ 11 ∧
      HoldsText text'.cells (11 - ((numeral i).length : Int)) (numeral i) ∧
      StoresWithin text text' (11 - ((numeral i).length : Int)) 12 := by
  have hInt : i.natAbs ≤ 2147483648 := by omega
  have hRoom : (digits i.natAbs).length ≤ 10 := digits_length_le (by omega)
  have hEnd : HoldsText (text.store 11 0).cells 11 [] := store_cells_self text 11 0
  have hEndStored : StoresWithin text (text.store 11 0) (11 - ((numeral i).length : Int)) 12 :=
    storesWithin_store text 0 (by omega) (by decide)
  obtain ⟨digitsText, hLoop, hDigits, hDigitsStored⟩ :=
    itoaLoop_digits hInt (by omega) (by decide) hEnd
  have hLonger := digits_le_numeral i
  have hBefore := hEndStored.trans (hDigitsStored.mono (by omega) (by decide))
  rw [List.append_nil] at hDigits
  rcases Int.lt_trichotomy i 0 with hNegative | rfl | hPositive
  · have hNumeral : numeral i = minus :: digits i.natAbs := by
      rw [numeral, if_pos hNegative, natNumeral, if_neg (by omega)]
    have hStart : (11 : Int) - (numeral i).length = 11 - (digits i.natAbs).length - 1 := by
      rw [hNumeral, List.length_cons]
      omega
    have hLength : 0 < (digits i.natAbs).length :=
      List.length_pos_iff.mpr (digits_ne_nil (by omega))
    rw [show -(i.natAbs : Int) = i by omega] at hLoop
    have hCall : itoa i text = itoaStore (11 - (digits i.natAbs).length) digitsText 45 := by
      rw [itoa, if_neg (show ¬ 0 ≤ i by omega)]
      simp only [Option.bind_eq_bind, Option.bind_some, hLoop]
      rw [if_neg (by omega), if_pos (decide_eq_true hNegative)]
    rw [hCall, itoaStore_of_pos 45 (by omega) (by omega), hStart]
    rw [hStart] at hBefore
    refine ⟨_, rfl, by omega, ?_,
      hBefore.trans (storesWithin_store _ _ (Int.le_refl _) (by omega))⟩
    rw [hNumeral]
    exact HoldsText.store_front (by rwa [Int.sub_add_cancel]) (by decide)
  · have hCall : itoa 0 text = itoaStore 11 digitsText 48 := by
      rw [itoa, if_pos (Int.le_refl 0), checked_of_range (by decide) (by decide)]
      simp only [Option.bind_eq_bind, Option.bind_some]
      rw [show -(0 : Int) = -((Int.natAbs 0 : Nat) : Int) from rfl, hLoop]
      rfl
    rw [hCall, itoaStore_of_pos 48 (by decide) (by decide)]
    exact ⟨_, rfl, by decide, HoldsText.store_front hDigits (by decide),
      hBefore.trans (storesWithin_store _ _ (by decide) (by decide))⟩
  · have hNumeral : numeral i = digits i.natAbs := by
      rw [numeral, if_neg (by omega), natNumeral, if_neg (by omega)]
    have hLength : 0 < (digits i.natAbs).length :=
      List.length_pos_iff.mpr (digits_ne_nil (by omega))
    rw [show -(i.natAbs : Int) = -i by omega] at hLoop
    have hCall : itoa i text = some ((11 : Int) - (digits i.natAbs).length, digitsText) := by
      rw [itoa, if_pos hPositive.le, checked_of_range (by omega) (by omega)]
      simp only [Option.bind_eq_bind, Option.bind_some, hLoop]
      rw [if_neg (by omega), if_neg (by simpa using hPositive.le)]
    rw [hNumeral] at hBefore ⊢
    exact ⟨_, hCall, by omega, hDigits, hBefore⟩

/-- Whatever the buffer holds from the call before, every `int` is turned into its
decimal numeral, which no other one has. -/
theorem itoa_decimal (i : Int32) (text : CharArray) :
    ∃ loc text' t, itoa i.toInt text = some (loc, text') ∧ HoldsText text'.cells loc t ∧
      (∀ k ∈ text'.written, k ∈ text.written ∨ (0 ≤ k ∧ k < 12)) ∧
      (∀ k, k < 0 ∨ 12 ≤ k → text'.cells k = text.cells k) ∧
      Canonical t i.toInt ∧
      ∀ j : Int32, ∀ loc' before after, itoa j.toInt before = some (loc', after) →
        HoldsText after.cells loc' t → j = i := by
  obtain ⟨text', hCall, hLength, hText, hStored⟩ := itoa_numeral i.le_toInt i.toInt_lt text
  have hStores : StoresWithin text text' 0 12 := hStored.mono (by omega) (by decide)
  refine ⟨_, text', _, hCall, hText, hStores.stores, hStores.others, numeral_canonical _, ?_⟩
  intro j loc' before after hOther hSame
  obtain ⟨_, hAgain, _, hNumeral, _⟩ := itoa_numeral j.le_toInt j.toInt_lt before
  obtain ⟨rfl, rfl⟩ := Prod.mk.inj (Option.some.inj (hOther.symm.trans hAgain))
  exact Int32.toInt_inj.mp (numeral_injective (hNumeral.unique hSame))

end LiebeOS
