import Mathlib.Data.Nat.Digits.Lemmas

/-! Decimal numerals as lists of ASCII characters: what a numeral means, which ones are
canonical, and the canonical numeral of every integer. -/
namespace Decimal

def minus : UInt8 := 45

/-- The character of a digit. -/
def digit (d : Nat) : UInt8 := UInt8.ofNat (48 + d)

/-- The digits of a number, without any for 0. -/
def digits (n : Nat) : List UInt8 := ((Nat.digits 10 n).map digit).reverse

def natNumeral (n : Nat) : List UInt8 := if n = 0 then [digit 0] else digits n

def numeral (i : Int) : List UInt8 :=
  if i < 0 then minus :: natNumeral i.natAbs else natNumeral i.natAbs

/-! ### Reading a numeral -/

/-- The digits in `text` continue those of `n`. -/
def parseDigits : Nat → List UInt8 → Option Nat
  | n, [] => some n
  | n, c :: text =>
      if 48 ≤ c ∧ c ≤ 57 then parseDigits (10 * n + (c.toNat - 48)) text else none

def parseNat (text : List UInt8) : Option Nat := if text = [] then none else parseDigits 0 text

def parse (text : List UInt8) : Option Int :=
  if text.head? = some minus then (parseNat text.tail).map fun n => -n
  else (parseNat text).map fun n => n

/-- `text` means `i`, with a minus sign for negative numbers only and without zeros in
front. -/
structure Canonical (text : List UInt8) (i : Int) : Prop where
  parse : parse text = some i
  sign : text.head? = some minus ↔ i < 0
  noLeadingZero : (if i < 0 then text.tail else text).head? ≠ some (digit 0) ∨ text = [digit 0]
  zero : i = 0 → text = [digit 0]

/-! ### The digits of a number -/

theorem digit_toNat {d : Nat} (h : d < 10) : (digit d).toNat = 48 + d := by
  rw [digit, UInt8.toNat_ofNat']
  omega

theorem digit_range {d : Nat} (h : d < 10) : 48 ≤ digit d ∧ digit d ≤ 57 := by
  rw [UInt8.le_iff_toNat_le, UInt8.le_iff_toNat_le, digit_toNat h]
  exact ⟨Nat.le_add_right 48 d, show 48 + d ≤ 57 by omega⟩

@[simp] theorem digits_zero : digits 0 = [] := by
  rw [digits, Nat.digits_zero]
  rfl

/-- The last digit is the remainder, and the others are those of the quotient. -/
theorem digits_of_pos {n : Nat} (h : 0 < n) : digits n = digits (n / 10) ++ [digit (n % 10)] := by
  rw [digits, Nat.digits_def' (by decide) h, List.map_cons, List.reverse_cons]
  rfl

theorem digits_length_le {n k : Nat} (h : n < 10 ^ k) : (digits n).length ≤ k := by
  rw [digits, List.length_reverse, List.length_map]
  exact (Nat.digits_length_le_iff (by decide) n).mpr h

theorem digits_ne_nil {n : Nat} (h : 0 < n) : digits n ≠ [] := by
  rw [digits_of_pos h]
  exact List.append_ne_nil_of_right_ne_nil _ (List.cons_ne_nil _ _)

theorem mem_digits {n : Nat} {c : UInt8} (h : c ∈ digits n) : 48 ≤ c ∧ c ≤ 57 := by
  obtain ⟨d, hDigit, rfl⟩ := List.mem_map.mp (List.mem_reverse.mp h)
  exact digit_range (Nat.digits_lt_base (by decide) hDigit)

/-- No number has a zero in front. -/
theorem digits_head {n : Nat} : (digits n).head? ≠ some (digit 0) := by
  induction n using Nat.strong_induction_on with
  | _ n ih =>
      rcases Nat.eq_zero_or_pos n with rfl | hPos
      · simp
      · rw [digits_of_pos hPos]
        rcases Nat.eq_zero_or_pos (n / 10) with hLast | hMore
        · rw [hLast, digits_zero]
          intro hZero
          have hSame : digit (n % 10) = digit 0 := Option.some.inj hZero
          have hValue := congrArg UInt8.toNat hSame
          rw [digit_toNat (by omega), digit_toNat (by decide)] at hValue
          omega
        · rw [List.head?_append_of_ne_nil _ (digits_ne_nil hMore)]
          exact ih (n / 10) (by omega)

/-! ### Numerals and their meaning -/

theorem parseDigits_append (n : Nat) (front back : List UInt8) :
    parseDigits n (front ++ back) = (parseDigits n front).bind fun m => parseDigits m back := by
  induction front generalizing n with
  | nil => rfl
  | cons c front ih =>
      rw [List.cons_append, parseDigits, parseDigits]
      split
      · exact ih _
      · rfl

theorem parseDigits_digits (n : Nat) : parseDigits 0 (digits n) = some n := by
  induction n using Nat.strong_induction_on with
  | _ n ih =>
      rcases Nat.eq_zero_or_pos n with rfl | hPos
      · simp [parseDigits]
      · have hRange : n % 10 < 10 := Nat.mod_lt n (by decide)
        have hQuotient : n / 10 < n := by omega
        rw [digits_of_pos hPos, parseDigits_append, ih _ hQuotient, Option.bind_some, parseDigits,
          if_pos (digit_range hRange), digit_toNat hRange, parseDigits]
        congr 1
        omega

theorem parseNat_natNumeral (n : Nat) : parseNat (natNumeral n) = some n := by
  rcases Nat.eq_zero_or_pos n with rfl | hPos
  · rfl
  · rw [natNumeral, if_neg (by omega), parseNat, if_neg (digits_ne_nil hPos), parseDigits_digits]

theorem mem_natNumeral {n : Nat} {c : UInt8} (h : c ∈ natNumeral n) : 48 ≤ c ∧ c ≤ 57 := by
  rw [natNumeral] at h
  split at h
  · obtain rfl := List.mem_singleton.mp h
    exact digit_range (by decide)
  · exact mem_digits h

theorem natNumeral_head_ne_minus (n : Nat) : (natNumeral n).head? ≠ some minus := fun hHead =>
  absurd (mem_natNumeral (List.mem_of_head? hHead)).1 (by decide)

theorem parse_numeral (i : Int) : parse (numeral i) = some i := by
  rw [numeral]
  by_cases hNegative : i < 0
  · rw [if_pos hNegative, parse, if_pos (List.head?_cons ..), List.tail_cons, parseNat_natNumeral]
    exact congrArg some (show -(i.natAbs : Int) = i by omega)
  · rw [if_neg hNegative, parse, if_neg (natNumeral_head_ne_minus _), parseNat_natNumeral]
    exact congrArg some (show (i.natAbs : Int) = i by omega)

/-- A numeral tells its number. -/
theorem numeral_injective : Function.Injective numeral := fun i j h =>
  Option.some.inj ((parse_numeral i).symm.trans ((congrArg parse h).trans (parse_numeral j)))

theorem numeral_canonical (i : Int) : Canonical (numeral i) i where
  parse := parse_numeral i
  sign := by
    rw [numeral]
    by_cases hNegative : i < 0
    · rw [if_pos hNegative]
      exact ⟨fun _ => hNegative, fun _ => rfl⟩
    · rw [if_neg hNegative]
      exact ⟨fun hHead => absurd hHead (natNumeral_head_ne_minus _), fun h => absurd h hNegative⟩
  noLeadingZero := by
    rcases Int.lt_trichotomy i 0 with hNegative | rfl | hPositive
    · left
      rw [if_pos hNegative, numeral, if_pos hNegative, List.tail_cons, natNumeral,
        if_neg (by omega)]
      exact digits_head
    · exact Or.inr rfl
    · left
      rw [if_neg (by omega), numeral, if_neg (by omega), natNumeral, if_neg (by omega)]
      exact digits_head
  zero := by
    rintro rfl
    rfl

end Decimal
