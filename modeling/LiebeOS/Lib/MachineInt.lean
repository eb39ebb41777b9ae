import Mathlib.Tactic.Common

/-! Values of 32-bit machine integers, as mathematical integers. Signed
arithmetic wraps in two's complement; division truncates towards zero and is
taken from core (`Int.tdiv`, `Int.tmod`). -/
namespace MachineInt

/-- The value held by a signed 32-bit variable after `x` is stored in it. -/
def toInt (x : Int) : Int := (x + 2147483648) % 4294967296 - 2147483648

/-- The value held by an unsigned 32-bit variable after `x` is stored in it. -/
def toWord (x : Int) : Nat := (x % 4294967296).toNat

/-- The result of signed arithmetic, which is undefined where it overflows. -/
def checked (x : Int) : Option Int :=
  if -2147483648 ≤ x ∧ x < 2147483648 then some x else none

theorem toInt_of_range {x : Int} (hLow : -2147483648 ≤ x) (hHigh : x < 2147483648) :
    toInt x = x := by
  unfold toInt
  omega

theorem toInt_lt (x : Int) : toInt x < 2147483648 := by
  unfold toInt
  omega

theorem toInt_ge (x : Int) : -2147483648 ≤ toInt x := by
  unfold toInt
  omega

/-- A word that crosses a signed variable comes back unchanged, so storing an
already wrapped value wraps once. -/
@[simp] theorem toInt_toInt (x : Int) : toInt (toInt x) = toInt x :=
  toInt_of_range (toInt_ge x) (toInt_lt x)

theorem toWord_lt (x : Int) : toWord x < 4294967296 := by
  unfold toWord
  omega

theorem toWord_of_range {x : Int} (hLow : 0 ≤ x) (hHigh : x < 4294967296) :
    (toWord x : Int) = x := by
  unfold toWord
  omega

theorem checked_of_range {x : Int} (hLow : -2147483648 ≤ x) (hHigh : x < 2147483648) :
    checked x = some x := if_pos ⟨hLow, hHigh⟩

theorem eq_of_checked {x y : Int} (h : checked x = some y) : y = x := by
  unfold checked at h
  split at h
  · exact (Option.some.inj h).symm
  · exact absurd h (by simp)

end MachineInt
