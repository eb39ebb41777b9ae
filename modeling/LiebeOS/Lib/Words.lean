import LiebeOS.Lib.Bytes
import LiebeOS.Lib.MachineInt

/-! Ranges and words of a 32-bit address space. Pointer arithmetic wraps, so
the bytes of one access are counted forward from its first address, modulo
2^32. Words are little-endian. -/
namespace Bytes

open MachineInt

/-- The address `i` bytes behind pointer `p`. -/
def behind (p i : Nat) : Nat := (p + i) % 4294967296

/-- How far `x` lies behind pointer `p`, going upwards. -/
def offsetFrom (p x : Nat) : Nat := toWord ((x : Int) - p)

/-- Stores `f 0 .. f (n - 1)` from pointer `p` on. -/
def storeRange (mem : Memory) (p n : Nat) (f : Nat → UInt8) : Memory := fun x =>
  if offsetFrom p x < n then f (offsetFrom p x) else mem x

def loadHalf (mem : Memory) (p : Nat) : Nat :=
  (mem (behind p 0)).toNat + 256 * (mem (behind p 1)).toNat

def loadWord (mem : Memory) (p : Nat) : Nat :=
  (mem (behind p 0)).toNat + 256 * (mem (behind p 1)).toNat +
    65536 * (mem (behind p 2)).toNat + 16777216 * (mem (behind p 3)).toNat

/-- The value of a word read as a signed number. -/
def signed (w : Nat) : Int := if w < 2147483648 then w else w - 4294967296

/-- Byte `i` of the little-endian word `v`. -/
def wordByte (v i : Nat) : UInt8 := UInt8.ofNat (v >>> (8 * i))

def storeWord (mem : Memory) (p v : Nat) : Memory := storeRange mem p 4 (wordByte v)

variable {mem mem' : Memory} {p q n v x i : Nat} {f : Nat → UInt8}

theorem behind_lt (p i : Nat) : behind p i < 4294967296 := Nat.mod_lt _ (by decide)

theorem behind_of_lt (h : p + i < 4294967296) : behind p i = p + i := Nat.mod_eq_of_lt h

@[simp] theorem behind_add (p k i : Nat) : behind (p + k) i = behind p (k + i) := by
  rw [behind, behind, Nat.add_assoc]

@[simp] theorem behind_behind (p k i : Nat) : behind (behind p k) i = behind p (k + i) := by
  unfold behind
  omega

@[simp] theorem offsetFrom_behind (hi : i < 4294967296) (p : Nat) :
    offsetFrom p (behind p i) = i := by
  unfold offsetFrom toWord behind
  omega

theorem behind_offsetFrom (hx : x < 4294967296) : behind p (offsetFrom p x) = x := by
  unfold offsetFrom toWord behind
  omega

theorem storeRange_at (hi : i < n) (hn : n ≤ 4294967296) :
    storeRange mem p n f (behind p i) = f i := by
  rw [storeRange, offsetFrom_behind (by omega), if_pos hi]

theorem storeRange_outside (h : n ≤ offsetFrom p x) : storeRange mem p n f x = mem x := by
  rw [storeRange, if_neg (by omega)]

theorem storeRange_congr {g : Nat → UInt8} (h : ∀ i < n, f i = g i) :
    storeRange mem p n f = storeRange mem p n g := by
  funext x
  unfold storeRange
  split_ifs with hIn
  · exact h _ hIn
  · rfl

/-- A range that is stored in two steps. -/
theorem storeRange_append {m : Nat} (h : n + m ≤ 4294967296) :
    storeRange (storeRange mem p n f) (behind p n) m (fun i => f (n + i)) =
      storeRange mem p (n + m) f := by
  funext x
  have hOffset : n ≤ offsetFrom p x ∧ offsetFrom (behind p n) x = offsetFrom p x - n ∨
      offsetFrom p x < n ∧ m ≤ offsetFrom (behind p n) x := by
    unfold offsetFrom toWord behind
    omega
  unfold storeRange
  rcases hOffset with ⟨hBehind, hSecond⟩ | ⟨hFirst, hFar⟩
  · dsimp only
    rw [hSecond, Nat.add_sub_cancel' hBehind, if_neg (Nat.not_lt.mpr hBehind)]
    by_cases hIn : offsetFrom p x < n + m
    · rw [if_pos (by omega), if_pos hIn]
    · rw [if_neg (by omega), if_neg hIn]
  · rw [if_neg (Nat.not_lt.mpr hFar), if_pos hFirst, if_pos (by omega)]

theorem loadHalf_lt (mem : Memory) (p : Nat) : loadHalf mem p < 65536 := by
  have hLow := (mem (behind p 0)).toNat_lt
  have hHigh := (mem (behind p 1)).toNat_lt
  unfold loadHalf
  omega

theorem loadWord_lt (mem : Memory) (p : Nat) : loadWord mem p < 4294967296 := by
  have h0 := (mem (behind p 0)).toNat_lt
  have h1 := (mem (behind p 1)).toNat_lt
  have h2 := (mem (behind p 2)).toNat_lt
  have h3 := (mem (behind p 3)).toNat_lt
  unfold loadWord
  omega

theorem loadHalf_congr (h : ∀ i < 2, mem' (behind p i) = mem (behind q i)) :
    loadHalf mem' p = loadHalf mem q := by
  rw [loadHalf, loadHalf, h 0 (by decide), h 1 (by decide)]

theorem loadWord_congr (h : ∀ i < 4, mem' (behind p i) = mem (behind q i)) :
    loadWord mem' p = loadWord mem q := by
  rw [loadWord, loadWord, h 0 (by decide), h 1 (by decide), h 2 (by decide), h 3 (by decide)]

/-- A word is read where its bytes are. -/
theorem loadWord_of_bytes (hv : v < 4294967296) (h : ∀ i < 4, mem (behind p i) = wordByte v i) :
    loadWord mem p = v := by
  rw [loadWord, h 0 (by decide), h 1 (by decide), h 2 (by decide), h 3 (by decide)]
  simp only [wordByte, UInt8.toNat_ofNat', Nat.shiftRight_eq_div_pow]
  omega

/-- What is stored is read back. -/
theorem loadWord_storeWord (hv : v < 4294967296) : loadWord (storeWord mem p v) p = v :=
  loadWord_of_bytes hv fun _ hi => storeRange_at hi (by decide)

/-- The bytes of a word that is loaded are those in memory. -/
theorem wordByte_loadWord (hi : i < 4) : wordByte (loadWord mem p) i = mem (behind p i) := by
  have h0 := (mem (behind p 0)).toNat_lt
  have h1 := (mem (behind p 1)).toNat_lt
  have h2 := (mem (behind p 2)).toNat_lt
  have h3 := (mem (behind p 3)).toNat_lt
  apply UInt8.toNat.inj
  have hCase : i = 0 ∨ i = 1 ∨ i = 2 ∨ i = 3 := by omega
  rcases hCase with rfl | rfl | rfl | rfl <;>
    simp only [wordByte, UInt8.toNat_ofNat', Nat.shiftRight_eq_div_pow, loadWord] <;> omega

/-- A store leaves a word alone that shares no byte with it. -/
theorem loadWord_storeRange_apart (h : ∀ i < 4, n ≤ offsetFrom p (behind q i)) :
    loadWord (storeRange mem p n f) q = loadWord mem q :=
  loadWord_congr fun i hi => storeRange_outside (h i hi)

end Bytes
