import Mathlib.Logic.Function.Basic
import Mathlib.Tactic.Common

/-! Byte-addressed memory and the effect of filling one range of it. `Filled`
is the frame condition used throughout: the range holds the given bytes and
nothing else moved. -/
namespace Bytes

abbrev Memory := Nat → UInt8

/-- From `mem` to `mem'`, exactly the `n` bytes from `out` on were written,
and byte `i` of them is `f i`. -/
def Filled (mem mem' : Memory) (out n : Nat) (f : Nat → UInt8) : Prop :=
  (∀ i < n, mem' (out + i) = f i) ∧ ∀ a, a < out ∨ out + n ≤ a → mem' a = mem a

theorem Filled.refl (mem : Memory) (out : Nat) (f : Nat → UInt8) : Filled mem mem out 0 f :=
  ⟨fun i hi => absurd hi (Nat.not_lt_zero i), fun _ _ => rfl⟩

/-- Two adjacent fills compose to one. -/
theorem Filled.append {mem mid fin : Memory} {out n m : Nat} {f : Nat → UInt8}
    (hFirst : Filled mem mid out n f) (hSecond : Filled mid fin (out + n) m fun i => f (n + i)) :
    Filled mem fin out (n + m) f := by
  constructor
  · intro i hi
    by_cases hn : i < n
    · rw [hSecond.2 (out + i) (Or.inl (by omega))]
      exact hFirst.1 i hn
    · have hByte : fin (out + n + (i - n)) = f (n + (i - n)) := hSecond.1 (i - n) (by omega)
      rwa [show out + n + (i - n) = out + i by omega, show n + (i - n) = i by omega] at hByte
  · intro a ha
    rw [hSecond.2 a (by omega)]
    exact hFirst.2 a (by omega)

theorem Filled.congr {mem mem' : Memory} {out n : Nat} {f g : Nat → UInt8}
    (h : Filled mem mem' out n f) (hSame : ∀ i < n, f i = g i) : Filled mem mem' out n g :=
  ⟨fun i hi => (h.1 i hi).trans (hSame i hi), h.2⟩

/-- The final contents are determined by the range and its bytes. -/
theorem Filled.unique {mem a b : Memory} {out n : Nat} {f : Nat → UInt8}
    (ha : Filled mem a out n f) (hb : Filled mem b out n f) : a = b := by
  funext x
  by_cases hx : x < out ∨ out + n ≤ x
  · rw [ha.2 x hx, hb.2 x hx]
  · have hx' : out + (x - out) = x := by omega
    rw [← hx', ha.1 (x - out) (by omega), hb.1 (x - out) (by omega)]

/-- From `mem` to `mem'`, of the `n` bytes from `out` on those were written for
which `patch` has a byte. -/
def Patched (mem mem' : Memory) (out n : Nat) (patch : Nat → Option UInt8) : Prop :=
  (∀ i < n, mem' (out + i) = (patch i).getD (mem (out + i))) ∧
    ∀ a, a < out ∨ out + n ≤ a → mem' a = mem a

/-- Two adjacent patches compose to one. -/
theorem Patched.append {mem mid fin : Memory} {out n m : Nat} {f : Nat → Option UInt8}
    (hFirst : Patched mem mid out n f)
    (hSecond : Patched mid fin (out + n) m fun i => f (n + i)) : Patched mem fin out (n + m) f := by
  constructor
  · intro i hi
    by_cases hn : i < n
    · rw [hSecond.2 (out + i) (Or.inl (by omega))]
      exact hFirst.1 i hn
    · have hByte : fin (out + n + (i - n)) = (f (n + (i - n))).getD (mid (out + n + (i - n))) :=
        hSecond.1 (i - n) (by omega)
      have hBefore := hFirst.2 (out + i) (Or.inr (by omega))
      rwa [show out + n + (i - n) = out + i by omega, show n + (i - n) = i by omega,
        hBefore] at hByte
  · intro a ha
    rw [hSecond.2 a (by omega)]
    exact hFirst.2 a (by omega)

theorem Patched.congr {mem mem' : Memory} {out n : Nat} {f g : Nat → Option UInt8}
    (h : Patched mem mem' out n f) (hSame : ∀ i < n, f i = g i) : Patched mem mem' out n g :=
  ⟨fun i hi => by rw [h.1 i hi, hSame i hi], h.2⟩

theorem Patched.refl (mem : Memory) (out : Nat) (f : Nat → Option UInt8) : Patched mem mem out 0 f :=
  ⟨fun i hi => absurd hi (Nat.not_lt_zero i), fun _ _ => rfl⟩

/-- Bytes that have no patch may be counted in. -/
theorem Patched.extend {mem mem' : Memory} {out n m : Nat} {f : Nat → Option UInt8}
    (h : Patched mem mem' out n f) (hn : n ≤ m) (hNone : ∀ i, n ≤ i → f i = none) :
    Patched mem mem' out m f := by
  refine ⟨fun i _ => ?_, fun a ha => h.2 a (by omega)⟩
  by_cases hIn : i < n
  · exact h.1 i hIn
  · rw [hNone i (Nat.not_lt.mp hIn)]
    exact h.2 (out + i) (Or.inr (by omega))

/-- The final contents are determined by the patch. -/
theorem Patched.unique {mem a b : Memory} {out n : Nat} {f : Nat → Option UInt8}
    (ha : Patched mem a out n f) (hb : Patched mem b out n f) : a = b := by
  funext x
  by_cases hx : x < out ∨ out + n ≤ x
  · rw [ha.2 x hx, hb.2 x hx]
  · have hx' : out + (x - out) = x := by omega
    rw [← hx', ha.1 (x - out) (by omega), hb.1 (x - out) (by omega)]

/-- A range that is filled up to byte `d`. -/
theorem Filled.patched {mem mem' : Memory} {out d n : Nat} {f : Nat → UInt8}
    (h : Filled mem mem' out d f) (hd : d ≤ n) :
    Patched mem mem' out n fun i => if i < d then some (f i) else none := by
  refine ⟨fun i hi => ?_, fun a ha => h.2 a (by omega)⟩
  dsimp only
  by_cases hIn : i < d
  · rw [if_pos hIn]
    exact h.1 i hIn
  · rw [if_neg hIn]
    exact h.2 (out + i) (Or.inr (by omega))

/-- A patch fills a range, whatever was there before, only if it has all the
bytes. -/
theorem Patched.filled_iff {out n : Nat} {patch : Nat → Option UInt8} {f : Nat → UInt8} :
    (∀ mem mem', Patched mem mem' out n patch → Filled mem mem' out n f) ↔
      ∀ i < n, patch i = some (f i) := by
  constructor
  · intro hAll i hi
    let mem : Memory := fun a => f (a - out) + 1
    let mem' : Memory := fun a => if a < out ∨ out + n ≤ a then mem a
      else (patch (a - out)).getD (mem a)
    have hPatched : Patched mem mem' out n patch := by
      refine ⟨fun j hj => ?_, fun a ha => if_pos ha⟩
      show (if out + j < out ∨ out + n ≤ out + j then _ else _) = _
      rw [if_neg (by omega), Nat.add_sub_cancel_left]
    have hByte := (hPatched.1 i hi).symm.trans ((hAll mem mem' hPatched).1 i hi)
    cases hPatch : patch i with
    | some b =>
        rw [hPatch] at hByte
        exact congrArg some hByte
    | none =>
        have hOther : f (out + i - out) + 1 = f i := by rwa [hPatch] at hByte
        rw [Nat.add_sub_cancel_left] at hOther
        exact absurd hOther (by simp)
  · intro hAll mem mem' hPatched
    refine ⟨fun i hi => ?_, hPatched.2⟩
    rw [hPatched.1 i hi, hAll i hi]
    rfl

/-- The loop `for (; n > 0; n--) *out++ = src[i++]`. -/
def copyLoop (src : Nat → UInt8) : Nat → Nat → Nat → Memory → Memory
  | 0, _, _, mem => mem
  | n + 1, i, out, mem => copyLoop src n (i + 1) (out + 1) (Function.update mem out (src i))

theorem copyLoop_filled (src : Nat → UInt8) (n i out : Nat) (mem : Memory) :
    Filled mem (copyLoop src n i out mem) out n fun j => src (i + j) := by
  induction n generalizing i out mem with
  | zero => exact Filled.refl mem out _
  | succ n ih =>
      have hHead : Filled mem (Function.update mem out (src i)) out 1 fun j => src (i + j) := by
        constructor
        · intro j hj
          obtain rfl : j = 0 := by omega
          simp
        · intro a ha
          exact Function.update_of_ne (by omega) _ _
      have hTail := (ih (i + 1) (out + 1) (Function.update mem out (src i))).congr
        (fun j _ => congrArg src (Nat.add_assoc i 1 j))
      have hAll := hHead.append hTail
      rwa [Nat.add_comm 1 n] at hAll

/-- Little-endian 16-bit value at address `a`. -/
def le16 (mem : Nat → UInt8) (a : Nat) : Nat := (mem a).toNat + 256 * (mem (a + 1)).toNat

theorem le16_lt (mem : Nat → UInt8) (a : Nat) : le16 mem a < 65536 := by
  have hLow := (mem a).toNat_lt
  have hHigh := (mem (a + 1)).toNat_lt
  unfold le16
  omega

end Bytes
