import LiebeOS.Lib.Words

/-! The string functions of the kernel, `string.c`, on memory that is accessed
through a translation of addresses. The kernel's own addresses are those of the
memory; under the directory of a task an access may also be a page fault. -/
namespace LiebeOS

open Bytes

/-- Where an access to an address goes, as memory is at that moment; `none` is a
page fault, after which the kernel does not come back to the access. -/
abbrev Translation := Memory → Nat → Option Nat

/-- The kernel's directory maps every page to itself. -/
def identityTranslation : Translation := fun _ p => some p

/-- Memory together with the addresses that have been stored to. The list makes a
store visible that leaves the byte as it was; the machine does not keep it. -/
structure Stores where
  mem : Memory
  written : List Nat

def Stores.put (s : Stores) (a : Nat) (c : UInt8) : Stores :=
  ⟨Function.update s.mem a c, a :: s.written⟩

@[simp] theorem Stores.put_mem (s : Stores) (a : Nat) (c : UInt8) :
    (s.put a c).mem = Function.update s.mem a c := rfl

@[simp] theorem Stores.put_written (s : Stores) (a : Nat) (c : UInt8) :
    (s.put a c).written = a :: s.written := rfl

def Translation.load (t : Translation) (mem : Memory) (p : Nat) : Option UInt8 := (t mem p).map mem

def Translation.store (t : Translation) (s : Stores) (p : Nat) (c : UInt8) : Option Stores :=
  (t s.mem p).map fun a => s.put a c

/-- The loop of `strncpy` from character `i` on, with `left` rounds to go. -/
def kernelStrncpyLoop (t : Translation) (dest src : Nat) : Nat → Nat → Stores → Option Stores
  | 0, i, s => t.store s (behind dest i) 0
  | left + 1, i, s =>
      match t.load s.mem (behind src i) with
      | none => none
      | some c =>
          if c = 0 then t.store s (behind dest i) 0
          else
            match t.store s (behind dest i) c with
            | none => none
            | some s => kernelStrncpyLoop t dest src left (i + 1) s

/-- Copies `count - 1` characters at most, and terminates the copy. -/
def kernelStrncpy (t : Translation) (dest src : Nat) (count : Int) (s : Stores) : Option Stores :=
  kernelStrncpyLoop t dest src (count - 1).toNat 0 s

/-- The loop of `strcpy` from character `i` on. The copy is not terminated, and
without a NUL the loop does not end; `fuel` bounds the rounds. -/
def kernelStrcpyLoop (read : Memory → Nat → UInt8) (dest : Nat) :
    Nat → Nat → Stores → Option Stores
  | 0, _, _ => none
  | fuel + 1, i, s =>
      if read s.mem i = 0 then some s
      else kernelStrcpyLoop read dest fuel (i + 1) (s.put (behind dest i) (read s.mem i))

/-- `read` shows the characters of the source, which may be a constant. -/
def kernelStrcpy (read : Memory → Nat → UInt8) (dest : Nat) (s : Stores) : Option Stores :=
  kernelStrcpyLoop read dest 4294967296 0 s

/-- The loop of `strlen`, with the characters counted so far. -/
def kernelStrlenLoop (mem : Memory) (p : Nat) : Nat → Nat → Option Nat
  | 0, _ => none
  | fuel + 1, len =>
      if mem (behind p len) = 0 then some len else kernelStrlenLoop mem p fuel (len + 1)

def kernelStrlen (mem : Memory) (p : Nat) : Option Nat :=
  kernelStrlenLoop mem p 4294967296 0

/-- The first `n` of the bytes `out` are the string that `read` shows, or as much
of it as there is room for in `count` bytes together with the NUL behind it. -/
structure StringCopied (read : Nat → Option UInt8) (count : Nat) (out : Nat → UInt8) (n : Nat) :
    Prop where
  inside : n < count
  bytes : ∀ i < n, read i = some (out i) ∧ out i ≠ 0
  ends : out n = 0
  whole : n + 1 = count ∨ read n = some 0

/-- Nothing but the `count` bytes from `phys` on differs. -/
def SameOutside (phys count : Nat) (mem mem' : Memory) : Prop :=
  ∀ a, a < phys ∨ phys + count ≤ a → mem' a = mem a

/-- As long as only those bytes change, the `count` bytes behind `dest` are the
bytes from `phys` on. -/
def Reaches (t : Translation) (mem : Memory) (dest phys count : Nat) : Prop :=
  ∀ mem', SameOutside phys count mem mem' → ∀ i < count, t mem' (behind dest i) = some (phys + i)

/-- Byte `i` is looked at by a copy into `count` bytes, unless one of the bytes
in front of it is missing. -/
def ByteRead (read : Nat → Option UInt8) (count i : Nat) : Prop :=
  i + 1 < count ∧ ∀ j < i, read j ≠ some 0

/-- Bytes that are looked at stay what they are while the copy is made. -/
def StableSource (t : Translation) (mem : Memory) (src phys count : Nat) : Prop :=
  ∀ i, ByteRead (fun i => t.load mem (behind src i)) count i →
    ∀ mem', SameOutside phys count mem mem' → t.load mem' (behind src i) = t.load mem (behind src i)

/-- The `n` bytes from `phys` on have been stored to, and no others. -/
structure Wrote (phys n : Nat) (s s' : Stores) : Prop where
  outside : SameOutside phys n s.mem s'.mem
  written : ∀ a, a ∈ s'.written ↔ a ∈ s.written ∨ (phys ≤ a ∧ a < phys + n)

section Wrote

variable {phys n count : Nat} {s s' : Stores}

theorem SameOutside.mono {mem mem' : Memory} (h : SameOutside phys n mem mem') (hn : n ≤ count) :
    SameOutside phys count mem mem' := fun a ha => h a (by omega)

theorem Wrote.refl (phys : Nat) (s : Stores) : Wrote phys 0 s s :=
  ⟨fun _ _ => rfl, fun _ => ⟨Or.inl, fun h => h.elim id fun hIn => by omega⟩⟩

/-- One more byte. -/
theorem Wrote.put (h : Wrote phys n s s') (c : UInt8) : Wrote phys (n + 1) s (s'.put (phys + n) c) := by
  refine ⟨fun a ha => ?_, fun a => ?_⟩
  · rw [Stores.put_mem, Function.update_of_ne (by omega)]
    exact h.outside a (by omega)
  · rw [Stores.put_written, List.mem_cons, h.written a]
    have hLast : a = phys + n ∨ (phys ≤ a ∧ a < phys + n) ↔ phys ≤ a ∧ a < phys + (n + 1) := by
      omega
    rw [← hLast]
    tauto

end Wrote

section Loop

variable {t : Translation} {start s : Stores} {dest src phys count left i : Nat}

theorem Reaches.store (h : Reaches t start.mem dest phys count)
    (hSame : SameOutside phys count start.mem s.mem) (hi : i < count) (c : UInt8) :
    t.store s (behind dest i) c = some (s.put (phys + i) c) := by
  rw [Translation.store, h s.mem hSame i hi]
  rfl

/-- Whatever is read, the copy changes the destination only. -/
theorem kernelStrncpyLoop_outside (hDest : Reaches t start.mem dest phys count)
    (hWrote : Wrote phys i start s) (hCount : i + left < count) {fin : Stores}
    (hRun : kernelStrncpyLoop t dest src left i s = some fin) :
    SameOutside phys count start.mem fin.mem := by
  have hStop : ∀ {s : Stores} {i : Nat}, Wrote phys i start s → i < count →
      t.store s (behind dest i) 0 = some fin → SameOutside phys count start.mem fin.mem := by
    intro s i hWrote hi hStore
    rw [hDest.store (hWrote.outside.mono (by omega)) hi, Option.some.injEq] at hStore
    rw [← hStore]
    exact (hWrote.put 0).outside.mono hi
  induction left generalizing i s with
  | zero => exact hStop hWrote (by omega) hRun
  | succ left ih =>
      rw [kernelStrncpyLoop] at hRun
      cases hLoad : t.load s.mem (behind src i) with
      | none =>
          rw [hLoad] at hRun
          exact absurd hRun (by simp)
      | some c =>
          rw [hLoad] at hRun
          dsimp only at hRun
          by_cases hEnd : c = 0
          · rw [if_pos hEnd] at hRun
            exact hStop hWrote (by omega) hRun
          · rw [if_neg hEnd, hDest.store (hWrote.outside.mono (by omega)) (by omega)] at hRun
            exact ih (hWrote.put c) (by omega) hRun

/-- From a source that stays what it is, the string is copied up to its end, to
the limit, or to a byte that is missing. -/
theorem kernelStrncpyLoop_copies (hDest : Reaches t start.mem dest phys count)
    (hSource : StableSource t start.mem src phys count) (hWrote : Wrote phys i start s)
    (hCount : i + left + 1 = count)
    (hSeen : ∀ j < i, t.load start.mem (behind src j) = some (s.mem (phys + j)) ∧
      s.mem (phys + j) ≠ 0) :
    (kernelStrncpyLoop t dest src left i s = none ∧
        ∃ j, ByteRead (fun j => t.load start.mem (behind src j)) count j ∧
          t.load start.mem (behind src j) = none) ∨
      ∃ fin n, kernelStrncpyLoop t dest src left i s = some fin ∧ Wrote phys (n + 1) start fin ∧
        StringCopied (fun j => t.load start.mem (behind src j)) count
          (fun j => fin.mem (phys + j)) n := by
  have hBefore : ∀ {s : Stores} {i : Nat},
      (∀ j < i, t.load start.mem (behind src j) = some (s.mem (phys + j)) ∧ s.mem (phys + j) ≠ 0) →
      ∀ j < i, t.load start.mem (behind src j) ≠ some 0 := by
    intro s i hSeen j hj hZero
    exact (hSeen j hj).2 (Option.some.inj ((hSeen j hj).1.symm.trans hZero))
  have hStop : ∀ {s : Stores} {i : Nat}, Wrote phys i start s →
      (∀ j < i, t.load start.mem (behind src j) = some (s.mem (phys + j)) ∧ s.mem (phys + j) ≠ 0) →
      i < count → (i + 1 = count ∨ t.load start.mem (behind src i) = some 0) →
      ∃ fin n, t.store s (behind dest i) 0 = some fin ∧ Wrote phys (n + 1) start fin ∧
        StringCopied (fun j => t.load start.mem (behind src j)) count
          (fun j => fin.mem (phys + j)) n := by
    intro s i hWrote hSeen hi hWhole
    refine ⟨_, i, hDest.store (hWrote.outside.mono (by omega)) hi 0, hWrote.put 0, hi,
      fun j hj => ?_, Function.update_self _ _ _, hWhole⟩
    rw [Stores.put_mem, Function.update_of_ne (by omega)]
    exact hSeen j hj
  induction left generalizing i s with
  | zero => exact Or.inr (hStop hWrote hSeen (by omega) (Or.inl (by omega)))
  | succ left ih =>
      have hRead : ByteRead (fun j => t.load start.mem (behind src j)) count i :=
        ⟨by omega, hBefore hSeen⟩
      have hLoad := hSource i hRead s.mem (hWrote.outside.mono (by omega))
      rw [kernelStrncpyLoop, hLoad]
      cases hByte : t.load start.mem (behind src i) with
      | none => exact Or.inl ⟨rfl, i, hRead, hByte⟩
      | some c =>
          dsimp only
          by_cases hEnd : c = 0
          · rw [if_pos hEnd]
            exact Or.inr (hStop hWrote hSeen (by omega) (Or.inr (hEnd ▸ hByte)))
          · rw [if_neg hEnd, hDest.store (hWrote.outside.mono (by omega)) (by omega)]
            refine ih (hWrote.put c) (by omega) fun j hj => ?_
            by_cases hLast : j = i
            · rw [hLast, Stores.put_mem, Function.update_self]
              exact ⟨hByte, hEnd⟩
            · rw [Stores.put_mem, Function.update_of_ne (by omega)]
              exact hSeen j (by omega)

end Loop

section Copy

variable {t : Translation} {mem : Memory} {s : Stores} {dest src phys count : Nat}

theorem kernelStrncpy_outside {limit : Int} (hDest : Reaches t s.mem dest phys count)
    (hLimit : limit = count) (hCount : 1 ≤ count) {fin : Stores}
    (hRun : kernelStrncpy t dest src limit s = some fin) :
    SameOutside phys count s.mem fin.mem :=
  kernelStrncpyLoop_outside hDest (Wrote.refl phys s) (by omega) hRun

theorem kernelStrncpy_copies {limit : Int} (hDest : Reaches t s.mem dest phys count)
    (hSource : StableSource t s.mem src phys count) (hLimit : limit = count) (hCount : 1 ≤ count) :
    (kernelStrncpy t dest src limit s = none ∧
        ∃ j, ByteRead (fun j => t.load s.mem (behind src j)) count j ∧
          t.load s.mem (behind src j) = none) ∨
      ∃ fin n, kernelStrncpy t dest src limit s = some fin ∧ Wrote phys (n + 1) s fin ∧
        StringCopied (fun j => t.load s.mem (behind src j)) count
          (fun j => fin.mem (phys + j)) n :=
  kernelStrncpyLoop_copies hDest hSource (Wrote.refl phys s) (by omega)
    fun j hj => absurd hj (Nat.not_lt_zero j)

theorem identityTranslation_load (mem : Memory) (p : Nat) :
    identityTranslation.load mem p = some (mem p) := rfl

/-- The kernel reaches a buffer of its own at its address. -/
theorem reaches_identity (mem : Memory) (h : dest + count ≤ 4294967296) :
    Reaches identityTranslation mem dest dest count := fun _ _ i hi =>
  congrArg some (behind_of_lt (by omega))

/-- Kernel memory apart from the destination stays what it is. -/
theorem stableSource_identity (mem : Memory)
    (hApart : ∀ i, i + 1 < count → behind src i < phys ∨ phys + count ≤ behind src i) :
    StableSource identityTranslation mem src phys count := fun i hRead mem' hSame => by
  rw [identityTranslation_load, identityTranslation_load]
  exact congrArg some (hSame _ (hApart i hRead.1))

/-- There is one copy of a string for each limit. -/
theorem StringCopied.trans {read : Nat → Option UInt8} {mid out : Nat → UInt8} {n m : Nat}
    (hFirst : StringCopied read count mid n)
    (hSecond : StringCopied (fun i => some (mid i)) count out m) :
    StringCopied read count out n := by
  have hSame : m = n := by
    rcases Nat.lt_trichotomy m n with hShort | hEqual | hLong
    · have hNonzero := (hFirst.bytes m hShort).2
      rcases hSecond.whole with hFull | hZero
      · have hInside := hFirst.inside
        omega
      · exact absurd (Option.some.inj hZero) hNonzero
    · exact hEqual
    · have hByte := hSecond.bytes n hLong
      rw [← Option.some.inj hByte.1, hFirst.ends] at hByte
      exact absurd rfl hByte.2
  subst hSame
  refine ⟨hFirst.inside, fun i hi => ?_, hSecond.ends, hFirst.whole⟩
  rw [← Option.some.inj (hSecond.bytes i hi).1]
  exact hFirst.bytes i hi

/-- All that matters of a source is what is read of it. -/
theorem StringCopied.congr {read read' : Nat → Option UInt8} {out : Nat → UInt8} {n : Nat}
    (h : StringCopied read count out n)
    (hSame : ∀ i, ByteRead read count i → read' i = read i) : StringCopied read' count out n := by
  have hInside := h.inside
  have hBefore : ∀ i ≤ n, ∀ j < i, read j ≠ some 0 := fun i hi j hj hZero =>
    (h.bytes j (by omega)).2 (Option.some.inj ((h.bytes j (by omega)).1.symm.trans hZero))
  refine ⟨h.inside, fun i hi => ?_, h.ends, ?_⟩
  · rw [hSame i ⟨by omega, hBefore i (by omega)⟩]
    exact h.bytes i hi
  · rcases h.whole with hFull | hZero
    · exact Or.inl hFull
    · by_cases hLast : n + 1 = count
      · exact Or.inl hLast
      · rw [hSame n ⟨by omega, hBefore n (Nat.le_refl n)⟩]
        exact Or.inr hZero

/-- Where the bytes that are read agree, the same bytes are read. -/
theorem ByteRead.congr {read read' : Nat → Option UInt8}
    (hSame : ∀ i, ByteRead read count i → read' i = read i) {i : Nat}
    (h : ByteRead read' count i) : ByteRead read count i := by
  induction i using Nat.strongRecOn with
  | ind i ih =>
      have hRoom := h.1
      refine ⟨h.1, fun j hj => ?_⟩
      have hEarlier : ByteRead read' count j :=
        ⟨by omega, fun l hl => h.2 l (by omega)⟩
      rw [← hSame j (ih j hj hEarlier)]
      exact h.2 j hj

end Copy

section Unbounded

variable {read : Memory → Nat → UInt8} {dest n fuel i : Nat} {start s : Stores}

theorem kernelStrcpyLoop_copies (hRoom : dest + n ≤ 4294967296)
    (hSource : ∀ i ≤ n, ∀ mem, SameOutside dest i start.mem mem → read mem i = read start.mem i)
    (hChars : ∀ i < n, read start.mem i ≠ 0) (hEnd : read start.mem n = 0)
    (hWrote : Wrote dest i start s) (hi : i ≤ n) (hFuel : n - i < fuel)
    (hSeen : ∀ j < i, s.mem (dest + j) = read start.mem j) :
    ∃ fin, kernelStrcpyLoop read dest fuel i s = some fin ∧ Wrote dest n start fin ∧
      ∀ j < n, fin.mem (dest + j) = read start.mem j := by
  induction fuel generalizing i s with
  | zero => exact absurd hFuel (Nat.not_lt_zero _)
  | succ fuel ih =>
      rw [kernelStrcpyLoop, hSource i hi s.mem hWrote.outside]
      by_cases hLast : i = n
      · subst hLast
        rw [if_pos hEnd]
        exact ⟨s, rfl, hWrote, hSeen⟩
      · rw [if_neg (hChars i (by omega)), behind_of_lt (by omega)]
        refine ih (hWrote.put _) (by omega) (by omega) fun j hj => ?_
        by_cases hNew : j = i
        · rw [hNew, Stores.put_mem, Function.update_self]
        · rw [Stores.put_mem, Function.update_of_ne (by omega)]
          exact hSeen j (by omega)

/-- The characters are copied, and nothing is stored behind them. -/
theorem kernelStrcpy_copies (hRoom : dest + n ≤ 4294967296) (hShort : n < 4294967296)
    (hSource : ∀ i ≤ n, ∀ mem, SameOutside dest i s.mem mem → read mem i = read s.mem i)
    (hChars : ∀ i < n, read s.mem i ≠ 0) (hEnd : read s.mem n = 0) :
    ∃ fin, kernelStrcpy read dest s = some fin ∧ Wrote dest n s fin ∧
      ∀ j < n, fin.mem (dest + j) = read s.mem j := by
  rw [kernelStrcpy]
  exact kernelStrcpyLoop_copies hRoom hSource hChars hEnd (Wrote.refl dest s) (Nat.zero_le n) hShort
    fun j hj => absurd hj (Nat.not_lt_zero j)

theorem kernelStrlenLoop_cases (mem : Memory) (p fuel len : Nat) :
    (kernelStrlenLoop mem p fuel len = none ∧
        ∀ i, len ≤ i → i < len + fuel → mem (behind p i) ≠ 0) ∨
      ∃ n, kernelStrlenLoop mem p fuel len = some n ∧ len ≤ n ∧ mem (behind p n) = 0 ∧
        ∀ i, len ≤ i → i < n → mem (behind p i) ≠ 0 := by
  induction fuel generalizing len with
  | zero => exact Or.inl ⟨rfl, fun i hLow hHigh => by omega⟩
  | succ fuel ih =>
      rw [kernelStrlenLoop]
      by_cases hEnd : mem (behind p len) = 0
      · rw [if_pos hEnd]
        exact Or.inr ⟨len, rfl, Nat.le_refl len, hEnd, fun i hLow hHigh => by omega⟩
      · rw [if_neg hEnd]
        have hNext : ∀ {i}, len ≤ i → i = len ∨ len + 1 ≤ i := fun hLow => by omega
        rcases ih (len + 1) with ⟨hNone, hNonzero⟩ | ⟨n, hFound, hLow, hZero, hNonzero⟩
        · refine Or.inl ⟨hNone, fun i hFrom hTo => ?_⟩
          rcases hNext hFrom with rfl | hLater
          · exact hEnd
          · exact hNonzero i hLater (by omega)
        · refine Or.inr ⟨n, hFound, by omega, hZero, fun i hFrom hTo => ?_⟩
          rcases hNext hFrom with rfl | hLater
          · exact hEnd
          · exact hNonzero i hLater hTo

/-- The length is the number of characters in front of the first NUL, and without
a NUL in memory there is none. -/
theorem kernelStrlen_cases (mem : Memory) (p : Nat) :
    (kernelStrlen mem p = none ∧ ∀ i < 4294967296, mem (behind p i) ≠ 0) ∨
      ∃ n, kernelStrlen mem p = some n ∧ mem (behind p n) = 0 ∧
        ∀ i < n, mem (behind p i) ≠ 0 := by
  rw [kernelStrlen]
  rcases kernelStrlenLoop_cases mem p 4294967296 0 with
    ⟨hNone, hNonzero⟩ | ⟨n, hFound, _, hZero, hNonzero⟩
  · exact Or.inl ⟨hNone, fun i hi => hNonzero i (Nat.zero_le i) (by omega)⟩
  · exact Or.inr ⟨n, hFound, hZero, fun i hi => hNonzero i (Nat.zero_le i) hi⟩

end Unbounded

end LiebeOS
