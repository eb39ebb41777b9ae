import Mathlib.Data.List.Basic
import LiebeOS.Lib.Run
import LiebeOS.Memory.Heap

/-! Runs of `heap_malloc` and `heap_free`, and what keeps live allocations
apart. A run records the size each live pointer was requested with; the
table itself only knows the chained entries. -/
namespace LiebeOS

open MachineInt Transition

/-- A non-null result of `heap_malloc(size)` that has not been freed. -/
structure Allocation where
  ptr : Nat
  size : Nat

structure HeapRun where
  heap : Heap
  live : List Allocation

inductive HeapEvent where
  | malloc (size : Nat)
  | free (k : Nat)
  | freeNull

/-- One call. `free k` frees the `k`-th live allocation; `freeNull` passes on
the null pointer of a refused request. -/
inductive HeapStep : HeapRun → HeapEvent → HeapRun → Prop where
  | malloc (s : HeapRun) (size : Nat) (hSize : size < 4294967296) :
      HeapStep s (.malloc size)
        { heap := (heapMalloc s.heap size).2
          live := if (heapMalloc s.heap size).1 = 0 then s.live
            else ⟨(heapMalloc s.heap size).1, size⟩ :: s.live }
  | free (s : HeapRun) (k : Nat) (a : Allocation) (hLive : s.live[k]? = some a) :
      HeapStep s (.free k) { heap := heapFree s.heap a.ptr, live := s.live.eraseIdx k }
  | freeNull (s : HeapRun) :
      HeapStep s .freeNull { heap := heapFree s.heap 0, live := s.live }

/-- The least number of blocks an allocation of `size` bytes has to hold. -/
def blocksOf (size : Nat) : Nat := max 1 ((size + 4095) / 4096)

theorem blocksOf_pos (size : Nat) : 1 ≤ blocksOf size := Nat.le_max_left _ _

/-- Two block ranges have no block in common. -/
def RangesApart (b : Int) (k : Nat) (b' : Int) (k' : Nat) : Prop :=
  b + k ≤ b' ∨ b' + k' ≤ b

theorem RangesApart.symm {b b' : Int} {k k' : Nat} (h : RangesApart b k b' k') :
    RangesApart b' k' b k := Or.symm h

def Allocation.block (heap : Heap) (a : Allocation) : Int := heapAddressToBlock heap a.ptr

def Allocation.Apart (heap : Heap) (a a' : Allocation) : Prop :=
  RangesApart (a.block heap) (blocksOf a.size) (a'.block heap) (blocksOf a'.size)

/-- Every live pointer designates its own range of taken blocks inside the
`n` blocks of the heap, and no entry from index `n` on was ever stored to. -/
structure HeapSafe (n : Nat) (s : HeapRun) : Prop where
  address : ∀ a ∈ s.live, a.ptr = heapBlockToAddress s.heap (a.block s.heap)
  inside : ∀ a ∈ s.live, 0 ≤ a.block s.heap ∧ a.block s.heap + blocksOf a.size ≤ n
  taken : ∀ a ∈ s.live, ∀ j, a.block s.heap ≤ j → j < a.block s.heap + blocksOf a.size →
    entryTaken (s.heap.table.entries j) = true
  disjoint : s.live.Pairwise (Allocation.Apart s.heap)
  confined : ∀ j ∈ s.heap.table.written, j < n

/-- The condition under which `heap_malloc(size)` keeps to its contract: the
scan cannot run off the table inside a free run (there is no block, or the
last one is taken), or the size rounds up without wrapping to at least one
block and some run of that many free blocks exists. -/
def RequestFits (t : HeapTable) (size : Nat) : Prop :=
  t.total = 0 ∨ entryTaken (t.entries (t.total - 1)) = true ∨
    (1 ≤ size ∧ size ≤ 0xFFFFF000 ∧
      ∃ b : Int, 0 ≤ b ∧ b + blocksOf size ≤ t.total ∧ FreeRun t.entries b (blocksOf size))

/-- The condition under which `heap_free(0)` leaves the table alone: the
index it computes for address 0 is behind the table, or the chain of entries
from there stops at a byte in front of the table. -/
def NullFreeMisses (heap : Heap) : Prop :=
  heap.table.total ≤ heapAddressToBlock heap 0 ∨
    ∃ last, heapAddressToBlock heap 0 ≤ last ∧ last < 0 ∧
      entryHasNext (heap.table.entries last) = false

def EventFits (s : HeapRun) : HeapEvent → Prop
  | .malloc size => RequestFits s.heap.table size
  | .free _ => True
  | .freeNull => NullFreeMisses s.heap

/-! ### One request -/

/-- Rounding a size up: the block count is the least sufficient one, except
that size zero and the sizes whose round-up wraps ask for no block at all. -/
theorem heapAlignValueToUpper_blocks {size : Nat} (hSize : size < 4294967296) :
    heapAlignValueToUpper size / liebeOsHeapBlockSize =
      if 1 ≤ size ∧ size ≤ 0xFFFFF000 then blocksOf size else 0 := by
  unfold heapAlignValueToUpper blocksOf liebeOsHeapBlockSize toWord
  split_ifs <;> omega

/-- A request for which there is a run of free blocks is granted, though not
necessarily that run. -/
theorem heapMalloc_of_run {heap : Heap} {size : Nat} {b : Int} (hPositive : 1 ≤ size)
    (hLarge : size ≤ 0xFFFFF000) (hb : 0 ≤ b) (hRoom : b + blocksOf size ≤ heap.table.total)
    (hRun : FreeRun heap.table.entries b (blocksOf size)) :
    ∃ b : Int, 0 ≤ b ∧ b + blocksOf size ≤ heap.table.total ∧
      FreeRun heap.table.entries b (blocksOf size) ∧
      heapMalloc heap size =
        (heapBlockToAddress heap b, heapMarkBlocksTaken heap b (blocksOf size)) := by
  have hStart : ScanInv heap.table.entries 0 0 (-1) := Or.inl ⟨rfl, rfl⟩
  have hCount : heapAlignValueToUpper size / liebeOsHeapBlockSize = blocksOf size := by
    rw [heapAlignValueToUpper_blocks (by omega), if_pos ⟨hPositive, hLarge⟩]
  obtain ⟨hr, hrb, hFree⟩ := heapScan_of_run (blocksOf_pos size) hRun heap.table.total 0 0 (-1)
    (Int.le_refl _) (by omega) hStart (blocksOf_pos size) (by simpa using hb)
  refine ⟨_, hr, by omega, hFree, ?_⟩
  simp only [heapMalloc, heapMallocBlocks, heapGetStartBlock, hCount]
  rw [if_neg (by omega), if_neg (by omega)]

/-- A request that fits is either refused, with nothing changed, or granted
a run of free blocks that was inside the table. -/
theorem heapMalloc_of_fits {heap : Heap} {size : Nat} (hSize : size < 4294967296)
    (hFits : RequestFits heap.table size) :
    heapMalloc heap size = (0, heap) ∨
      ∃ b : Int, 0 ≤ b ∧ b + blocksOf size ≤ heap.table.total ∧
        FreeRun heap.table.entries b (blocksOf size) ∧
        heapMalloc heap size =
          (heapBlockToAddress heap b, heapMarkBlocksTaken heap b (blocksOf size)) := by
  have hBlocks := heapAlignValueToUpper_blocks hSize
  have hStart : ScanInv heap.table.entries 0 0 (-1) := Or.inl ⟨rfl, rfl⟩
  rcases hFits with hEmpty | hLast | ⟨hPositive, hLarge, b, hb, hRoom, hRun⟩
  · left
    simp [heapMalloc, heapMallocBlocks, heapGetStartBlock, hEmpty, heapScan, enomem]
  · -- the last entry is taken, so no candidate survives to the end of the table
    rcases heapScan_cases (heapAlignValueToUpper size / liebeOsHeapBlockSize)
      heap.table.total 0 0 (-1) (Int.le_refl _) hStart with hNone | hFound | ⟨hr, hEnd, hRun⟩
    · left
      simp [heapMalloc, heapMallocBlocks, heapGetStartBlock, hNone, enomem]
    · right
      set r := heapScan heap.table.entries (heapAlignValueToUpper size / liebeOsHeapBlockSize)
        heap.table.total 0 0 (-1) with hrDef
      obtain ⟨hr, hOne, hEnd, hRun⟩ := hFound
      have hCount : heapAlignValueToUpper size / liebeOsHeapBlockSize = blocksOf size := by
        rw [hBlocks] at hOne ⊢
        split_ifs at hOne ⊢
        · rfl
        · omega
      rw [hCount] at hEnd hRun
      refine ⟨r, hr, by omega, hRun, ?_⟩
      simp only [heapMalloc, heapMallocBlocks, heapGetStartBlock, ← hrDef]
      rw [if_neg (show ¬ r = -1 by omega), if_neg (by omega), hCount]
    · have hFree := hRun (heap.table.total - 1) (by omega) (by omega)
      rw [hLast] at hFree
      exact absurd hFree (by decide)
  · exact Or.inr (heapMalloc_of_run hPositive hLarge hb hRoom hRun)

/-- Block numbers survive the trip through a 32-bit address. -/
theorem heapAddressToBlock_heapBlockToAddress (heap : Heap) {b : Int} {n : Nat}
    (hb : 0 ≤ b) (hbn : b < n) (hn : n * 4096 < 2147483648) :
    heapAddressToBlock heap (heapBlockToAddress heap b) = b := by
  have hWrapped : toInt ((heapBlockToAddress heap b : Int) - heap.saddr) = b * 4096 := by
    unfold heapBlockToAddress toInt toWord liebeOsHeapBlockSize
    omega
  unfold heapAddressToBlock
  rw [hWrapped, liebeOsHeapBlockSize]
  exact Int.mul_tdiv_cancel b (by decide)

/-! ### The invariant of a run -/

/-- Live allocations are marked runs inside the table, pairwise apart. Taken
entries that belong to no live allocation are harmless and not constrained. -/
structure HeapInv (n : Nat) (s : HeapRun) : Prop where
  total : s.heap.table.total = n
  address : ∀ a ∈ s.live, a.ptr = heapBlockToAddress s.heap (a.block s.heap)
  inside : ∀ a ∈ s.live, 0 ≤ a.block s.heap ∧ a.block s.heap + blocksOf a.size ≤ n
  marked : ∀ a ∈ s.live, MarkedRun s.heap.table.entries (a.block s.heap) (blocksOf a.size)
  disjoint : s.live.Pairwise (Allocation.Apart s.heap)
  confined : ∀ j ∈ s.heap.table.written, j < n

theorem HeapInv.safe {n : Nat} {s : HeapRun} (h : HeapInv n s) : HeapSafe n s where
  address := h.address
  inside := h.inside
  taken a ha j hLow hHigh := ((h.marked a ha).2 j hLow hHigh).1
  disjoint := h.disjoint
  confined := h.confined

/-- A free run has no block in common with a marked one. -/
theorem FreeRun.apart {entries : Int → UInt8} {b b' : Int} {k k' : Nat}
    (hFree : FreeRun entries b k) (hk : 1 ≤ k) (hMarked : MarkedRun entries b' k') :
    RangesApart b k b' k' := by
  unfold RangesApart
  by_contra hOverlap
  have hPositive := hMarked.1
  by_cases hOrder : b ≤ b'
  · have hTaken := (hMarked.2 b' (Int.le_refl _) (by omega)).1
    rw [hFree b' hOrder (by omega)] at hTaken
    exact Bool.false_ne_true hTaken
  · have hTaken := (hMarked.2 b (by omega) (by omega)).1
    rw [hFree b (Int.le_refl _) (by omega)] at hTaken
    exact Bool.false_ne_true hTaken

theorem HeapInv.malloc {n : Nat} {s : HeapRun} {size : Nat} (h : HeapInv n s)
    (hn : n * 4096 < 2147483648) (hSize : size < 4294967296) (hFits : RequestFits s.heap.table size) :
    HeapInv n
      { heap := (heapMalloc s.heap size).2
        live := if (heapMalloc s.heap size).1 = 0 then s.live
          else ⟨(heapMalloc s.heap size).1, size⟩ :: s.live } := by
  rcases heapMalloc_of_fits hSize hFits with hNone | ⟨b, hb, hEnd, hFree, hGrant⟩
  · rw [hNone]
    exact h
  · rw [h.total] at hEnd
    have hPositive := blocksOf_pos size
    have hBlock : heapAddressToBlock s.heap (heapBlockToAddress s.heap b) = b :=
      heapAddressToBlock_heapBlockToAddress s.heap hb (by omega) hn
    have hApart : ∀ a ∈ s.live, RangesApart b (blocksOf size) (a.block s.heap) (blocksOf a.size) :=
      fun a ha => hFree.apart hPositive (h.marked a ha)
    have hOld : ∀ a ∈ s.live, MarkedRun (heapMarkBlocksTaken s.heap b (blocksOf size)).table.entries
        (a.block s.heap) (blocksOf a.size) := fun a ha =>
      (h.marked a ha).of_eq fun j hLow hHigh =>
        heapMarkBlocksTaken_entries_outside s.heap (by
          rcases hApart a ha with hBefore | hAfter
          · omega
          · omega)
    have hConfined : ∀ j ∈ (heapMarkBlocksTaken s.heap b (blocksOf size)).table.written,
        j < n := fun j hj => by
      rcases heapMarkBlocksTaken_written s.heap hj with hBefore | hRange
      · exact h.confined j hBefore
      · omega
    rw [hGrant]
    dsimp only
    split_ifs with hNull
    · -- block 0 of a heap at address 0: taken, but its pointer reads as a refusal
      exact
        { total := by simp [h.total]
          address := h.address
          inside := h.inside
          marked := hOld
          disjoint := h.disjoint
          confined := hConfined }
    · refine
        { total := by simp [h.total]
          address := ?_
          inside := ?_
          marked := ?_
          disjoint := ?_
          confined := hConfined }
      · intro a ha
        rcases List.mem_cons.mp ha with rfl | ha
        · exact congrArg (heapBlockToAddress s.heap) hBlock.symm
        · exact h.address a ha
      · intro a ha
        rcases List.mem_cons.mp ha with rfl | ha
        · change 0 ≤ heapAddressToBlock s.heap _ ∧ heapAddressToBlock s.heap _ + _ ≤ _
          rw [hBlock]
          exact ⟨hb, hEnd⟩
        · exact h.inside a ha
      · intro a ha
        rcases List.mem_cons.mp ha with rfl | ha
        · change MarkedRun _ (heapAddressToBlock s.heap _) _
          rw [hBlock]
          exact heapMarkBlocksTaken_markedRun s.heap b hPositive
        · exact hOld a ha
      · refine List.pairwise_cons.mpr ⟨fun a ha => ?_, h.disjoint⟩
        change RangesApart (heapAddressToBlock s.heap _) _ _ _
        rw [hBlock]
        exact hApart a ha

/-- Freeing the start address of a marked run inside the table clears exactly
its entries. -/
theorem heapFree_marked {heap : Heap} {ptr k : Nat}
    (hEnd : heapAddressToBlock heap ptr + k ≤ heap.table.total)
    (hMarked : MarkedRun heap.table.entries (heapAddressToBlock heap ptr) k) :
    let b := heapAddressToBlock heap ptr
    (∀ j, b ≤ j → j < b + k → (heapFree heap ptr).table.entries j = heapBlockTableEntryFree) ∧
    (∀ j, j < b ∨ b + k ≤ j → (heapFree heap ptr).table.entries j = heap.table.entries j) ∧
    (∀ j ∈ (heapFree heap ptr).table.written,
      j ∈ heap.table.written ∨ (b ≤ j ∧ j < b + k)) := by
  have hPositive := hMarked.1
  exact heapFreeLoop_markedRun _ _ heap.table
    (fun j hLow hHigh => (hMarked.2 j hLow hHigh).2) (by omega) (by omega)

/-- Removing one position from a list of pairwise related elements leaves it
related to every element that remains. -/
theorem pairwise_eraseIdx_apart {α : Type*} {R : α → α → Prop} {l : List α} {k : Nat} {a : α}
    (hSymm : ∀ {x y}, R x y → R y x) (h : l.Pairwise R) (hk : l[k]? = some a) :
    ∀ x ∈ l.eraseIdx k, R a x := by
  induction l generalizing k with
  | nil => simp at hk
  | cons y rest ih =>
      obtain ⟨hHead, hTail⟩ := List.pairwise_cons.mp h
      intro x hx
      cases k with
      | zero =>
          obtain rfl : y = a := by simpa using hk
          exact hHead x (by simpa using hx)
      | succ k =>
          have hk' : rest[k]? = some a := by simpa using hk
          rcases List.mem_cons.mp (by simpa using hx) with rfl | hx
          · exact hSymm (hHead a (List.mem_of_getElem? hk'))
          · exact ih hTail hk' x hx

theorem HeapInv.free {n : Nat} {s : HeapRun} {k : Nat} {a : Allocation} (h : HeapInv n s)
    (hLive : s.live[k]? = some a) :
    HeapInv n { heap := heapFree s.heap a.ptr, live := s.live.eraseIdx k } := by
  have ha := List.mem_of_getElem? hLive
  have hOld : ∀ x ∈ s.live.eraseIdx k, x ∈ s.live := fun x hx => List.mem_of_mem_eraseIdx hx
  have hApart := pairwise_eraseIdx_apart RangesApart.symm h.disjoint hLive
  have hInside := h.inside a ha
  obtain ⟨_, hSame, hWritten⟩ := heapFree_marked
    (by rw [h.total]; exact hInside.2) (h.marked a ha)
  exact
    { total := by simp [heapFree, heapMarkBlocksFree, h.total]
      address := fun x hx => h.address x (hOld x hx)
      inside := fun x hx => h.inside x (hOld x hx)
      marked := fun x hx => (h.marked x (hOld x hx)).of_eq fun j hLow hHigh =>
        hSame j (by
          have hx' : RangesApart (a.block s.heap) (blocksOf a.size)
            (x.block s.heap) (blocksOf x.size) := hApart x hx
          change j < a.block s.heap ∨ a.block s.heap + blocksOf a.size ≤ j
          change x.block s.heap ≤ j at hLow
          change j < x.block s.heap + blocksOf x.size at hHigh
          rcases hx' with hBefore | hAfter
          · omega
          · omega)
      disjoint := h.disjoint.sublist (List.eraseIdx_sublist _ _)
      confined := fun j hj => by
        rcases hWritten j hj with hBefore | hRange
        · exact h.confined j hBefore
        · have hHigh : j < a.block s.heap + blocksOf a.size := hRange.2
          omega }

theorem HeapInv.freeNull {n : Nat} {s : HeapRun} (h : HeapInv n s)
    (hMisses : NullFreeMisses s.heap) :
    HeapInv n { heap := heapFree s.heap 0, live := s.live } := by
  have hTable : (∀ j : Int, 0 ≤ j → j < n →
        (heapFree s.heap 0).table.entries j = s.heap.table.entries j) ∧
      ∀ j ∈ (heapFree s.heap 0).table.written, j ∈ s.heap.table.written ∨ j < 0 := by
    rcases hMisses with hBehind | ⟨last, hFrom, hBefore, hStop⟩
    · have hNone : ((s.heap.table.total : Int) - heapAddressToBlock s.heap 0).toNat = 0 := by omega
      have hSame : (heapFree s.heap 0).table = s.heap.table := by
        simp [heapFree, heapMarkBlocksFree, hNone, heapFreeLoop]
      rw [hSame]
      exact ⟨fun _ _ _ => rfl, fun _ hj => Or.inl hj⟩
    · obtain ⟨hSame, hWritten⟩ := heapFreeLoop_stops
        ((s.heap.table.total : Int) - heapAddressToBlock s.heap 0).toNat
        (heapAddressToBlock s.heap 0) s.heap.table hFrom hStop
      exact ⟨fun j hLow _ => hSame j (Or.inr (by omega)),
        fun j hj => (hWritten j hj).imp id fun hRange => by omega⟩
  exact
    { total := by simp [heapFree, heapMarkBlocksFree, h.total]
      address := h.address
      inside := h.inside
      marked := fun a ha => (h.marked a ha).of_eq fun j hLow hHigh => by
        have hInside := h.inside a ha
        exact hTable.1 j (by omega) (by omega)
      disjoint := h.disjoint
      confined := fun j hj => by
        rcases hTable.2 j hj with hOld | hNegative
        · exact h.confined j hOld
        · omega }

theorem HeapInv.step {n : Nat} {s t : HeapRun} {e : HeapEvent} (h : HeapInv n s)
    (hn : n * 4096 < 2147483648) (hStep : Guarded HeapStep EventFits s e t) : HeapInv n t := by
  obtain ⟨hFits, hStep⟩ := hStep
  cases hStep with
  | malloc size hSize => exact h.malloc hn hSize hFits
  | free k a hLive => exact h.free hLive
  | freeNull => exact h.freeNull hFits

/-! ### From `heap_create` on -/

@[simp] theorem heapTableFill_total (e : UInt8) (n : Nat) (i : Int) (t : HeapTable) :
    (heapTableFill e n i t).total = t.total := by
  induction n generalizing i t with
  | zero => rfl
  | succ n ih => simp [heapTableFill, ih]

theorem heapTableFill_written (e : UInt8) (n : Nat) (i : Int) (t : HeapTable) {j : Int}
    (h : j ∈ (heapTableFill e n i t).written) : j ∈ t.written ∨ (i ≤ j ∧ j < i + n) := by
  induction n generalizing i t with
  | zero => exact Or.inl h
  | succ n ih =>
      rcases ih (i + 1) _ h with hOld | hRange
      · rcases List.mem_cons.mp hOld with rfl | hOld
        · exact Or.inr ⟨Int.le_refl _, by omega⟩
        · exact Or.inl hOld
      · exact Or.inr ⟨by omega, by omega⟩

/-- The run state right after `heap_create` over a table of `n` entries with
arbitrary old contents. -/
def heapStart (heap : Heap) (ptr finish n : Nat) (entries : Int → UInt8) : HeapRun :=
  { heap := (heapCreate heap ptr finish ⟨entries, n, []⟩).2, live := [] }

theorem heapCreate_ok {heap : Heap} {ptr finish n : Nat} {entries : Int → UInt8}
    (hCreate : (heapCreate heap ptr finish ⟨entries, n, []⟩).1 = 0) :
    (heapCreate heap ptr finish ⟨entries, n, []⟩).2 =
      { table := heapTableFill heapBlockTableEntryFree n 0 ⟨entries, n, []⟩, saddr := ptr } := by
  revert hCreate
  unfold heapCreate
  dsimp only
  split_ifs with hAlign hTable
  · intro hCreate
    simp [einvarg] at hCreate
  · intro hCreate
    exact absurd hCreate (by omega)
  · exact fun _ => rfl

theorem heapStart_inv {heap : Heap} {ptr finish n : Nat} {entries : Int → UInt8}
    (hCreate : (heapCreate heap ptr finish ⟨entries, n, []⟩).1 = 0) :
    HeapInv n (heapStart heap ptr finish n entries) := by
  unfold heapStart
  rw [heapCreate_ok hCreate]
  refine
    { total := by simp
      address := by simp
      inside := by simp
      marked := by simp
      disjoint := List.Pairwise.nil
      confined := fun j hj => ?_ }
  rcases heapTableFill_written _ _ _ _ hj with hOld | hRange
  · exact absurd hOld (by simp)
  · simpa using hRange.2

/-- In every run from `heap_create` in which each request fits when it is
made, live allocations stay inside the heap, taken and pairwise disjoint,
and no entry behind the table is stored to. -/
theorem heapRun_safe {heap : Heap} {ptr finish n : Nat} {entries : Int → UInt8}
    {events : List HeapEvent} {s : HeapRun}
    (hn : n * 4096 < 2147483648)
    (hCreate : (heapCreate heap ptr finish ⟨entries, n, []⟩).1 = 0)
    (run : Run (Guarded HeapStep EventFits) (heapStart heap ptr finish n entries) events s) :
    HeapSafe n s := by
  have hInv : HeapInv n s := run.invariant (heapStart_inv hCreate)
    (fun _ _ _ hs hStep => hs.step hn hStep)
  exact hInv.safe

/-- Two blocks, a table full of stale bytes: a request for 5000 bytes takes
both blocks and is freed again. -/
theorem heapRun_safe_two_blocks :
    ∃ s, Run (Guarded HeapStep EventFits)
        (heapStart ⟨⟨fun _ => 0xFF, 2, []⟩, 0⟩ 0x01000000 0x01002000 2 fun _ => 0xFF)
        [.malloc 5000, .free 0] s ∧ HeapSafe 2 s := by
  have hFits : EventFits
      (heapStart ⟨⟨fun _ => 0xFF, 2, []⟩, 0⟩ 0x01000000 0x01002000 2 fun _ => 0xFF)
      (.malloc 5000) := by
    refine Or.inr (Or.inr ⟨by decide, by decide, 0, by decide, by decide, fun j hLow hHigh => ?_⟩)
    have hj : j = 0 ∨ j = 1 := by
      have hBlocks : blocksOf 5000 = 2 := by decide
      omega
    rcases hj with rfl | rfl
    · decide
    · decide
  have hMalloc : Guarded HeapStep EventFits _ _ _ :=
    ⟨hFits, HeapStep.malloc _ 5000 (by decide)⟩
  have run := Run.snoc (Run.single hMalloc)
    (show Guarded HeapStep EventFits _ (.free 0) _ from
      ⟨trivial, HeapStep.free _ 0 ⟨0x01000000, 5000⟩ rfl⟩)
  exact ⟨_, run, heapRun_safe (by decide) (by decide) run⟩

/-- On a heap of one block, a request for two blocks is granted block 0 and
the byte behind the table is overwritten: the scan runs off the table inside
a free run and `heap_get_start_block` returns its start all the same. -/
theorem heapRun_unsafe :
    ¬ ∀ (heap : Heap) (ptr finish n : Nat) (entries : Int → UInt8) (events : List HeapEvent)
      (s : HeapRun), n * 4096 < 2147483648 →
      (heapCreate heap ptr finish ⟨entries, n, []⟩).1 = 0 →
      Run HeapStep (heapStart heap ptr finish n entries) events s → HeapSafe n s := by
  intro hClaim
  have hSafe := hClaim ⟨⟨fun _ => 0, 1, []⟩, 0⟩ 0x01000000 0x01001000 1 (fun _ => 0)
    [.malloc 8192] _ (by decide) (by decide)
    (Run.single (HeapStep.malloc _ 8192 (by decide)))
  have hStore := hSafe.confined 1 (by decide)
  exact absurd hStore (by decide)

end LiebeOS
