import Mathlib.Order.Bounds.Basic
import LiebeOS.Memory.BlockRequest

/-! The scan of `heap_get_start_block` is a complete first fit: it finds the first run
of free entries that is long enough, and fails only where there is none. -/
namespace LiebeOS

open MachineInt

/-- The entry that block `i` of an allocation of `n` blocks gets. -/
def allocationEntry (n i : Nat) : UInt8 :=
  if i = 0 then
    if 1 < n then heapBlockTableEntryTaken ||| heapBlockIsFirst ||| heapBlockHasNext
    else heapBlockTableEntryTaken ||| heapBlockIsFirst
  else if i + 1 < n then heapBlockTableEntryTaken ||| heapBlockHasNext
  else heapBlockTableEntryTaken

/-- From `heap` to `heap'` the entries of `n` blocks from `b` on have become those of
one allocation, and no other entry was stored to. -/
structure MarkedOne (heap heap' : Heap) (b : Int) (n : Nat) : Prop where
  entries : ∀ j, heap'.table.entries j =
    if b ≤ j ∧ j < b + n then allocationEntry n (j - b).toNat else heap.table.entries j
  stores : ∀ j ∈ heap'.table.written, j ∈ heap.table.written ∨ (b ≤ j ∧ j < b + n)
  shape : heap'.saddr = heap.saddr ∧ heap'.table.total = heap.table.total

/-! ### The scan with the types of the source -/

/-- The scan with a `size_t` for the index and `int`s for the count and the start; the
count is compared as an unsigned number. -/
def heapScanInt (entries : Int → UInt8) (totalBlocks : Nat) : Nat → Nat → Int → Int → Int
  | 0, _, _, blockStart => blockStart
  | left + 1, i, blockCount, blockStart =>
      if entryTaken (entries i) then heapScanInt entries totalBlocks left (toWord (i + 1)) 0 (-1)
      else
        let blockStart := if blockStart = -1 then toInt i else blockStart
        let blockCount := toInt (blockCount + 1)
        if toWord blockCount = totalBlocks then blockStart
        else heapScanInt entries totalBlocks left (toWord (i + 1)) blockCount blockStart

/-- In a table that `int`s can count nothing overflows. -/
theorem heapScanInt_eq (entries : Int → UInt8) (totalBlocks left i blockCount : Nat)
    (blockStart : Int) (hRoom : i + left < 2147483648) (hCount : blockCount ≤ i) :
    heapScanInt entries totalBlocks left i blockCount blockStart =
      heapScan entries totalBlocks left i blockCount blockStart := by
  induction left generalizing i blockCount blockStart with
  | zero => rfl
  | succ left ih =>
      have hNext : toWord ((i : Int) + 1) = i + 1 := by
        unfold toWord
        omega
      have hIndex : toInt (i : Int) = i := toInt_of_range (by omega) (by omega)
      have hCounted : toInt ((blockCount : Int) + 1) = (blockCount + 1 : Nat) := by
        rw [toInt_of_range (by omega) (by omega)]
        exact (Int.natCast_succ blockCount).symm
      have hUnsigned : toWord ((blockCount + 1 : Nat) : Int) = blockCount + 1 := by
        unfold toWord
        omega
      rw [heapScanInt, heapScan, hNext, hIndex, hCounted]
      dsimp only
      rw [hUnsigned]
      have hRest := fun count start hSmall => ih (i + 1) count start (by omega) hSmall
      rw [hRest (blockCount + 1) _ (by omega)]
      have hZero := hRest 0 (-1) (by omega)
      rw [Int.natCast_zero] at hZero
      rw [hZero]
      rfl

section FirstFit

variable {heap : Heap} {n : Nat} {b : Int}

theorem heapMarkBlocksTaken_one_allocation (heap : Heap) (b : Int) (n : Nat) :
    MarkedOne heap (heapMarkBlocksTaken heap b n) b n where
  entries j := by
    by_cases hIn : b ≤ j ∧ j < b + n
    · have hEntry := heapMarkLoop_entries (b + n - 1) n b
        (if n > 1 then heapBlockTableEntryTaken ||| heapBlockIsFirst ||| heapBlockHasNext
          else heapBlockTableEntryTaken ||| heapBlockIsFirst) heap.table (by omega) hIn.1 hIn.2
      rw [if_pos hIn]
      refine Eq.trans hEntry ?_
      unfold allocationEntry
      by_cases hFirst : j = b
      · rw [if_pos hFirst, if_pos (show (j - b).toNat = 0 by omega)]
      · rw [if_neg hFirst, if_neg (show ¬ (j - b).toNat = 0 by omega)]
        by_cases hLast : j = b + n - 1
        · rw [if_pos hLast, if_neg (show ¬ (j - b).toNat + 1 < n by omega)]
        · rw [if_neg hLast, if_pos (show (j - b).toNat + 1 < n by omega)]
    · rw [if_neg hIn]
      exact heapMarkBlocksTaken_entries_outside heap (by omega)
  stores _ hj := heapMarkBlocksTaken_written heap hj
  shape := ⟨rfl, heapMarkBlocksTaken_total ..⟩

/-- Whatever run of free blocks there is, the scan stops at one that starts no later. -/
theorem heapGetStartBlock_le (hn : 1 ≤ n) (hRun : FreeBlocks heap b n) :
    heapGetStartBlock heap n = heapScan heap.table.entries n heap.table.total 0 0 (-1) ∧
      FreeBlocks heap (heapGetStartBlock heap n) n ∧ heapGetStartBlock heap n ≤ b := by
  obtain ⟨hLow, hHigh⟩ := hRun.inside
  obtain ⟨hPositive, hBefore, hFree⟩ := heapScan_of_run hn hRun.free heap.table.total 0 0 (-1)
    (Int.le_refl 0) (by omega) (Or.inl ⟨rfl, rfl⟩) (by omega) (by simpa using hLow)
  have hStart : heapGetStartBlock heap n =
      heapScan heap.table.entries n heap.table.total 0 0 (-1) := by
    rw [heapGetStartBlock]
    exact if_neg (by omega)
  rw [hStart]
  exact ⟨rfl, ⟨⟨hPositive, by omega⟩, hFree⟩, hBefore⟩

/-- In a table of any length a request for which there is a run of free entries gets
the first such run, and exactly these entries become one allocation. As long as `int`s can
count the entries, the scan finds this run with the types of the source too. -/
theorem heapMallocBlocks_firstFit (hn : 1 ≤ n) (hRun : ∃ b, FreeBlocks heap b n) :
    ∃ b, IsLeast {b | FreeBlocks heap b n} b ∧ heapGetStartBlock heap n = b ∧
      (heap.table.total < 2147483648 →
        heapScanInt heap.table.entries n heap.table.total 0 0 (-1) = b) ∧
      ∃ heap', heapMallocBlocks heap n = (heapBlockToAddress heap b, heap') ∧
        MarkedOne heap heap' b n := by
  obtain ⟨b, hFree⟩ := hRun
  obtain ⟨hScan, hFound, _⟩ := heapGetStartBlock_le hn hFree
  have hLeast : IsLeast {b | FreeBlocks heap b n} (heapGetStartBlock heap n) :=
    ⟨hFound, fun c hc => (heapGetStartBlock_le hn hc).2.2⟩
  have hLow := hFound.inside.1
  refine ⟨_, hLeast, rfl, fun hTotal => ?_, _, ?_, heapMarkBlocksTaken_one_allocation heap _ n⟩
  · rw [hScan]
    exact heapScanInt_eq heap.table.entries n heap.table.total 0 0 (-1) (by omega) (Nat.le_refl 0)
  · rw [heapMallocBlocks]
    exact if_neg (by omega)

end FirstFit

/-- Three blocks behind two that are taken and a gap that is too short. -/
theorem heapMallocBlocks_firstFit_gap :
    let heap : Heap := ⟨⟨fun j => if j = 0 ∨ j = 3 then heapBlockTableEntryTaken else 0, 8, []⟩, 0x01000000⟩
    heapScanInt heap.table.entries 3 8 0 0 (-1) = 4 ∧
      ∃ heap', heapMallocBlocks heap 3 = (0x01004000, heap') ∧ MarkedOne heap heap' 4 3 := by
  intro heap
  have hRun : ∃ b, FreeBlocks heap b 3 := by
    refine ⟨4, by decide, fun j hLow hHigh => ?_⟩
    have hEntry : heap.table.entries j = 0 := if_neg (by omega)
    rw [hEntry]
    rfl
  obtain ⟨b, _, hStart, hScan, heap', hGrant, hMarked⟩ :=
    heapMallocBlocks_firstFit (by decide) hRun
  have hFour : heapGetStartBlock heap 3 = 4 := by decide +kernel
  have hBlock : b = 4 := by rw [← hStart, hFour]
  have hAddress : heapBlockToAddress heap 4 = 0x01004000 := by decide +kernel
  rw [hBlock] at hGrant hMarked hScan
  exact ⟨hScan (by decide), heap', hAddress ▸ hGrant, hMarked⟩

end LiebeOS
