import Mathlib.Logic.Function.Basic
import LiebeOS.Status
import LiebeOS.Lib.MachineInt

/-! The block allocator of `heap.c`. The table is the byte array that
`table->entries` points to. Bytes at indices outside `0 .. total - 1` are
the memory around the table: the C code can reach them, so the model keeps
them too. -/
namespace LiebeOS

open MachineInt

def liebeOsHeapBlockSize : Nat := 4096

def heapBlockTableEntryTaken : UInt8 := 0b00000001
def heapBlockTableEntryFree : UInt8 := 0b00000000
def heapBlockIsFirst : UInt8 := 0b10000000
def heapBlockHasNext : UInt8 := 0b01000000

/-- `written` lists the index of every store made through `entries`. It is
not part of the C structure; it makes a store outside the table visible even
when the byte stored there happens to be the byte already present. -/
structure HeapTable where
  entries : Int → UInt8
  total : Nat
  written : List Int

structure Heap where
  table : HeapTable
  saddr : Nat

/-- `table->entries[i] = e` -/
def HeapTable.store (t : HeapTable) (i : Int) (e : UInt8) : HeapTable :=
  { t with entries := Function.update t.entries i e, written := i :: t.written }

@[simp] theorem HeapTable.store_total (t : HeapTable) (i : Int) (e : UInt8) :
    (t.store i e).total = t.total := rfl

@[simp] theorem HeapTable.store_written (t : HeapTable) (i : Int) (e : UInt8) :
    (t.store i e).written = i :: t.written := rfl

@[simp] theorem HeapTable.store_entries_self (t : HeapTable) (i : Int) (e : UInt8) :
    (t.store i e).entries i = e := by
  simp [store]

theorem HeapTable.store_entries_of_ne (t : HeapTable) {i j : Int} (e : UInt8) (h : j ≠ i) :
    (t.store i e).entries j = t.entries j := by
  simp [store, h]

/-- `entry & HEAP_BLOCK_TABLE_ENTRY_TAKEN` -/
def entryTaken (e : UInt8) : Bool := e &&& heapBlockTableEntryTaken != 0

/-- `entry & HEAP_BLOCK_HAS_NEXT` -/
def entryHasNext (e : UInt8) : Bool := e &&& heapBlockHasNext != 0

def heapValidateTable (ptr finish : Nat) (table : HeapTable) : Int :=
  let tableSize := toWord ((finish : Int) - ptr)
  let totalBlocks := tableSize / liebeOsHeapBlockSize
  if table.total ≠ totalBlocks then -einvarg else 0

def heapValidateAlignment (ptr : Nat) : Bool := ptr % liebeOsHeapBlockSize == 0

/-- The `memset` of the table with one-byte entries, from index `i` on. -/
def heapTableFill (e : UInt8) : Nat → Int → HeapTable → HeapTable
  | 0, _, t => t
  | n + 1, i, t => heapTableFill e n (i + 1) (t.store i e)

/-- The result code and the heap object. On a misaligned range the object is
left as it was; after a failed table check it is set up but not cleared. -/
def heapCreate (heap : Heap) (ptr finish : Nat) (table : HeapTable) : Int × Heap :=
  if !heapValidateAlignment ptr || !heapValidateAlignment finish then
    (-einvarg, heap)
  else
    let res := heapValidateTable ptr finish table
    if res < 0 then (res, { table := table, saddr := ptr })
    else (res, { table := heapTableFill heapBlockTableEntryFree table.total 0 table, saddr := ptr })

/-- Rounds up to a multiple of the block size in 32-bit arithmetic, so the
largest sizes wrap to zero. -/
def heapAlignValueToUpper (val : Nat) : Nat :=
  if val % liebeOsHeapBlockSize = 0 then val
  else toWord ((val - val % liebeOsHeapBlockSize : Nat) + liebeOsHeapBlockSize)

/-- The scan of `heap_get_start_block` with `left` table entries still to
look at; returns `block_start` as it is when the loop is left. -/
def heapScan (entries : Int → UInt8) (totalBlocks : Nat) : Nat → Int → Nat → Int → Int
  | 0, _, _, blockStart => blockStart
  | left + 1, i, blockCount, blockStart =>
      if entryTaken (entries i) then heapScan entries totalBlocks left (i + 1) 0 (-1)
      else
        let blockStart := if blockStart = -1 then i else blockStart
        let blockCount := blockCount + 1
        if blockCount = totalBlocks then blockStart
        else heapScan entries totalBlocks left (i + 1) blockCount blockStart

def heapGetStartBlock (heap : Heap) (totalBlocks : Nat) : Int :=
  let blockStart := heapScan heap.table.entries totalBlocks heap.table.total 0 0 (-1)
  if blockStart = -1 then -enomem else blockStart

def heapBlockToAddress (heap : Heap) (block : Int) : Nat :=
  toWord (heap.saddr + block * liebeOsHeapBlockSize)

def heapAddressToBlock (heap : Heap) (address : Nat) : Int :=
  (toInt ((address : Int) - heap.saddr)).tdiv liebeOsHeapBlockSize

/-- The loop of `heap_mark_blocks_taken` with `n` iterations left. The byte
stored at `i` was prepared by the iteration before. -/
def heapMarkLoop (endBlock : Int) : Nat → Int → UInt8 → HeapTable → HeapTable
  | 0, _, _, t => t
  | n + 1, i, entry, t =>
      let t := t.store i entry
      let entry := heapBlockTableEntryTaken
      let entry := if i ≠ endBlock - 1 then entry ||| heapBlockHasNext else entry
      heapMarkLoop endBlock n (i + 1) entry t

def heapMarkBlocksTaken (heap : Heap) (startBlock : Int) (totalBlocks : Nat) : Heap :=
  let endBlock := startBlock + totalBlocks - 1
  let entry := heapBlockTableEntryTaken ||| heapBlockIsFirst
  let entry := if totalBlocks > 1 then entry ||| heapBlockHasNext else entry
  { heap with table := heapMarkLoop endBlock totalBlocks startBlock entry heap.table }

def heapMallocBlocks (heap : Heap) (totalBlocks : Nat) : Nat × Heap :=
  let startBlock := heapGetStartBlock heap totalBlocks
  if startBlock < 0 then (0, heap)
  else (heapBlockToAddress heap startBlock, heapMarkBlocksTaken heap startBlock totalBlocks)

/-- The loop of `heap_mark_blocks_free` with `n` entries up to the end of
the table left. -/
def heapFreeLoop : Nat → Int → HeapTable → HeapTable
  | 0, _, t => t
  | n + 1, i, t =>
      let entry := t.entries i
      let t := t.store i heapBlockTableEntryFree
      if !entryHasNext entry then t else heapFreeLoop n (i + 1) t

def heapMarkBlocksFree (heap : Heap) (startingBlock : Int) : Heap :=
  { heap with
    table := heapFreeLoop ((heap.table.total : Int) - startingBlock).toNat startingBlock heap.table }

def heapMalloc (heap : Heap) (size : Nat) : Nat × Heap :=
  heapMallocBlocks heap (heapAlignValueToUpper size / liebeOsHeapBlockSize)

def heapFree (heap : Heap) (ptr : Nat) : Heap :=
  heapMarkBlocksFree heap (heapAddressToBlock heap ptr)

/-! ### The first-fit scan -/

/-- Blocks `b .. b + n - 1` are all not taken. -/
def FreeRun (entries : Int → UInt8) (b : Int) (n : Nat) : Prop :=
  ∀ j, b ≤ j → j < b + n → entryTaken (entries j) = false

/-- What the candidate start and the running count say about the entries
already passed: no candidate, or a non-empty free run that ends at `i`. -/
def ScanInv (entries : Int → UInt8) (i : Int) (blockCount : Nat) (blockStart : Int) : Prop :=
  (blockStart = -1 ∧ blockCount = 0) ∨
    (0 ≤ blockStart ∧ 1 ≤ blockCount ∧ blockStart + blockCount = i ∧
      FreeRun entries blockStart blockCount)

/-- Passing a free entry keeps the invariant: the entry either starts a new
candidate or extends the current one. -/
theorem ScanInv.advance {entries : Int → UInt8} {i : Int} {blockCount : Nat} {blockStart : Int}
    (h : ScanInv entries i blockCount blockStart) (hi : 0 ≤ i)
    (hFree : entryTaken (entries i) = false) :
    ScanInv entries (i + 1) (blockCount + 1) (if blockStart = -1 then i else blockStart) := by
  right
  rcases h with ⟨rfl, rfl⟩ | ⟨hStart, _, hEnd, hRun⟩
  · refine ⟨by simpa using hi, by omega, by simp, ?_⟩
    intro j hLow hHigh
    have hj : j = i := by simp at hLow hHigh; omega
    rwa [hj]
  · have hNe : blockStart ≠ -1 := by omega
    rw [if_neg hNe]
    refine ⟨hStart, by omega, by omega, ?_⟩
    intro j hLow hHigh
    by_cases hj : j = i
    · rwa [hj]
    · exact hRun j hLow (by omega)

/-- The three ways out of the scan: no candidate, a complete run, or the
table ended inside a candidate that is too short. The last one is returned
like a complete run. -/
theorem heapScan_cases {entries : Int → UInt8} (totalBlocks left : Nat) (i : Int)
    (blockCount : Nat) (blockStart : Int) (hi : 0 ≤ i)
    (hInv : ScanInv entries i blockCount blockStart) :
    let r := heapScan entries totalBlocks left i blockCount blockStart
    r = -1 ∨
      (0 ≤ r ∧ 1 ≤ totalBlocks ∧ r + totalBlocks ≤ i + left ∧ FreeRun entries r totalBlocks) ∨
      (0 ≤ r ∧ r < i + left ∧ FreeRun entries r (i + left - r).toNat) := by
  induction left generalizing i blockCount blockStart with
  | zero =>
      rcases hInv with ⟨hNone, _⟩ | ⟨hStart, hCount, hEnd, hRun⟩
      · exact Or.inl hNone
      · refine Or.inr (Or.inr ⟨hStart, by simp [heapScan]; omega, ?_⟩)
        have hLength : (i + (0 : Nat) - blockStart).toNat = blockCount := by omega
        simpa only [heapScan, hLength] using hRun
  | succ left ih =>
      have hCast : i + ((left + 1 : Nat) : Int) = (i + 1) + left := by omega
      simp only [heapScan, hCast]
      by_cases hTaken : entryTaken (entries i) = true
      · rw [if_pos hTaken]
        exact ih (i + 1) 0 (-1) (by omega) (Or.inl ⟨rfl, rfl⟩)
      · have hFree : entryTaken (entries i) = false := by simpa using hTaken
        have hNext := hInv.advance hi hFree
        rw [if_neg hTaken]
        set start := if blockStart = -1 then i else blockStart
        split_ifs with hFound
        · obtain ⟨_, hZero⟩ | ⟨hStart, _, hEnd, hRun⟩ := hNext
          · omega
          · exact Or.inr (Or.inl ⟨hStart, by omega, by omega, hFound ▸ hRun⟩)
        · exact ih (i + 1) _ _ (by omega) hNext

/-- When a long enough run exists the scan stops inside the table, at a run
that starts no later than any given one. While no run is complete the
candidate cannot start after `b`, because a candidate only restarts behind a
taken entry. -/
theorem heapScan_of_run {entries : Int → UInt8} {totalBlocks : Nat} {b : Int}
    (hPositive : 1 ≤ totalBlocks) (hRun : FreeRun entries b totalBlocks)
    (left : Nat) (i : Int) (blockCount : Nat) (blockStart : Int) (hi : 0 ≤ i)
    (hRoom : b + totalBlocks ≤ i + left) (hInv : ScanInv entries i blockCount blockStart)
    (hShort : blockCount < totalBlocks)
    (hEarly : if blockStart = -1 then i ≤ b else blockStart ≤ b) :
    let r := heapScan entries totalBlocks left i blockCount blockStart
    0 ≤ r ∧ r ≤ b ∧ FreeRun entries r totalBlocks := by
  induction left generalizing i blockCount blockStart with
  | zero =>
      rcases hInv with ⟨hNone, _⟩ | ⟨hStart, _, hEnd, _⟩
      · rw [if_pos hNone] at hEarly
        omega
      · rw [if_neg (by omega)] at hEarly
        omega
  | succ left ih =>
      simp only [heapScan]
      by_cases hTaken : entryTaken (entries i) = true
      · have hOutside : ¬(b ≤ i ∧ i < b + totalBlocks) := by
          rintro ⟨hLow, hHigh⟩
          rw [hRun i hLow hHigh] at hTaken
          exact Bool.false_ne_true hTaken
        have hBefore : i < b := by
          rcases hInv with ⟨hNone, _⟩ | ⟨hStart, _, hEnd, _⟩
          · rw [if_pos hNone] at hEarly
            omega
          · rw [if_neg (by omega)] at hEarly
            omega
        rw [if_pos hTaken]
        exact ih (i + 1) 0 (-1) (by omega) (by omega) (Or.inl ⟨rfl, rfl⟩) (by omega)
          (by simp; omega)
      · have hFree : entryTaken (entries i) = false := by simpa using hTaken
        have hNext := hInv.advance hi hFree
        rw [if_neg hTaken]
        set start := if blockStart = -1 then i else blockStart with hStartDef
        have hStartLe : start ≤ b := by
          rw [hStartDef]
          split_ifs with hNew
          · rwa [if_pos hNew] at hEarly
          · rwa [if_neg hNew] at hEarly
        obtain ⟨hNone, hZero⟩ | ⟨hStart, hCount, hEnd, hPrefix⟩ := hNext
        · omega
        · split_ifs with hFound
          · exact ⟨hStart, hStartLe, hFound ▸ hPrefix⟩
          · refine ih (i + 1) _ _ (by omega) (by omega)
              (Or.inr ⟨hStart, hCount, hEnd, hPrefix⟩) (by omega) ?_
            rw [if_neg (by omega)]
            exact hStartLe

/-! ### Marking and freeing a run -/

/-- The entries that `heap_mark_blocks_taken` leaves for one allocation of
`k` blocks at `b`: all taken, and chained up to the last one. -/
def MarkedRun (entries : Int → UInt8) (b : Int) (k : Nat) : Prop :=
  1 ≤ k ∧ ∀ j, b ≤ j → j < b + k →
    entryTaken (entries j) = true ∧ (entryHasNext (entries j) = true ↔ j + 1 < b + k)

theorem MarkedRun.of_eq {entries entries' : Int → UInt8} {b : Int} {k : Nat}
    (h : MarkedRun entries b k)
    (hSame : ∀ j, b ≤ j → j < b + k → entries' j = entries j) : MarkedRun entries' b k := by
  refine ⟨h.1, fun j hLow hHigh => ?_⟩
  rw [hSame j hLow hHigh]
  exact h.2 j hLow hHigh

@[simp] theorem heapMarkLoop_total (endBlock : Int) (n : Nat) (i : Int) (entry : UInt8)
    (t : HeapTable) : (heapMarkLoop endBlock n i entry t).total = t.total := by
  induction n generalizing i entry t with
  | zero => rfl
  | succ n ih => simp [heapMarkLoop, ih]

theorem heapMarkLoop_entries_outside (endBlock : Int) (n : Nat) (i : Int) (entry : UInt8)
    (t : HeapTable) {j : Int} (h : j < i ∨ i + n ≤ j) :
    (heapMarkLoop endBlock n i entry t).entries j = t.entries j := by
  induction n generalizing i entry t with
  | zero => rfl
  | succ n ih =>
      rw [heapMarkLoop, ih (i + 1) _ _ (by omega)]
      exact t.store_entries_of_ne entry (by omega)

theorem heapMarkLoop_written (endBlock : Int) (n : Nat) (i : Int) (entry : UInt8)
    (t : HeapTable) {j : Int} (h : j ∈ (heapMarkLoop endBlock n i entry t).written) :
    j ∈ t.written ∨ (i ≤ j ∧ j < i + n) := by
  induction n generalizing i entry t with
  | zero => exact Or.inl h
  | succ n ih =>
      rw [heapMarkLoop] at h
      rcases ih (i + 1) _ _ h with hOld | hRange
      · rcases List.mem_cons.mp hOld with rfl | hOld
        · exact Or.inr ⟨Int.le_refl _, by omega⟩
        · exact Or.inl hOld
      · exact Or.inr ⟨by omega, by omega⟩

/-- Each byte is the one prepared by the iteration before: the first is the
caller's, a later one is chained unless it is the last. -/
theorem heapMarkLoop_entries (endBlock : Int) (n : Nat) (i : Int) (entry : UInt8)
    (t : HeapTable) (hEnd : i + n = endBlock + 1) {j : Int} (hLow : i ≤ j) (hHigh : j < i + n) :
    (heapMarkLoop endBlock n i entry t).entries j =
      if j = i then entry
      else if j = endBlock then heapBlockTableEntryTaken
      else heapBlockTableEntryTaken ||| heapBlockHasNext := by
  induction n generalizing i entry t with
  | zero => omega
  | succ n ih =>
      rw [heapMarkLoop]
      by_cases hj : j = i
      · subst hj
        rw [heapMarkLoop_entries_outside _ _ _ _ _ (by omega), if_pos rfl]
        exact t.store_entries_self j entry
      · rw [ih (i + 1) _ _ (by omega) (by omega) (by omega), if_neg hj]
        by_cases hNext : j = i + 1
        · rw [if_pos hNext]
          by_cases hLast : j = endBlock
          · rw [if_pos hLast, if_neg (by omega)]
          · rw [if_neg hLast, if_pos (by omega)]
        · rw [if_neg hNext]

@[simp] theorem heapMarkBlocksTaken_total (heap : Heap) (b : Int) (k : Nat) :
    (heapMarkBlocksTaken heap b k).table.total = heap.table.total := by
  simp [heapMarkBlocksTaken]

@[simp] theorem heapMarkBlocksTaken_saddr (heap : Heap) (b : Int) (k : Nat) :
    (heapMarkBlocksTaken heap b k).saddr = heap.saddr := rfl

theorem heapMarkBlocksTaken_entries_outside (heap : Heap) {b : Int} {k : Nat} {j : Int}
    (h : j < b ∨ b + k ≤ j) :
    (heapMarkBlocksTaken heap b k).table.entries j = heap.table.entries j :=
  heapMarkLoop_entries_outside _ _ _ _ _ h

theorem heapMarkBlocksTaken_written (heap : Heap) {b : Int} {k : Nat} {j : Int}
    (h : j ∈ (heapMarkBlocksTaken heap b k).table.written) :
    j ∈ heap.table.written ∨ (b ≤ j ∧ j < b + k) :=
  heapMarkLoop_written _ _ _ _ _ h

theorem heapMarkBlocksTaken_markedRun (heap : Heap) (b : Int) {k : Nat} (hk : 1 ≤ k) :
    MarkedRun (heapMarkBlocksTaken heap b k).table.entries b k := by
  refine ⟨hk, fun j hLow hHigh => ?_⟩
  have hEntry := heapMarkLoop_entries (b + k - 1) k b
    (if k > 1 then heapBlockTableEntryTaken ||| heapBlockIsFirst ||| heapBlockHasNext
      else heapBlockTableEntryTaken ||| heapBlockIsFirst) heap.table (by omega) hLow hHigh
  have hTable : (heapMarkBlocksTaken heap b k).table.entries j = _ := hEntry
  rw [hTable]
  by_cases hFirst : j = b
  · rw [if_pos hFirst]
    by_cases hLong : k > 1
    · rw [if_pos hLong]
      exact ⟨by decide, fun _ => by omega, fun _ => by decide⟩
    · rw [if_neg hLong]
      exact ⟨by decide, fun hNext => absurd hNext (by decide), fun hLess => by omega⟩
  · rw [if_neg hFirst]
    by_cases hLast : j = b + k - 1
    · rw [if_pos hLast]
      exact ⟨by decide, fun hNext => absurd hNext (by decide), fun hLess => by omega⟩
    · rw [if_neg hLast]
      exact ⟨by decide, fun _ => by omega, fun _ => by decide⟩

@[simp] theorem heapFreeLoop_total (n : Nat) (i : Int) (t : HeapTable) :
    (heapFreeLoop n i t).total = t.total := by
  induction n generalizing i t with
  | zero => rfl
  | succ n ih =>
      rw [heapFreeLoop]
      split_ifs
      · rfl
      · simp [ih]

/-- The loop never gets past an entry that is not chained to a next one. -/
theorem heapFreeLoop_stops (n : Nat) (i : Int) (t : HeapTable) {last : Int} (hLast : i ≤ last)
    (hStop : entryHasNext (t.entries last) = false) :
    (∀ j, j < i ∨ last < j → (heapFreeLoop n i t).entries j = t.entries j) ∧
    (∀ j ∈ (heapFreeLoop n i t).written, j ∈ t.written ∨ (i ≤ j ∧ j ≤ last)) := by
  induction n generalizing i t with
  | zero => exact ⟨fun _ _ => rfl, fun _ hj => Or.inl hj⟩
  | succ n ih =>
      rw [heapFreeLoop]
      by_cases hNext : entryHasNext (t.entries i) = true
      · have hLater : i + 1 ≤ last := by
          by_contra hHere
          have hEq : last = i := by omega
          rw [hEq, hNext] at hStop
          exact absurd hStop (by decide)
        obtain ⟨hSame, hWritten⟩ := ih (i + 1) (t.store i heapBlockTableEntryFree) hLater
          (by rwa [t.store_entries_of_ne _ (by omega)])
        rw [if_neg (by simp [hNext])]
        refine ⟨fun j hOut => ?_, fun j hj => ?_⟩
        · rw [hSame j (by omega)]
          exact t.store_entries_of_ne _ (by omega)
        · rcases hWritten j hj with hOld | hRange
          · rcases List.mem_cons.mp hOld with rfl | hOld
            · exact Or.inr ⟨Int.le_refl _, by omega⟩
            · exact Or.inl hOld
          · exact Or.inr ⟨by omega, hRange.2⟩
      · rw [if_pos (by simp [hNext])]
        refine ⟨fun j hOut => t.store_entries_of_ne _ (by omega), fun j hj => ?_⟩
        rcases List.mem_cons.mp hj with rfl | hOld
        · exact Or.inr ⟨Int.le_refl _, hLast⟩
        · exact Or.inl hOld

/-- Starting at a block of a marked run, the loop frees the rest of that run
and stops there, whatever follows it. -/
theorem heapFreeLoop_markedRun (n : Nat) (i : Int) (t : HeapTable) {b : Int} {k : Nat}
    (hRun : ∀ j, i ≤ j → j < b + k →
      (entryHasNext (t.entries j) = true ↔ j + 1 < b + k))
    (hInside : i < b + k) (hRoom : b + k ≤ i + n) :
    (∀ j, i ≤ j → j < b + k → (heapFreeLoop n i t).entries j = heapBlockTableEntryFree) ∧
    (∀ j, j < i ∨ b + k ≤ j → (heapFreeLoop n i t).entries j = t.entries j) ∧
    (∀ j ∈ (heapFreeLoop n i t).written, j ∈ t.written ∨ (i ≤ j ∧ j < b + k)) := by
  induction n generalizing i t with
  | zero => omega
  | succ n ih =>
      have hHere := hRun i (Int.le_refl _) hInside
      rw [heapFreeLoop]
      by_cases hNext : entryHasNext (t.entries i) = true
      · rw [if_neg (by simp [hNext])]
        have hRest := hHere.mp hNext
        obtain ⟨hFree, hSame, hWritten⟩ :=
          ih (i + 1) (t.store i heapBlockTableEntryFree)
            (fun j hLow hHigh => by
              rw [t.store_entries_of_ne _ (by omega)]
              exact hRun j (by omega) hHigh)
            hRest (by omega)
        refine ⟨fun j hLow hHigh => ?_, fun j hOut => ?_, fun j hj => ?_⟩
        · by_cases hj : j = i
          · rw [hSame j (by omega), hj]
            exact t.store_entries_self i _
          · exact hFree j (by omega) hHigh
        · rw [hSame j (by omega)]
          exact t.store_entries_of_ne _ (by omega)
        · rcases hWritten j hj with hOld | hRange
          · rcases List.mem_cons.mp hOld with rfl | hOld
            · exact Or.inr ⟨Int.le_refl _, hInside⟩
            · exact Or.inl hOld
          · exact Or.inr ⟨by omega, hRange.2⟩
      · have hLast : b + k = i + 1 := by
          have hNot : ¬ i + 1 < b + k := fun h => hNext (hHere.mpr h)
          omega
        rw [if_pos (by simp [hNext])]
        refine ⟨fun j hLow hHigh => ?_, fun j hOut => ?_, fun j hj => ?_⟩
        · have hj : j = i := by omega
          rw [hj]
          exact t.store_entries_self i _
        · exact t.store_entries_of_ne _ (by omega)
        · rcases List.mem_cons.mp hj with rfl | hOld
          · exact Or.inr ⟨Int.le_refl _, hInside⟩
          · exact Or.inl hOld

end LiebeOS
