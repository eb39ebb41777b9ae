import LiebeOS.Lib.Attempt
import LiebeOS.Memory.Protected

/-! Allocations as ranges of blocks that belong to one pointer. Requests and
releases leave the blocks of an allocation alone, unless it is released itself:
all that is needed of the released pointer is that it does not point into them. -/
namespace LiebeOS

open Attempts MachineInt Bytes

/-- The block that a pointer falls into. -/
def blockOf (ptr : Nat) : Int :=
  (toInt ((ptr : Int) - liebeOsHeapAddress)).tdiv liebeOsHeapBlockSize

/-- An allocation of `n` blocks, from block `b` on. -/
structure Allotted (heap : Heap) (b : Int) (n : Nat) : Prop where
  inside : 0 ≤ b ∧ b + n ≤ heap.table.total
  run : MarkedRun heap.table.entries b n
  start : entryHasNext (heap.table.entries (b - 1)) = false

/-- An allocation of `n` blocks that begins at `ptr`. -/
structure AllottedAt (heap : Heap) (ptr n : Nat) : Prop where
  address : (ptr : Int) = 16777216 + blockOf ptr * 4096
  allotted : Allotted heap (blockOf ptr) n

/-- The address `x` is in one of the `n` blocks from block `b` on. -/
def InBlocks (b : Int) (n x : Nat) : Prop :=
  16777216 + b * 4096 ≤ (x : Int) ∧ (x : Int) < 16777216 + (b + n) * 4096

/-- `ptr` does not point into the `n` blocks from block `b` on. -/
def Beside (b : Int) (n : Nat) (ptr : Nat) : Prop := blockOf ptr < b ∨ b + n ≤ blockOf ptr

/-- No chain of blocks leads into the block of `ptr`. -/
def Unchained (heap : Heap) (ptr : Nat) : Prop :=
  blockOf ptr < 0 ∨ entryHasNext (heap.table.entries (blockOf ptr - 1)) = false

/-- `ptr` is null, or the first block of an allocation. -/
def Owned (heap : Heap) (ptr : Nat) : Prop := ptr = 0 ∨ Protected heap (blockOf ptr)

section Pointers

variable {heap : Heap} {b b' : Int} {n n' ptr : Nat}

theorem KernelHeap.block (h : KernelHeap heap) (ptr : Nat) :
    heapAddressToBlock heap ptr = blockOf ptr := by
  rw [heapAddressToBlock, h.saddr, blockOf]

theorem blockOf_null : blockOf 0 = -4096 := by decide

theorem blockOf_address (hLow : 0 ≤ b) (hHigh : b < 25600)
    (hPtr : (ptr : Int) = 16777216 + b * 4096) : blockOf ptr = b := by
  have hOffset : toInt ((ptr : Int) - liebeOsHeapAddress) = b * 4096 := by
    unfold toInt liebeOsHeapAddress
    omega
  rw [blockOf, hOffset, liebeOsHeapBlockSize]
  exact Int.mul_tdiv_cancel b (by decide)

theorem KernelHeap.blockOf_address (h : KernelHeap heap) (hb : InHeap heap b) :
    blockOf (heapBlockToAddress heap b) = b := by
  have hTotal := h.total_eq
  obtain ⟨hLow, hHigh⟩ := hb
  exact LiebeOS.blockOf_address hLow (by omega) (h.address ⟨hLow, hHigh⟩)

theorem Beside.null (hLow : 0 ≤ b) (n : Nat) : Beside b n 0 := by
  rw [Beside, blockOf_null]
  omega

theorem Allotted.protected (h : Allotted heap b n) : Protected heap b := by
  have hPositive := h.run.1
  obtain ⟨hLow, hHigh⟩ := h.inside
  exact ⟨⟨hLow, by omega⟩, (h.run.2 b (Int.le_refl b) (by omega)).1, h.start⟩

/-- Different allocations have no block in common. -/
theorem Allotted.apart (h : Allotted heap b n) (h' : Allotted heap b' n') (hne : b ≠ b') :
    RangesApart b n b' n' := by
  have hInto : ∀ {c c' : Int} {m m' : Nat}, Allotted heap c m → Allotted heap c' m' → c < c' →
      c + m ≤ c' := fun {c c' m m'} hc hc' hOrder => by
    by_contra hOverlap
    have hNext := (hc.run.2 (c' - 1) (by omega) (by omega)).2.mpr (by omega)
    rw [hc'.start] at hNext
    cases hNext
  rcases Int.lt_or_gt_of_ne hne with hOrder | hOrder
  · exact Or.inl (hInto h h' hOrder)
  · exact Or.inr (hInto h' h hOrder)

theorem Allotted.beside (h : Allotted heap b n) (hOwned : Owned heap ptr) (hne : blockOf ptr ≠ b) :
    Beside b n ptr := by
  rcases hOwned with rfl | hStart
  · exact Beside.null h.inside.1 n
  · by_contra hInside
    unfold Beside at hInside
    have hNext := (h.run.2 (blockOf ptr - 1) (by omega) (by omega)).2.mpr (by omega)
    rw [hStart.start] at hNext
    cases hNext

end Pointers

/-! ### Requests -/

section Request

variable {heap : Heap} {b : Int} {n ptr : Nat}

theorem Allotted.malloc (h : Allotted heap b n) (size : Nat) :
    Allotted (heapMalloc heap size).2 b n := by
  have hStart := (h.protected.malloc size).start
  rcases heapMalloc_granted heap size with hNone | ⟨c, count, hc, _, hFree, hGrant, _⟩
  · rw [hNone]
    exact h
  · have hPositive := h.run.1
    obtain ⟨hLow, hHigh⟩ := h.inside
    have hSame : ∀ j, b ≤ j → j < b + n →
        (heapMarkBlocksTaken heap c count).table.entries j = heap.table.entries j :=
      fun j hFrom hTo => by
        refine heapMarkBlocksTaken_entries_outside heap ?_
        by_contra hIn
        have hTaken := (h.run.2 j hFrom hTo).1
        rw [hFree j (by omega) (by omega) (by omega)] at hTaken
        cases hTaken
    rw [hGrant] at hStart ⊢
    refine ⟨⟨hLow, ?_⟩, h.run.of_eq hSame, hStart⟩
    rw [heapMarkBlocksTaken_total]
    exact hHigh

theorem Allotted.malloc_beside (hHeap : KernelHeap heap) (h : Allotted heap b n) (size : Nat) :
    Beside b n (heapMalloc heap size).1 := by
  rcases heapMalloc_granted heap size with hNone | ⟨c, count, hc, hcFree, _, hGrant, _⟩
  · rw [hNone]
    exact Beside.null h.inside.1 n
  · rw [hGrant, Beside, hHeap.blockOf_address hc]
    by_contra hInside
    have hTaken := (h.run.2 c (by omega) (by omega)).1
    rw [hcFree] at hTaken
    cases hTaken

theorem Chained.malloc (h : Chained heap) (size : Nat) : Chained (heapMalloc heap size).2 := by
  rcases heapMalloc_granted heap size with hNone | ⟨c, count, hc, _, hFree, hGrant, _⟩
  · rw [hNone]
    exact h
  · rw [hGrant]
    intro j hLow hHigh hNext
    rw [heapMarkBlocksTaken_total] at hHigh
    by_cases hNew : c ≤ j + 1 ∧ j + 1 < c + count
    · exact ((heapMarkBlocksTaken_markedRun heap c (by omega)).2 (j + 1) hNew.1
        hNew.2).1
    · rw [heapMarkBlocksTaken_entries_outside heap (by omega)]
      by_cases hLast : c ≤ j ∧ j < c + count
      · have hMarked := (heapMarkBlocksTaken_markedRun heap c (by omega)).2 j
          hLast.1 hLast.2
        have hInside := hMarked.2.mp hNext
        omega
      · rw [heapMarkBlocksTaken_entries_outside heap (by omega)] at hNext
        exact h j hLow hHigh hNext

/-- In front of a free block no chain goes on. -/
theorem Chained.front (h : Chained heap) {c : Int} (hc : InHeap heap c)
    (hFree : entryTaken (heap.table.entries c) = false) :
    entryHasNext (heap.table.entries (c - 1)) = false := by
  obtain ⟨hLow, hHigh⟩ := hc
  by_contra hNext
  have hTaken := h (c - 1) (by omega) (by omega) (by simpa using hNext)
  rw [show c - 1 + 1 = c by omega, hFree] at hTaken
  cases hTaken

/-- What a request returns can be released without cutting a chain. -/
theorem Chained.malloc_unchained (h : Chained heap) (hHeap : KernelHeap heap) (size : Nat) :
    Unchained (heapMalloc heap size).2 (heapMalloc heap size).1 := by
  rcases heapMalloc_granted heap size with hNone | ⟨c, count, hc, hcFree, _, hGrant, _⟩
  · rw [hNone]
    exact Or.inl (by rw [blockOf_null]; decide)
  · rw [hGrant, Unchained, hHeap.blockOf_address hc]
    right
    rw [heapMarkBlocksTaken_entries_outside heap (by omega)]
    exact h.front hc hcFree

theorem Unchained.malloc_one (h : Unchained heap ptr) {size : Nat} (hPage : size ≤ 4096) :
    Unchained (heapMalloc heap size).2 ptr := by
  by_cases hSize : 1 ≤ size
  · rcases heapMalloc_one heap hSize hPage with ⟨_, hNone⟩ | ⟨c, hc, _, hGrant⟩
    · rw [hNone]
      exact h
    · rw [hGrant]
      rcases h with hNull | hFront
      · exact Or.inl hNull
      · right
        by_cases hSame : blockOf ptr - 1 = c
        · have hMarked := (heapMarkBlocksTaken_markedRun heap c (Nat.le_refl 1)).2 c
            (Int.le_refl c) (by omega)
          rw [hSame]
          by_contra hNext
          have hInside := hMarked.2.mp (by simpa using hNext)
          omega
        · rw [heapMarkBlocksTaken_entries_outside heap (by omega)]
          exact hFront
  · obtain rfl : size = 0 := by omega
    rcases heapMalloc_granted heap 0 with hNone | ⟨c, count, hc, _, _, hGrant, _⟩
    · rw [hNone]
      exact h
    · have hSame : (heapMalloc heap 0).2 = heap := by
        simp only [heapMalloc, heapMallocBlocks]
        split
        · rfl
        · rfl
      rw [hSame]
      exact h

theorem Owned.malloc (h : Owned heap ptr) (size : Nat) : Owned (heapMalloc heap size).2 ptr :=
  h.imp id fun hStart => hStart.malloc size

theorem Owned.unchained (h : Owned heap ptr) : Unchained heap ptr := by
  rcases h with rfl | hStart
  · exact Or.inl (by rw [blockOf_null]; decide)
  · exact Or.inr hStart.start

theorem Chained.malloc_owned (h : Chained heap) (hHeap : KernelHeap heap) {size : Nat}
    (hSize : 1 ≤ size) (hLarge : size ≤ 0xFFFFF000) :
    Owned (heapMalloc heap size).2 (heapMalloc heap size).1 := by
  have hCount : 1 ≤ heapAlignValueToUpper size / liebeOsHeapBlockSize := by
    rw [heapAlignValueToUpper_blocks (by omega), if_pos ⟨hSize, hLarge⟩]
    exact blocksOf_pos size
  have hUnchained := h.malloc_unchained hHeap size
  by_cases hNull : (heapMalloc heap size).1 = 0
  · exact Or.inl hNull
  · right
    unfold heapMalloc heapMallocBlocks at hNull hUnchained ⊢
    generalize heapAlignValueToUpper size / liebeOsHeapBlockSize = count at hCount hNull hUnchained ⊢
    have hScan := @heapScan_cases heap.table.entries count heap.table.total 0 0 (-1)
      (Int.le_refl 0) (Or.inl ⟨rfl, rfl⟩)
    unfold heapGetStartBlock at hNull hUnchained ⊢
    generalize heapScan heap.table.entries count heap.table.total 0 0 (-1) = r at *
    dsimp only at hNull hUnchained ⊢
    have hGranted : 0 ≤ r ∧ r < heap.table.total := by
      rcases hScan with hNone | ⟨hLow, _, hEnd, _⟩ | ⟨hLow, hEnd, _⟩
      · rw [hNone] at hNull
        exact absurd rfl hNull
      · omega
      · omega
    rw [if_neg (show ¬ r = -1 by omega), if_neg (show ¬ r < 0 by omega)] at hUnchained ⊢
    have hBlock := hHeap.blockOf_address hGranted
    rw [Unchained, hBlock] at hUnchained
    rw [hBlock]
    refine ⟨⟨hGranted.1, ?_⟩, ?_, hUnchained.resolve_left (by omega)⟩
    · rw [heapMarkBlocksTaken_total]
      exact hGranted.2
    · exact ((heapMarkBlocksTaken_markedRun heap r hCount).2 r (Int.le_refl r) (by omega)).1

/-- A request of one block is granted as long as there is a free one. -/
theorem heapMalloc_allotted (hChained : Chained heap) (hHeap : KernelHeap heap) {size : Nat}
    (hSize : 1 ≤ size) (hPage : size ≤ 4096) (hFree : HasFree heap) :
    ∃ c, entryTaken (heap.table.entries c) = false ∧ Allotted (heapMalloc heap size).2 c 1 ∧
      (heapMalloc heap size).1 = heapBlockToAddress heap c := by
  rcases heapMalloc_one heap hSize hPage with ⟨hFull, _⟩ | ⟨c, hc, hEntry, hGrant⟩
  · exact absurd hFree hFull
  · have hUnchained := hChained.malloc_unchained hHeap size
    have hTotal := hHeap.total_eq
    rw [hGrant, Unchained, hHeap.blockOf_address hc] at hUnchained
    obtain ⟨hLow, hHigh⟩ := hc
    rw [hGrant]
    refine ⟨c, hEntry, ⟨⟨hLow, ?_⟩, ?_, hUnchained.resolve_left (by omega)⟩, rfl⟩
    · rw [heapMarkBlocksTaken_total]
      omega
    · exact heapMarkBlocksTaken_markedRun heap c (Nat.le_refl 1)

end Request

/-! ### Releases -/

section Release

variable {heap : Heap} {b : Int} {n ptr q : Nat}

theorem heapFree_clears (hHeap : KernelHeap heap) (q : Nat) (j : Int) :
    (heapFree heap q).table.entries j = heap.table.entries j ∨
      (blockOf q ≤ j ∧ (heapFree heap q).table.entries j = heapBlockTableEntryFree) := by
  have hClears := heapFreeLoop_clears
    ((heap.table.total : Int) - heapAddressToBlock heap q).toNat (heapAddressToBlock heap q) j
    heap.table
  rw [← hHeap.block]
  exact hClears

theorem Unchained.free (h : Unchained heap ptr) (hHeap : KernelHeap heap) (q : Nat) :
    Unchained (heapFree heap q) ptr := by
  refine h.imp id fun hFront => ?_
  rcases heapFree_clears hHeap q (blockOf ptr - 1) with hSame | ⟨_, hClear⟩
  · rw [hSame]
    exact hFront
  · rw [hClear]
    decide

theorem Owned.free (h : Owned heap ptr) (hHeap : KernelHeap heap)
    (hApart : q = 0 ∨ blockOf q ≠ blockOf ptr) : Owned (heapFree heap q) ptr := by
  refine h.imp id fun hStart => hStart.free ?_
  rw [hHeap.block]
  rcases hApart with rfl | hne
  · have hInside := hStart.inside.1
    rw [blockOf_null]
    omega
  · exact hne

theorem Allotted.free (h : Allotted heap b n) (hHeap : KernelHeap heap) (hBeside : Beside b n q) :
    Allotted (heapFree heap q) b n := by
  have hPositive := h.run.1
  have hStart := (@Protected.free heap b h.protected q (by
    rw [hHeap.block]
    unfold Beside at hBeside
    omega)).start
  have hSame : ∀ j, b ≤ j → j < b + n →
      (heapFree heap q).table.entries j = heap.table.entries j := fun j hLow hHigh => by
    rcases hBeside with hBefore | hBehind
    · have hStop : heapAddressToBlock heap q ≤ b - 1 := by
        rw [hHeap.block]
        omega
      exact (heapFreeLoop_stops _ _ heap.table hStop h.start).1 j (Or.inr (by omega))
    · rcases heapFree_clears hHeap q j with hSame | ⟨hFrom, _⟩
      · exact hSame
      · omega
  refine ⟨?_, h.run.of_eq hSame, hStart⟩
  rw [(heapFree_shape heap q).2]
  exact h.inside

/-- The loop clears entry by entry: behind its first entry it gets to an entry
only through the one in front of it. -/
theorem heapFreeLoop_through (n : Nat) (i j : Int) (t : HeapTable) (hj : i < j) :
    (heapFreeLoop n i t).entries j = t.entries j ∨
      (heapFreeLoop n i t).entries (j - 1) = heapBlockTableEntryFree := by
  induction n generalizing i t with
  | zero => exact Or.inl rfl
  | succ n ih =>
      have hStore : (t.store i heapBlockTableEntryFree).entries j = t.entries j :=
        t.store_entries_of_ne _ (by omega)
      rw [heapFreeLoop]
      split
      · exact Or.inl hStore
      · by_cases hNext : i + 1 < j
        · rw [← hStore]
          exact ih (i + 1) (t.store i heapBlockTableEntryFree) hNext
        · right
          rcases heapFreeLoop_clears n (i + 1) (j - 1) (t.store i heapBlockTableEntryFree) with
            hSame | ⟨hFrom, _⟩
          · rw [hSame, show j - 1 = i by omega]
            exact t.store_entries_self i _
          · omega

/-- Releasing what no chain leads into cuts no chain. -/
theorem Chained.free (h : Chained heap) (hHeap : KernelHeap heap) (hq : Unchained heap q) :
    Chained (heapFree heap q) := by
  intro j hLow hHigh hNext
  rw [(heapFree_shape heap q).2] at hHigh
  have hNotClear : (heapFree heap q).table.entries j ≠ heapBlockTableEntryFree := fun hClear => by
    rw [hClear] at hNext
    exact absurd hNext (by decide)
  have hSame := (heapFree_clears hHeap q j).resolve_right fun hCleared => hNotClear hCleared.2
  rw [hSame] at hNext
  have hKept : (heapFree heap q).table.entries (j + 1) = heap.table.entries (j + 1) := by
    rcases Int.lt_trichotomy (blockOf q) (j + 1) with hThrough | hFirst | hBefore
    · -- the entry in front of it is not clear, so the loop did not get there
      have hLoop := heapFreeLoop_through
        ((heap.table.total : Int) - heapAddressToBlock heap q).toNat (heapAddressToBlock heap q)
        (j + 1) heap.table (by rw [hHeap.block]; exact hThrough)
      refine hLoop.resolve_right fun hClear => hNotClear ?_
      rw [show j + 1 - 1 = j by omega] at hClear
      exact hClear
    · rcases hq with hNull | hFront
      · omega
      · rw [hFirst, show j + 1 - 1 = j by omega, hNext] at hFront
        cases hFront
    · rcases heapFree_clears hHeap q (j + 1) with hKept | ⟨hFrom, _⟩
      · exact hKept
      · omega
  rw [hKept]
  exact h j hLow hHigh hNext

end Release

/-! ### Memory that is requested -/

/-- The end of the heap. -/
def liebeOsHeapEnd : Nat := liebeOsHeapAddress + liebeOsHeapSizeBytes

/-- A request of the kernel for itself or for a program. `heap_malloc` may hand
out blocks behind the end of the heap; filling those is not survived. -/
def kzallocWithin (k : KernelMemory) (size : Nat) : Attempt (Nat × KernelMemory) :=
  let (ptr, k) := kzalloc k size
  if ptr ≠ 0 ∧ liebeOsHeapEnd < ptr + size then .undefined else .returned (ptr, k)

/-- `kzalloc` does not fill memory behind the end of the heap. -/
def RequestInside (k : KernelMemory) (size : Nat) : Prop :=
  ¬ ((kzalloc k size).1 ≠ 0 ∧ liebeOsHeapEnd < (kzalloc k size).1 + size)

/-- The request has taken blocks that were free. They are clear, and nothing
else has changed. -/
structure Granted (k : KernelMemory) (size ptr : Nat) (k' : KernelMemory) : Prop where
  address : (ptr : Int) = 16777216 + blockOf ptr * 4096
  free : FreeRun k.heap.table.entries (blockOf ptr) (blocksOf size)
  heap : KernelHeap k'.heap
  allotted : Allotted k'.heap (blockOf ptr) (blocksOf size)
  clear : ∀ i < size, k'.mem (ptr + i) = 0
  outside : ∀ x < 4294967296, x < ptr ∨ ptr + size ≤ x → k'.mem x = k.mem x

section Within

variable {k k' : KernelMemory} {size ptr : Nat} {b : Int} {n : Nat}

/-- A request is refused, or it was for no bytes at all, or it is granted. -/
theorem kzallocWithin_cases (hHeap : KernelHeap k.heap) (hChained : Chained k.heap)
    (hSize : size < 4294967296) :
    (kzallocWithin k size).Ensures fun r =>
      (r.1 = 0 ∧ r.2 = k) ∨ (size = 0 ∧ r.2 = k) ∨ (1 ≤ size ∧ r.1 ≠ 0 ∧ Granted k size r.1 r.2) := by
  rw [kzallocWithin]
  rcases heapMalloc_granted k.heap size with hNone | ⟨b, count, hb, hbFree, hRun, hGrant, hCount⟩
  · have hRefused : kzalloc k size = (0, k) := by
      simp only [kzalloc, kmalloc, hNone]
      rfl
    rw [hRefused]
    exact Attempt.ensures_returned (Or.inl ⟨rfl, rfl⟩)
  · have hAddress := hHeap.address hb
    have hBlock := hHeap.blockOf_address hb
    have hTotal := hHeap.total_eq
    obtain ⟨hLow, hHigh⟩ := hb
    have hNull : heapBlockToAddress k.heap b ≠ 0 := by omega
    have hMemory : kzalloc k size = (heapBlockToAddress k.heap b,
        ⟨heapMarkBlocksTaken k.heap b count,
          storeRange k.mem (heapBlockToAddress k.heap b) size fun _ => 0⟩) := by
      simp only [kzalloc, kmalloc, hGrant]
      exact if_neg hNull
    rw [hMemory]
    dsimp only
    split_ifs with hEnd
    · exact Attempt.ensures_undefined
    · have hInside : heapBlockToAddress k.heap b + size ≤ 0x07400000 :=
        Nat.le_of_not_lt fun hOver => hEnd ⟨hNull, hOver⟩
      rw [heapAlignValueToUpper_blocks hSize] at hCount
      by_cases hSome : 1 ≤ size
      · rw [if_pos (by omega)] at hCount
        subst hCount
        have hRoom : b + blocksOf size ≤ 25600 := by
          unfold blocksOf
          omega
        have hMarked := heapMarkBlocksTaken_markedRun k.heap b (blocksOf_pos size)
        refine Attempt.ensures_returned (Or.inr (Or.inr ⟨hSome, hNull, ?_⟩))
        refine ⟨by rw [hBlock]; omega, ?_, ?_, ?_, fun i hi => ?_, fun x hx hOut => ?_⟩
        · rw [hBlock]
          exact fun j hFrom hTo => hRun j hFrom hTo (by omega)
        · have hHeap' := hHeap.malloc size
          rw [hGrant] at hHeap'
          exact hHeap'
        · rw [hBlock]
          refine ⟨⟨hLow, ?_⟩, hMarked, ?_⟩
          · rw [heapMarkBlocksTaken_total, hTotal]
            exact hRoom
          · dsimp only
            rw [heapMarkBlocksTaken_entries_outside k.heap (by omega)]
            exact hChained.front ⟨hLow, hHigh⟩ hbFree
        · have hByte := @storeRange_at k.mem (heapBlockToAddress k.heap b) size i (fun _ => 0) hi
            (by omega)
          rw [behind_of_lt (by omega)] at hByte
          exact hByte
        · dsimp only
          apply storeRange_outside
          unfold offsetFrom toWord
          omega
      · obtain rfl : size = 0 := by omega
        rw [if_neg (by omega)] at hCount
        subst hCount
        exact Attempt.ensures_returned (Or.inr (Or.inl ⟨rfl, rfl⟩))

/-- The blocks of a request that is not refused: they were free, and nothing in front
of them or behind the bytes asked for has been written. -/
structure NewBlocks (k : KernelMemory) (size ptr : Nat) (k' : KernelMemory) : Prop where
  aligned : ptr % 4096 = 0
  inside : 0x01000000 ≤ ptr ∧ ptr + 4096 * blocksOf size ≤ 0x07400000
  fresh : ∀ x, ptr ≤ x → x < ptr + 4096 * blocksOf size → ¬ Held k.heap (x / 4096 * 4096)
  heap : k'.heap = (heapMalloc k.heap size).2 ∧ ptr = (heapMalloc k.heap size).1
  words : ∀ x < 4294967296, x < ptr ∨ ptr + size ≤ x → k'.mem x = k.mem x

/-- A request for no bytes is given a free block too, which stays free. -/
theorem kzalloc_newBlocks (hHeap : KernelHeap k.heap) (hInside : RequestInside k size) :
    kzalloc k size = (0, k) ∨ NewBlocks k size (kzalloc k size).1 (kzalloc k size).2 := by
  rcases heapMalloc_granted k.heap size with hNone | ⟨b, count, hb, hbFree, hRun, hGrant, hCount⟩
  · left
    simp only [kzalloc, kmalloc, hNone]
    rfl
  right
  obtain ⟨hPage, hLow, hHigh⟩ := hHeap.address_page hb
  have hAddress := hHeap.address hb
  have hTotal := hHeap.total_eq
  have hMemory : kzalloc k size = (heapBlockToAddress k.heap b,
      ⟨heapMarkBlocksTaken k.heap b count,
        storeRange k.mem (heapBlockToAddress k.heap b) size fun _ => 0⟩) := by
    simp only [kzalloc, kmalloc, hGrant]
    exact if_neg (by omega)
  rw [RequestInside, hMemory] at hInside
  rw [hMemory]
  dsimp only at hInside ⊢
  have hEnd : heapBlockToAddress k.heap b + size ≤ 0x07400000 :=
    Nat.le_of_not_lt fun hOver => hInside ⟨by omega, hOver⟩
  rw [heapAlignValueToUpper_blocks (by omega)] at hCount
  have hRoom : heapBlockToAddress k.heap b + 4096 * blocksOf size ≤ 0x07400000 := by
    unfold blocksOf
    omega
  refine ⟨hPage, ⟨hLow, hRoom⟩, fun x hFrom hTo hHeld => ?_, ?_, fun x hx hOut => ?_⟩
  · obtain ⟨c, hc, hPlace, hTaken⟩ := hHeld
    have hOther := hHeap.address hc
    have hFree : entryTaken (k.heap.table.entries c) = false := by
      by_cases hSame : c = b
      · rwa [hSame]
      · refine hRun c (by omega) ?_ hc.2
        unfold blocksOf at hTo hCount
        split_ifs at hCount
        · omega
        · omega
    rw [hFree] at hTaken
    cases hTaken
  · rw [hGrant]
    exact ⟨rfl, rfl⟩
  · dsimp only
    apply storeRange_outside
    unfold offsetFrom toWord
    omega

end Within

end LiebeOS
