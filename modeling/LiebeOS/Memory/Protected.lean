import LiebeOS.Memory.KernelMemory

/-! Blocks that nobody gives back. An allocation stays in use as long as
`heap_free` is never called for its first block: no request takes a block that
is in use, and no chain of blocks leads into it from the outside. -/
namespace LiebeOS

open MachineInt Transition

/-- Block `r` is in use, and the block in front of it does not continue in it. -/
structure Protected (heap : Heap) (r : Int) : Prop where
  inside : InHeap heap r
  taken : entryTaken (heap.table.entries r) = true
  start : entryHasNext (heap.table.entries (r - 1)) = false

/-- Chains of blocks only lead to blocks in use, from the byte in front of the
table on. -/
def Chained (heap : Heap) : Prop :=
  ∀ j : Int, -1 ≤ j → j + 1 < heap.table.total → entryHasNext (heap.table.entries j) = true →
    entryTaken (heap.table.entries (j + 1)) = true

/-! ### Requests -/

section Request

variable {heap : Heap} {r : Int}

/-- A request is refused, or it starts at a free block. As far as it lies inside
the table it takes free blocks only. -/
theorem heapMalloc_granted (heap : Heap) (size : Nat) :
    heapMalloc heap size = (0, heap) ∨
      ∃ (b : Int) (count : Nat), InHeap heap b ∧ entryTaken (heap.table.entries b) = false ∧
        (∀ j, b ≤ j → j < b + count → j < heap.table.total →
          entryTaken (heap.table.entries j) = false) ∧
        heapMalloc heap size = (heapBlockToAddress heap b, heapMarkBlocksTaken heap b count) ∧
        heapAlignValueToUpper size / liebeOsHeapBlockSize = count := by
  generalize hCount : heapAlignValueToUpper size / liebeOsHeapBlockSize = count
  have hScan := @heapScan_cases heap.table.entries count heap.table.total 0 0 (-1)
    (Int.le_refl 0) (Or.inl ⟨rfl, rfl⟩)
  generalize hr : heapScan heap.table.entries count heap.table.total 0 0 (-1) = r at hScan
  have hNone : r = -1 → heapMalloc heap size = (0, heap) := fun hNone => by
    simp only [heapMalloc, heapMallocBlocks, heapGetStartBlock, hCount, hr, hNone]
    rfl
  have hSome : 0 ≤ r →
      heapMalloc heap size = (heapBlockToAddress heap r, heapMarkBlocksTaken heap r count) :=
    fun hPositive => by
      simp only [heapMalloc, heapMallocBlocks, heapGetStartBlock, hCount, hr]
      rw [if_neg (show ¬ r = -1 by omega), if_neg (by omega)]
  rcases hScan with hRefused | ⟨hPositive, hOne, hEnd, hRun⟩ | ⟨hPositive, hEnd, hRun⟩
  · exact Or.inl (hNone hRefused)
  · refine Or.inr ⟨r, count, ⟨hPositive, by omega⟩, hRun r (Int.le_refl r) (by omega), ?_,
      hSome hPositive, rfl⟩
    exact fun j hLow hHigh _ => hRun j hLow hHigh
  · refine Or.inr ⟨r, count, ⟨hPositive, by omega⟩, hRun r (Int.le_refl r) (by omega), ?_,
      hSome hPositive, rfl⟩
    exact fun j hLow _ hInside => hRun j hLow (by omega)

/-- The null pointer stands for a block far in front of the table. -/
theorem KernelHeap.null (h : KernelHeap heap) : heapAddressToBlock heap 0 = -4096 := by
  rw [heapAddressToBlock, h.saddr]
  rfl

theorem Protected.malloc (h : Protected heap r) (size : Nat) :
    Protected (heapMalloc heap size).2 r := by
  rcases heapMalloc_granted heap size with hNone | ⟨b, count, hb, _, hFree, hGrant, _⟩
  · rw [hNone]
    exact h
  · obtain ⟨hLow, hHigh⟩ := h.inside
    have hTaken := h.taken
    have hOutside : r < b ∨ b + count ≤ r := by
      by_contra hIn
      rw [hFree r (by omega) (by omega) hHigh] at hTaken
      cases hTaken
    rw [hGrant]
    refine ⟨⟨hLow, by rw [heapMarkBlocksTaken_total]; exact hHigh⟩, ?_, ?_⟩
    · rw [heapMarkBlocksTaken_entries_outside heap hOutside]
      exact hTaken
    · by_cases hLast : b ≤ r - 1 ∧ r - 1 < b + count
      · have hMarked := (heapMarkBlocksTaken_markedRun heap b (k := count) (by omega)).2 (r - 1)
          hLast.1 hLast.2
        by_contra hNext
        have hInside := hMarked.2.mp (by simpa using hNext)
        omega
      · rw [heapMarkBlocksTaken_entries_outside heap (by omega)]
        exact h.start

/-- What a request returns is not a block that is in use already. -/
theorem Protected.malloc_apart (hHeap : KernelHeap heap) (h : Protected heap r) (size : Nat) :
    heapAddressToBlock heap (heapMalloc heap size).1 ≠ r := by
  obtain ⟨hLow, hHigh⟩ := h.inside
  rcases heapMalloc_granted heap size with hNone | ⟨b, count, hb, hbFree, _, hGrant, _⟩
  · rw [hNone, hHeap.null]
    omega
  · have hTotal := hHeap.total_eq
    rw [hGrant, heapAddressToBlock_heapBlockToAddress heap hb.1 hb.2 (by omega)]
    rintro rfl
    rw [h.taken] at hbFree
    cases hbFree

end Request

/-! ### Releases -/

section Release

variable {heap : Heap} {r : Int}

/-- The loop clears entries, from its first one on. -/
theorem heapFreeLoop_clears (n : Nat) (i j : Int) (t : HeapTable) :
    (heapFreeLoop n i t).entries j = t.entries j ∨
      (i ≤ j ∧ (heapFreeLoop n i t).entries j = heapBlockTableEntryFree) := by
  induction n generalizing i t with
  | zero => exact Or.inl rfl
  | succ n ih =>
      have hStore : (t.store i heapBlockTableEntryFree).entries j = t.entries j ∨
          (i ≤ j ∧ (t.store i heapBlockTableEntryFree).entries j = heapBlockTableEntryFree) := by
        by_cases hj : j = i
        · rw [hj]
          exact Or.inr ⟨Int.le_refl i, t.store_entries_self i _⟩
        · exact Or.inl (t.store_entries_of_ne _ hj)
      rw [heapFreeLoop]
      split
      · exact hStore
      · rcases ih (i + 1) (t.store i heapBlockTableEntryFree) with hSame | ⟨hLow, hClear⟩
        · rw [hSame]
          exact hStore
        · exact Or.inr ⟨by omega, hClear⟩

theorem heapFree_shape (heap : Heap) (ptr : Nat) :
    (heapFree heap ptr).saddr = heap.saddr ∧
      (heapFree heap ptr).table.total = heap.table.total :=
  ⟨rfl, heapFreeLoop_total ..⟩

theorem KernelHeap.free (h : KernelHeap heap) (ptr : Nat) : KernelHeap (heapFree heap ptr) := by
  obtain ⟨hSaddr, hTotal⟩ := heapFree_shape heap ptr
  exact ⟨hSaddr.trans h.saddr, hTotal.trans h.total⟩

theorem Protected.free (h : Protected heap r) {ptr : Nat}
    (hApart : heapAddressToBlock heap ptr ≠ r) : Protected (heapFree heap ptr) r := by
  have hClears := heapFreeLoop_clears
    ((heap.table.total : Int) - heapAddressToBlock heap ptr).toNat (heapAddressToBlock heap ptr)
    (r - 1) heap.table
  have hSame : (heapFree heap ptr).table.entries r = heap.table.entries r := by
    by_cases hBefore : heapAddressToBlock heap ptr < r
    · have hBeforeStop : heapAddressToBlock heap ptr ≤ r - 1 := by omega
      exact (heapFreeLoop_stops _ _ heap.table hBeforeStop h.start).1 r (Or.inr (by omega))
    · rcases heapFreeLoop_clears
        ((heap.table.total : Int) - heapAddressToBlock heap ptr).toNat (heapAddressToBlock heap ptr)
        r heap.table with hSame | ⟨hLow, _⟩
      · exact hSame
      · omega
  refine ⟨?_, ?_, ?_⟩
  · rw [InHeap, (heapFree_shape heap ptr).2]
    exact h.inside
  · rw [hSame]
    exact h.taken
  · change entryHasNext ((heapFreeLoop _ _ heap.table).entries (r - 1)) = false
    rcases hClears with hKept | ⟨_, hClear⟩
    · rw [hKept]
      exact h.start
    · rw [hClear]
      decide

end Release

/-! ### Every heap that is used as it should be -/

/-- Each entry that is not free belongs to a live allocation, and the byte in
front of the table does not continue into it. -/
structure Accounted (n : Nat) (s : HeapRun) : Prop where
  inv : HeapInv n s
  kernel : KernelHeap s.heap
  owned : ∀ j : Int, 0 ≤ j → j < n → s.heap.table.entries j ≠ heapBlockTableEntryFree →
    ∃ a ∈ s.live, a.block s.heap ≤ j ∧ j < a.block s.heap + blocksOf a.size
  front : entryHasNext (s.heap.table.entries (-1)) = false

theorem Accounted.chained {n : Nat} {s : HeapRun} (h : Accounted n s) : Chained s.heap := by
  intro j hLow hHigh hNext
  rw [h.inv.total] at hHigh
  have hInside : 0 ≤ j := by
    by_contra hFront
    obtain rfl : j = -1 := by omega
    rw [h.front] at hNext
    cases hNext
  have hUsed : s.heap.table.entries j ≠ heapBlockTableEntryFree := fun hFree => by
    rw [hFree] at hNext
    exact absurd hNext (by decide)
  obtain ⟨a, ha, hFrom, hTo⟩ := h.owned j hInside (by omega) hUsed
  have hLast := ((h.inv.marked a ha).2 j hFrom hTo).2.mp hNext
  exact ((h.inv.marked a ha).2 (j + 1) (by omega) (by omega)).1

theorem Accounted.malloc {n : Nat} {s : HeapRun} {size : Nat} (h : Accounted n s)
    (hn : n * 4096 < 2147483648) (hSize : size < 4294967296)
    (hFits : RequestFits s.heap.table size) :
    Accounted n
      { heap := (heapMalloc s.heap size).2
        live := if (heapMalloc s.heap size).1 = 0 then s.live
          else ⟨(heapMalloc s.heap size).1, size⟩ :: s.live } := by
  refine ⟨h.inv.malloc hn hSize hFits, h.kernel.malloc size, ?_, ?_⟩
  · rcases heapMalloc_of_fits hSize hFits with hNone | ⟨b, hb, hEnd, hFree, hGrant⟩
    · rw [hNone]
      exact h.owned
    · have hRoom := blocksOf_pos size
      have hTotal := h.inv.total
      have hBlock : heapAddressToBlock s.heap (heapBlockToAddress s.heap b) = b :=
        heapAddressToBlock_heapBlockToAddress s.heap hb (show b < (n : Int) by omega) hn
      have hNull : heapBlockToAddress s.heap b ≠ 0 := by
        have hPage := h.kernel.address_page (b := b) ⟨hb, by omega⟩
        omega
      rw [hGrant]
      dsimp only
      rw [if_neg hNull]
      intro j hLow hHigh hUsed
      by_cases hIn : b ≤ j ∧ j < b + blocksOf size
      · refine ⟨_, List.mem_cons_self, ?_⟩
        change heapAddressToBlock s.heap _ ≤ j ∧ j < heapAddressToBlock s.heap _ + _
        rw [hBlock]
        exact hIn
      · rw [heapMarkBlocksTaken_entries_outside s.heap (by omega)] at hUsed
        obtain ⟨a, ha, hRange⟩ := h.owned j hLow hHigh hUsed
        exact ⟨a, List.mem_cons_of_mem _ ha, hRange⟩
  · rcases heapMalloc_of_fits hSize hFits with hNone | ⟨b, hb, hEnd, hFree, hGrant⟩
    · rw [hNone]
      exact h.front
    · rw [hGrant]
      dsimp only
      rw [heapMarkBlocksTaken_entries_outside s.heap (by omega)]
      exact h.front

/-- Releasing clears entries or leaves them, so nothing new is in use. -/
theorem Accounted.free_front {n : Nat} {s : HeapRun} (h : Accounted n s) (ptr : Nat) :
    entryHasNext ((heapFree s.heap ptr).table.entries (-1)) = false := by
  rcases heapFreeLoop_clears
    ((s.heap.table.total : Int) - heapAddressToBlock s.heap ptr).toNat
    (heapAddressToBlock s.heap ptr) (-1) s.heap.table with hSame | ⟨_, hClear⟩
  · exact (congrArg entryHasNext hSame).trans h.front
  · exact (congrArg entryHasNext hClear).trans (by decide)

theorem Accounted.free {n k : Nat} {s : HeapRun} {a : Allocation} (h : Accounted n s)
    (hLive : s.live[k]? = some a) :
    Accounted n { heap := heapFree s.heap a.ptr, live := s.live.eraseIdx k } := by
  have ha := List.mem_of_getElem? hLive
  have hInside := h.inv.inside a ha
  obtain ⟨hCleared, hSame, _⟩ := heapFree_marked
    (by rw [h.inv.total]; exact hInside.2) (h.inv.marked a ha)
  refine ⟨h.inv.free hLive, h.kernel.free a.ptr, ?_, h.free_front a.ptr⟩
  intro j hLow hHigh hUsed
  have hOut : j < a.block s.heap ∨ a.block s.heap + blocksOf a.size ≤ j := by
    by_contra hIn
    exact hUsed (hCleared j (show a.block s.heap ≤ j by omega)
      (show j < a.block s.heap + blocksOf a.size by omega))
  have hBefore : s.heap.table.entries j ≠ heapBlockTableEntryFree := by
    rw [← hSame j hOut]
    exact hUsed
  obtain ⟨a', ha', hRange⟩ := h.owned j hLow hHigh hBefore
  obtain ⟨i, hi⟩ := List.getElem?_of_mem ha'
  refine ⟨a', List.mem_eraseIdx_iff_getElem?.mpr ⟨i, fun hik => ?_, hi⟩, hRange⟩
  rw [hik, hLive] at hi
  cases hi
  omega

theorem Accounted.freeNull {n : Nat} {s : HeapRun} (h : Accounted n s)
    (hMisses : NullFreeMisses s.heap) :
    Accounted n { heap := heapFree s.heap 0, live := s.live } := by
  refine ⟨h.inv.freeNull hMisses, h.kernel.free 0, ?_, h.free_front 0⟩
  intro j hLow hHigh hUsed
  refine h.owned j hLow hHigh fun hFree => hUsed ?_
  rcases heapFreeLoop_clears
    ((s.heap.table.total : Int) - heapAddressToBlock s.heap 0).toNat
    (heapAddressToBlock s.heap 0) j s.heap.table with hSame | ⟨_, hClear⟩
  · exact hSame.trans hFree
  · exact hClear

theorem Accounted.step {n : Nat} {s t : HeapRun} {e : HeapEvent} (h : Accounted n s)
    (hn : n * 4096 < 2147483648) (hStep : Guarded HeapStep EventFits s e t) : Accounted n t := by
  obtain ⟨hFits, hStep⟩ := hStep
  cases hStep with
  | malloc size hSize => exact h.malloc hn hSize hFits
  | free k a hLive => exact h.free hLive
  | freeNull => exact h.freeNull hFits

theorem heapTableFill_entries (e : UInt8) (n : Nat) (i j : Int) (t : HeapTable) :
    (heapTableFill e n i t).entries j = if i ≤ j ∧ j < i + n then e else t.entries j := by
  induction n generalizing i t with
  | zero => exact (if_neg (by omega)).symm
  | succ n ih =>
      rw [heapTableFill, ih]
      by_cases hj : j = i
      · subst hj
        rw [if_neg (by omega), if_pos (by omega)]
        exact t.store_entries_self j e
      · rw [t.store_entries_of_ne e hj]
        by_cases hIn : i + 1 ≤ j ∧ j < i + 1 + n
        · rw [if_pos hIn, if_pos (by omega)]
        · rw [if_neg hIn, if_neg (by omega)]

theorem heapStart_entries {heap : Heap} {ptr finish n : Nat} {entries : Int → UInt8}
    (hCreate : (heapCreate heap ptr finish ⟨entries, n, []⟩).1 = 0) (j : Int) :
    (heapStart heap ptr finish n entries).heap.table.entries j =
      if 0 ≤ j ∧ j < 0 + n then heapBlockTableEntryFree else entries j := by
  rw [heapStart, heapCreate_ok hCreate]
  exact heapTableFill_entries _ _ _ _ _

/-- From the heap of `kheap_init` on, chains lead to blocks in use as long as
every request fits. The byte in front of the table ends the boot sector. -/
theorem heapRun_chained {heap : Heap} {finish : Nat} {entries : Int → UInt8} {s : HeapRun}
    {events : List HeapEvent}
    (hCreate : (heapCreate heap liebeOsHeapAddress finish ⟨entries, 25600, []⟩).1 = 0)
    (hFront : entries (-1) = 0xAA)
    (run : Run (Guarded HeapStep EventFits) (heapStart heap liebeOsHeapAddress finish 25600 entries)
      events s) :
    KernelHeap s.heap ∧ Chained s.heap := by
  have hKernel : KernelHeap (heapStart heap liebeOsHeapAddress finish 25600 entries).heap := by
    rw [heapStart, heapCreate_ok hCreate]
    exact ⟨rfl, heapTableFill_total _ _ _ _⟩
  have hStart : Accounted 25600 (heapStart heap liebeOsHeapAddress finish 25600 entries) := by
    refine ⟨heapStart_inv hCreate, hKernel, fun j hLow hHigh hUsed => absurd ?_ hUsed, ?_⟩
    · rw [heapStart_entries hCreate, if_pos (by omega)]
    · rw [heapStart_entries hCreate, if_neg (by omega), hFront]
      decide
  have hAccounted : Accounted 25600 s :=
    run.invariant hStart fun _ _ _ hs hStep => hs.step (by decide) hStep
  exact ⟨hAccounted.kernel, hAccounted.chained⟩

end LiebeOS
