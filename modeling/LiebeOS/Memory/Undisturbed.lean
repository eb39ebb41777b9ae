import LiebeOS.Memory.PageDirectory

/-! What the building of a page directory does to the allocations that are already
there. The requests are not checked: a refused one leaves null pages behind, which are
written to all the same, but they belong to no allocation. -/
namespace LiebeOS

open MachineInt Bytes

/-- A page that no allocation is in. -/
structure Spare (heap : Heap) (p : Nat) : Prop where
  aligned : p % 4096 = 0
  lt : p < 4294967296
  free : ¬ Held heap p

/-- From `start` to `k` blocks have been taken and pages have been written, and the
allocations in `live` have been left alone. -/
structure Undisturbed (live : List Allocation) (start k : KernelMemory) : Prop where
  kernel : KernelHeap k.heap
  clear : FreeClear k.heap
  safe : HeapInv 25600 ⟨k.heap, live⟩
  keeps : ∀ q, Held start.heap q → Held k.heap q
  words : ∀ x < 4294967296, Held start.heap (x / 4096 * 4096) → k.mem x = start.mem x

section Requests

variable {heap : Heap} {live live' : List Allocation} {start k : KernelMemory} {size p : Nat}

theorem spare_null (hHeap : KernelHeap heap) : Spare heap 0 where
  aligned := rfl
  lt := by decide
  free hHeld := by
    have hPage := hHeld.page hHeap
    omega

/-- Allocations may be forgotten. -/
theorem HeapInv.sublist {n : Nat} (h : HeapInv n ⟨heap, live⟩) (hSub : live'.Sublist live) :
    HeapInv n ⟨heap, live'⟩ where
  total := h.total
  address a ha := h.address a (hSub.subset ha)
  inside a ha := h.inside a (hSub.subset ha)
  marked a ha := h.marked a (hSub.subset ha)
  disjoint := h.disjoint.sublist hSub
  confined := h.confined

/-- A request of one block always fits. -/
theorem requestFits_one (heap : Heap) (hSize : 1 ≤ size) (hPage : size ≤ 4096) :
    RequestFits heap.table size := by
  have hBlocks : blocksOf size = 1 := by
    unfold blocksOf
    omega
  by_cases hFree : HasFree heap
  · obtain ⟨b, ⟨hLow, hHigh⟩, hEntry⟩ := hFree
    refine Or.inr (Or.inr ⟨hSize, by omega, b, hLow, by omega, fun j hFrom hTo => ?_⟩)
    rwa [show j = b by omega]
  · by_cases hEmpty : heap.table.total = 0
    · exact Or.inl hEmpty
    · refine Or.inr (Or.inl ?_)
      by_contra hLast
      refine hFree ⟨heap.table.total - 1, ⟨by omega, by omega⟩, ?_⟩
      simpa using hLast

theorem Undisturbed.kzalloc (h : Undisturbed live start k) (hStart : KernelHeap start.heap)
    (hSize : 1 ≤ size) (hPage : size ≤ 4096) :
    Undisturbed live start (kzalloc k size).2 ∧ Spare start.heap (kzalloc k size).1 := by
  have hHeap := kzalloc_heap k size
  have hSafe := h.safe.malloc (by decide) (show size < 4294967296 by omega)
    (requestFits_one k.heap hSize hPage)
  have hClear := h.clear.malloc size
  rw [← hHeap] at hSafe hClear
  rcases kzalloc_page k size h.kernel hSize hPage with ⟨_, hNone⟩ | ⟨p, k', hGrant, _, hPage⟩
  · rw [hNone]
    exact ⟨h, spare_null hStart⟩
  · obtain ⟨hAligned, _, hHigh⟩ := hPage.held.page hPage.heap
    rw [hGrant] at hSafe hClear ⊢
    refine ⟨⟨hPage.heap, hClear, hSafe.sublist ?_, fun q hq => hPage.keeps q (h.keeps q hq),
      fun x hx hHeld => ?_⟩, hAligned, by omega, fun hOld => hPage.fresh (h.keeps p hOld)⟩
    · split
      · exact List.Sublist.refl live
      · exact List.sublist_cons_self _ live
    · rw [← h.words x hx hHeld]
      exact hPage.grows.held hx (h.keeps _ hHeld)

theorem Undisturbed.write {mem mem' : Memory} (h : Undisturbed live start ⟨heap, mem⟩)
    (hSpare : Spare start.heap p) (hOnly : PageOnly p mem mem') :
    Undisturbed live start ⟨heap, mem'⟩ :=
  { h with
    words := fun x hx hHeld =>
      (hOnly x hx fun hPage => hSpare.free (hPage ▸ hHeld)).trans (h.words x hx hHeld) }

end Requests

section Directory

variable {live : List Allocation} {start k : KernelMemory} {directory flags : Nat}

/-- Each round writes to the new page and to the directory. -/
theorem Undisturbed.pageDirectoryLoop (hStart : KernelHeap start.heap)
    (hDirectory : Spare start.heap directory) (hFlags : flags < 4096) (left i offset : Nat)
    (hRoom : i + left ≤ 1024) (hOffset : offset % 4096 = 0) (h : Undisturbed live start k) :
    Undisturbed live start (pageDirectoryLoop directory flags left i offset k) := by
  induction left generalizing i offset k with
  | zero => exact h
  | succ left ih =>
      obtain ⟨hNext, hTable⟩ := h.kzalloc hStart (show 1 ≤ 4 * tableEntriesCount by decide)
        (show 4 * tableEntriesCount ≤ 4096 by decide)
      rw [LiebeOS.pageDirectoryLoop]
      generalize LiebeOS.kzalloc k (4 * tableEntriesCount) = r at hNext hTable ⊢
      obtain ⟨table, k'⟩ := r
      have hOnly := (pageTableLoop_words hTable.aligned hTable.lt hOffset hFlags tableEntriesCount 0
        (by decide) k'.mem).1
      have hEntry : PageOnly directory (pageTableLoop table offset flags tableEntriesCount 0 k'.mem)
          (pageDirectoryEntry directory flags i offset table k'.mem) :=
        storeWord_pageOnly _ _ hDirectory.aligned hDirectory.lt (show i < 1024 by omega)
      have hAligned : behind offset (tableEntriesCount * pageSize) % 4096 = 0 := by
        unfold behind tableEntriesCount pageSize
        omega
      exact ih (i + 1) _ (by omega) hAligned ((hNext.write hTable hOnly).write hDirectory hEntry)

/-- Granted or not, a new directory leaves the allocations and what is in them alone. -/
theorem createNewPageDirectory_undisturbed (hKernel : KernelHeap start.heap)
    (hClear : FreeClear start.heap) (hSafe : HeapInv 25600 ⟨start.heap, live⟩)
    (hFlags : flags < 4096) :
    Undisturbed live start (createNewPageDirectory start flags).2 := by
  have hSame : Undisturbed live start start :=
    ⟨hKernel, hClear, hSafe, fun _ hq => hq, fun _ _ _ => rfl⟩
  obtain ⟨hFirst, hDirectory⟩ := hSame.kzalloc hKernel (show 1 ≤ 4 * tableEntriesCount by decide)
    (show 4 * tableEntriesCount ≤ 4096 by decide)
  rw [createNewPageDirectory]
  generalize LiebeOS.kzalloc start (4 * tableEntriesCount) = r at hFirst hDirectory ⊢
  obtain ⟨directory, k₁⟩ := r
  have hLoop := hFirst.pageDirectoryLoop hKernel hDirectory hFlags tableEntriesCount 0 0 (by decide)
    rfl
  dsimp only
  obtain ⟨hLast, hChunk⟩ := hLoop.kzalloc hKernel (show 1 ≤ 4 by decide) (show 4 ≤ 4096 by decide)
  generalize LiebeOS.kzalloc _ 4 = r at hLast hChunk ⊢
  obtain ⟨chunk, k₃⟩ := r
  exact hLast.write hChunk
    (@storeWord_pageOnly chunk 0 k₃.mem directory hChunk.aligned hChunk.lt (by decide))

end Directory

section Takes

variable {start heap : Heap} {pages : List Nat} {live : List Allocation} {p : Nat}

/-- A page that has been taken is a block that was free. -/
theorem Takes.page (h : Takes start heap pages) (hp : p ∈ pages) :
    InHeap start (heapAddressToBlock start p) ∧
      heapAddressToBlock heap p = heapAddressToBlock start p ∧
      p = heapBlockToAddress heap (heapAddressToBlock start p) ∧
      FreeRun start.table.entries (heapAddressToBlock start p) 1 ∧
      MarkedRun heap.table.entries (heapAddressToBlock start p) 1 := by
  obtain ⟨hStart, hHeap⟩ := h.kernel
  obtain ⟨b, hb, hAddress, hFree⟩ := h.fresh p hp
  have hBlock : heapAddressToBlock start p = b := by rw [hAddress, hStart.block_of_address hb]
  have hEntry : heap.table.entries b = onePageEntry := by
    rw [h.entries b]
    exact if_pos (hBlock ▸ List.mem_map_of_mem hp)
  rw [hBlock]
  refine ⟨hb, ?_, ?_, fun j hLow hHigh => ?_, Nat.le_refl 1, fun j hLow hHigh => ?_⟩
  · rw [← hBlock, heapAddressToBlock, heapAddressToBlock, hHeap.saddr, hStart.saddr]
  · rw [hAddress, heapBlockToAddress, heapBlockToAddress, hHeap.saddr, hStart.saddr]
  · rwa [show j = b by omega]
  · rw [show j = b by omega, hEntry]
    exact ⟨rfl, fun hNext => absurd hNext (by decide), fun hLess => by omega⟩

/-- The pages that have been taken join the allocations. -/
theorem HeapInv.takes (hOld : HeapInv 25600 ⟨start, live⟩) (hNew : HeapInv 25600 ⟨heap, live⟩)
    (h : Takes start heap pages) :
    HeapInv 25600 ⟨heap, pages.map (fun p => ⟨p, 4096⟩) ++ live⟩ := by
  obtain ⟨hStart, hHeap⟩ := h.kernel
  have hSame : ∀ a : Allocation, a.block heap = a.block start := fun a => by
    rw [Allocation.block, Allocation.block, heapAddressToBlock, heapAddressToBlock, hHeap.saddr,
      hStart.saddr]
  have hBlock : ∀ p ∈ pages, (⟨p, 4096⟩ : Allocation).block heap = heapAddressToBlock start p :=
    fun p hp => (h.page hp).2.1
  have hMember : ∀ {P : Allocation → Prop}, (∀ p ∈ pages, P ⟨p, 4096⟩) → (∀ a ∈ live, P a) →
      ∀ a ∈ pages.map (fun p => (⟨p, 4096⟩ : Allocation)) ++ live, P a := by
    intro P hPages hLive a ha
    rcases List.mem_append.mp ha with hPage | hOther
    · obtain ⟨p, hp, rfl⟩ := List.mem_map.mp hPage
      exact hPages p hp
    · exact hLive a hOther
  refine
    { total := hNew.total
      address := hMember (fun p hp => ?_) hNew.address
      inside := hMember (fun p hp => ?_) hNew.inside
      marked := hMember (fun p hp => ?_) hNew.marked
      disjoint := List.pairwise_append.mpr ⟨List.pairwise_map.mpr ?_, hNew.disjoint, ?_⟩
      confined := hNew.confined }
  · dsimp only
    rw [hBlock p hp]
    exact (h.page hp).2.2.1
  · dsimp only
    obtain ⟨hLow, hHigh⟩ := (h.page hp).1
    have hTotal := hStart.total_eq
    rw [hBlock p hp, show blocksOf 4096 = 1 by decide]
    omega
  · dsimp only
    rw [hBlock p hp, show blocksOf 4096 = 1 by decide]
    exact (h.page hp).2.2.2.2
  · refine (List.pairwise_map.mp h.nodup).imp_of_mem fun {p q} hp hq hne => ?_
    rw [Allocation.Apart, hBlock p hp, hBlock q hq, show blocksOf 4096 = 1 by decide]
    unfold RangesApart
    omega
  · intro a ha a' ha'
    obtain ⟨p, hp, rfl⟩ := List.mem_map.mp ha
    rw [Allocation.Apart, hBlock p hp, hSame a']
    change RangesApart _ (blocksOf 4096) _ _
    rw [show blocksOf 4096 = 1 by decide]
    exact (h.page hp).2.2.2.1.apart (Nat.le_refl 1) (hOld.marked a' ha')

end Takes

end LiebeOS
