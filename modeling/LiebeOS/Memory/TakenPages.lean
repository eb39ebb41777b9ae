import Mathlib.Data.Finset.Card
import Mathlib.Data.List.Perm.Basic
import LiebeOS.Memory.Protected

/-! Pages that are taken from the heap one request at a time, and given back one
at a time in any order. -/
namespace LiebeOS

open Transition

/-- The entry of an allocation of one block. -/
def onePageEntry : UInt8 := heapBlockTableEntryTaken ||| heapBlockIsFirst

/-- The blocks that can still be handed out. -/
def freeBlocks (heap : Heap) : Finset Nat :=
  (Finset.range heap.table.total).filter fun b => entryTaken (heap.table.entries b) = false

/-- The entries of the blocks that can be handed out are clear. -/
def FreeClear (heap : Heap) : Prop :=
  ∀ b, InHeap heap b → entryTaken (heap.table.entries b) = false →
    heap.table.entries b = heapBlockTableEntryFree

/-- From `start` on the pages have been taken, and nothing else has happened to
the heap. -/
structure Takes (start heap : Heap) (pages : List Nat) : Prop where
  kernel : KernelHeap start ∧ KernelHeap heap
  fresh : ∀ p ∈ pages, ∃ b, InHeap start b ∧ p = heapBlockToAddress start b ∧
    entryTaken (start.table.entries b) = false
  entries : ∀ b, heap.table.entries b =
    if b ∈ pages.map (heapAddressToBlock start) then onePageEntry else start.table.entries b
  nodup : (pages.map (heapAddressToBlock start)).Nodup

/-! ### Free blocks -/

section Free

variable {heap : Heap} {size : Nat}

theorem hasFree_of_card (h : 0 < (freeBlocks heap).card) : HasFree heap := by
  obtain ⟨b, hb⟩ := Finset.card_pos.mp h
  obtain ⟨hIn, hFree⟩ := Finset.mem_filter.mp hb
  have hHigh := Finset.mem_range.mp hIn
  exact ⟨b, ⟨by omega, by omega⟩, hFree⟩

theorem FreeRun.card {b : Int} {n : Nat} (hb : 0 ≤ b) (hEnd : b + n ≤ heap.table.total)
    (h : FreeRun heap.table.entries b n) : n ≤ (freeBlocks heap).card := by
  have hSub : (Finset.range n).image (fun i => b.toNat + i) ⊆ freeBlocks heap := by
    intro c hc
    obtain ⟨i, hi, rfl⟩ := Finset.mem_image.mp hc
    have hLt := Finset.mem_range.mp hi
    exact Finset.mem_filter.mpr ⟨Finset.mem_range.mpr (by omega), h _ (by omega) (by omega)⟩
  have hCard := Finset.card_le_card hSub
  rwa [Finset.card_image_of_injective _ fun i j hSame => Nat.add_left_cancel hSame,
    Finset.card_range] at hCard

theorem heapMarkBlocksTaken_one (heap : Heap) (b j : Int) :
    (heapMarkBlocksTaken heap b 1).table.entries j =
      if j = b then onePageEntry else heap.table.entries j := by
  by_cases hj : j = b
  · rw [if_pos hj, hj]
    exact heap.table.store_entries_self b onePageEntry
  · rw [if_neg hj]
    exact heap.table.store_entries_of_ne onePageEntry hj

/-- One request takes one block. -/
theorem freeBlocks_malloc (hSize : 1 ≤ size) (hPage : size ≤ 4096) :
    (freeBlocks heap).card ≤ (freeBlocks (heapMalloc heap size).2).card + 1 := by
  rcases heapMalloc_one heap hSize hPage with ⟨_, hNone⟩ | ⟨b, hb, _, hGrant⟩
  · rw [hNone]
    exact Nat.le_succ _
  · rw [hGrant]
    refine le_trans (Finset.card_le_card fun c hc => ?_) (Finset.card_insert_le b.toNat _)
    obtain ⟨hIn, hFree⟩ := Finset.mem_filter.mp hc
    obtain ⟨hLow, _⟩ := hb
    by_cases hSame : (c : Int) = b
    · exact Finset.mem_insert.mpr (Or.inl (by omega))
    · refine Finset.mem_insert.mpr (Or.inr (Finset.mem_filter.mpr ⟨?_, ?_⟩))
      · rw [heapMarkBlocksTaken_total]
        exact hIn
      · rw [heapMarkBlocksTaken_one, if_neg hSame]
        exact hFree

end Free

/-! ### Every heap has clear free entries -/

section Clear

variable {heap : Heap}

theorem FreeClear.malloc (h : FreeClear heap) (size : Nat) :
    FreeClear (heapMalloc heap size).2 := by
  unfold heapMalloc heapMallocBlocks
  dsimp only
  split
  · exact h
  · generalize heapAlignValueToUpper size / liebeOsHeapBlockSize = count
    generalize heapGetStartBlock heap count = c
    intro b hb hFree
    rw [InHeap, heapMarkBlocksTaken_total] at hb
    by_cases hIn : c ≤ b ∧ b < c + count
    · have hTaken := ((heapMarkBlocksTaken_markedRun heap c (k := count) (by omega)).2 b hIn.1
        hIn.2).1
      rw [hFree] at hTaken
      cases hTaken
    · rw [heapMarkBlocksTaken_entries_outside heap (by omega)] at hFree ⊢
      exact h b hb hFree

theorem FreeClear.free (h : FreeClear heap) (ptr : Nat) : FreeClear (heapFree heap ptr) := by
  intro b hb hFree
  rw [InHeap, (heapFree_shape heap ptr).2] at hb
  rcases heapFreeLoop_clears
    ((heap.table.total : Int) - heapAddressToBlock heap ptr).toNat (heapAddressToBlock heap ptr) b
    heap.table with hSame | ⟨_, hClear⟩
  · have hEntry : (heapFree heap ptr).table.entries b = heap.table.entries b := hSame
    rw [hEntry] at hFree ⊢
    exact h b hb hFree
  · exact hClear

/-- From the heap of `kheap_init` on the free entries are clear. -/
theorem heapRun_clear {finish : Nat} {entries : Int → UInt8} {s : HeapRun} {events : List HeapEvent}
    (hCreate : (heapCreate heap liebeOsHeapAddress finish ⟨entries, 25600, []⟩).1 = 0)
    (run : Run HeapStep (heapStart heap liebeOsHeapAddress finish 25600 entries) events s) :
    KernelHeap s.heap ∧ FreeClear s.heap := by
  have hStart : FreeClear (heapStart heap liebeOsHeapAddress finish 25600 entries).heap :=
    fun b hb _ => by
      rw [heapStart, heapCreate_ok hCreate, InHeap, heapTableFill_total] at hb
      have hHigh : b < (25600 : Nat) := hb.2
      rw [heapStart_entries hCreate, if_pos (by omega)]
  have hKernel : KernelHeap (heapStart heap liebeOsHeapAddress finish 25600 entries).heap := by
    rw [heapStart, heapCreate_ok hCreate]
    exact ⟨rfl, heapTableFill_total _ _ _ _⟩
  refine @Run.invariant _ _ _ (fun s => KernelHeap s.heap ∧ FreeClear s.heap) _ _ _ run
    ⟨hKernel, hStart⟩ fun s e t h hStep => ?_
  obtain ⟨hHeap, hClear⟩ := h
  cases hStep with
  | malloc size hSize => exact ⟨hHeap.malloc size, hClear.malloc size⟩
  | free k a hLive => exact ⟨hHeap.free a.ptr, hClear.free a.ptr⟩
  | freeNull => exact ⟨hHeap.free 0, hClear.free 0⟩

/-- The memory that `kheap_init` finds may hold anything. -/
theorem kheapInit_create :
    (heapCreate ⟨⟨fun _ => 0, 0, []⟩, 0⟩ liebeOsHeapAddress 0x07400000
      ⟨fun _ => 0xFF, 25600, []⟩).1 = 0 := by
  have hTable : heapValidateTable liebeOsHeapAddress 0x07400000 ⟨fun _ => 0xFF, 25600, []⟩ = 0 := by
    decide
  rw [heapCreate, if_neg (by decide)]
  dsimp only
  rw [hTable, if_neg (by decide)]

end Clear

/-! ### Taking and giving back -/

section Takes

variable {start heap : Heap} {pages : List Nat} {p size : Nat}

theorem Takes.refl (h : KernelHeap start) : Takes start start [] where
  kernel := ⟨h, h⟩
  fresh _ hp := absurd hp List.not_mem_nil
  entries _ := (if_neg List.not_mem_nil).symm
  nodup := List.nodup_nil

/-- The order in which pages are taken does not matter. -/
theorem Takes.perm {pages' : List Nat} (h : Takes start heap pages) (hPerm : pages.Perm pages') :
    Takes start heap pages' where
  kernel := h.kernel
  fresh p hp := h.fresh p (hPerm.mem_iff.mpr hp)
  entries b := by
    rw [h.entries b]
    exact if_congr (hPerm.map _).mem_iff rfl rfl
  nodup := (hPerm.map _).nodup_iff.mp h.nodup

theorem KernelHeap.block_of_address {b : Int} (h : KernelHeap heap) (hb : InHeap heap b) :
    heapAddressToBlock heap (heapBlockToAddress heap b) = b :=
  heapAddressToBlock_heapBlockToAddress heap hb.1 hb.2 (by rw [h.total_eq]; decide)

/-- One more page. -/
theorem Takes.malloc (h : Takes start heap pages) (hSize : 1 ≤ size) (hPage : size ≤ 4096)
    (hFree : HasFree heap) :
    Takes start (heapMalloc heap size).2 ((heapMalloc heap size).1 :: pages) := by
  obtain ⟨hStart, hHeap⟩ := h.kernel
  rcases heapMalloc_one heap hSize hPage with ⟨hFull, _⟩ | ⟨b, hb, hEntry, hGrant⟩
  · exact absurd hFree hFull
  · have hSame : heapBlockToAddress heap b = heapBlockToAddress start b := by
      unfold heapBlockToAddress
      rw [hHeap.saddr, hStart.saddr]
    have hbStart : InHeap start b := by
      rw [InHeap, hStart.total_eq, ← hHeap.total_eq]
      exact hb
    have hBlock := hStart.block_of_address hbStart
    have hNew : b ∉ pages.map (heapAddressToBlock start) := fun hOld => by
      rw [h.entries b, if_pos hOld] at hEntry
      exact absurd hEntry (by decide)
    have hFresh : entryTaken (start.table.entries b) = false := by
      rwa [h.entries b, if_neg hNew] at hEntry
    have hHeap' := hHeap.malloc size
    rw [hGrant] at hHeap' ⊢
    refine ⟨⟨hStart, hHeap'⟩, fun p hp => ?_, fun c => ?_, ?_⟩
    · rcases List.mem_cons.mp hp with rfl | hOld
      · exact ⟨b, hbStart, hSame, hFresh⟩
      · exact h.fresh p hOld
    · rw [heapMarkBlocksTaken_one, List.map_cons, hSame, hBlock, h.entries c]
      by_cases hc : c = b
      · rw [if_pos hc, if_pos (hc ▸ List.mem_cons_self)]
      · rw [if_neg hc]
        exact if_congr (List.mem_cons.trans (or_iff_right hc)).symm rfl rfl
    · rw [List.map_cons, hSame, hBlock]
      exact List.nodup_cons.mpr ⟨hNew, h.nodup⟩

theorem Takes.kzalloc {k k' : KernelMemory}
    (h : Takes start k.heap pages) (hSize : 1 ≤ size) (hPage : size ≤ 4096) (hFree : HasFree k.heap)
    (hGrant : kzalloc k size = (p, k')) : Takes start k'.heap (p :: pages) := by
  have hPtr := kzalloc_ptr k size
  have hHeap := kzalloc_heap k size
  rw [hGrant] at hPtr hHeap
  dsimp only at hPtr hHeap
  rw [hPtr, hHeap]
  exact h.malloc hSize hPage hFree

/-- A page that has been taken is given back by one store. -/
theorem Takes.free (h : Takes start heap (p :: pages)) (hClear : FreeClear start) :
    Takes start (heapFree heap p) pages ∧
      (heapFree heap p).table.written = heapAddressToBlock start p :: heap.table.written := by
  obtain ⟨hStart, hHeap⟩ := h.kernel
  obtain ⟨b, hb, hp, hFresh⟩ := h.fresh p List.mem_cons_self
  have hBlock : heapAddressToBlock start p = b := by rw [hp, hStart.block_of_address hb]
  have hSame : heapAddressToBlock heap p = b := by
    rw [← hBlock, heapAddressToBlock, heapAddressToBlock, hHeap.saddr, hStart.saddr]
  have hEntry : heap.table.entries b = onePageEntry := by
    rw [h.entries b]
    exact if_pos (hBlock ▸ List.mem_cons_self)
  obtain ⟨hNew, hNodup⟩ := List.nodup_cons.mp h.nodup
  rw [hBlock] at hNew
  have hTable : (heapFree heap p).table = heap.table.store b heapBlockTableEntryFree := by
    obtain ⟨hLow, hHigh⟩ := hb
    obtain ⟨left, hLeft⟩ : ∃ left, ((heap.table.total : Int) - b).toNat = left + 1 :=
      ⟨((heap.table.total : Int) - b).toNat - 1, by
        rw [hStart.total_eq] at hHigh
        rw [hHeap.total_eq]
        omega⟩
    rw [heapFree, heapMarkBlocksFree, hSame, hLeft, heapFreeLoop, hEntry]
    rfl
  refine ⟨⟨⟨hStart, hHeap.free p⟩, fun q hq => h.fresh q (List.mem_cons_of_mem p hq), fun c => ?_,
    hNodup⟩, ?_⟩
  · rw [hTable]
    by_cases hc : c = b
    · rw [hc, HeapTable.store_entries_self, if_neg hNew]
      exact (hClear b hb hFresh).symm
    · rw [heap.table.store_entries_of_ne _ hc, h.entries c, List.map_cons, hBlock]
      exact if_congr (List.mem_cons.trans (or_iff_right hc)) rfl rfl
  · rw [hTable, hBlock]
    rfl

end Takes

end LiebeOS
