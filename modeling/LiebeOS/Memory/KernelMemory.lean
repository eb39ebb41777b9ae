import LiebeOS.Lib.Words
import LiebeOS.Memory.HeapSafety

/-! The kernel's heap together with the memory that it hands out: `kheap.c`.
The heap is 25600 blocks from 16 MB on, one page each. -/
namespace LiebeOS

open MachineInt Bytes

def liebeOsHeapAddress : Nat := 0x01000000
def liebeOsHeapSizeBytes : Nat := 104857600

structure KernelMemory where
  heap : Heap
  mem : Memory

def kmalloc (k : KernelMemory) (size : Nat) : Nat × KernelMemory :=
  ((heapMalloc k.heap size).1, { k with heap := (heapMalloc k.heap size).2 })

def kzalloc (k : KernelMemory) (size : Nat) : Nat × KernelMemory :=
  let (ptr, k) := kmalloc k size
  if ptr = 0 then (0, k) else (ptr, { k with mem := storeRange k.mem ptr size fun _ => 0 })

def kfree (k : KernelMemory) (ptr : Nat) : KernelMemory := { k with heap := heapFree k.heap ptr }

/-- The heap that `kheap_init` sets up. -/
structure KernelHeap (heap : Heap) : Prop where
  saddr : heap.saddr = liebeOsHeapAddress
  total : heap.table.total = liebeOsHeapSizeBytes / liebeOsHeapBlockSize

/-- `b` is the number of a block of the heap. -/
def InHeap (heap : Heap) (b : Int) : Prop := 0 ≤ b ∧ b < heap.table.total

/-- Some block can still be handed out. -/
def HasFree (heap : Heap) : Prop :=
  ∃ b, InHeap heap b ∧ entryTaken (heap.table.entries b) = false

/-- `p` is the address of a block that is in use. -/
def Held (heap : Heap) (p : Nat) : Prop :=
  ∃ b, InHeap heap b ∧ p = heapBlockToAddress heap b ∧ entryTaken (heap.table.entries b) = true

/-! ### Blocks and their addresses -/

section Blocks

variable {heap : Heap} {b b' : Int} {p size : Nat}

theorem KernelHeap.total_eq (h : KernelHeap heap) : heap.table.total = 25600 := h.total

theorem KernelHeap.address (h : KernelHeap heap) (hb : InHeap heap b) :
    (heapBlockToAddress heap b : Int) = 0x01000000 + b * 4096 := by
  have hTotal := h.total_eq
  have hSaddr := h.saddr
  obtain ⟨hLow, hHigh⟩ := hb
  unfold heapBlockToAddress toWord liebeOsHeapBlockSize
  unfold liebeOsHeapAddress at hSaddr
  omega

/-- The address of a block is a page of the heap, and it tells the block. -/
theorem KernelHeap.address_page (h : KernelHeap heap) (hb : InHeap heap b) :
    heapBlockToAddress heap b % 4096 = 0 ∧ 0x01000000 ≤ heapBlockToAddress heap b ∧
      heapBlockToAddress heap b + 4096 ≤ 0x07400000 := by
  have hAddress := h.address hb
  have hTotal := h.total_eq
  obtain ⟨hLow, hHigh⟩ := hb
  omega

theorem KernelHeap.address_inj (h : KernelHeap heap) (hb : InHeap heap b) (hb' : InHeap heap b')
    (hSame : heapBlockToAddress heap b = heapBlockToAddress heap b') : b = b' := by
  have hFirst := h.address hb
  have hSecond := h.address hb'
  omega

theorem Held.page (hHeap : KernelHeap heap) (h : Held heap p) :
    p % 4096 = 0 ∧ 0x01000000 ≤ p ∧ p + 4096 ≤ 0x07400000 := by
  obtain ⟨b, hb, rfl, _⟩ := h
  exact hHeap.address_page hb

end Blocks

/-! ### Requests take blocks and never give them back -/

section Take

variable {heap : Heap} {size : Nat}

theorem heapMarkBlocksTaken_taken (heap : Heap) (b : Int) (k : Nat) {j : Int}
    (h : entryTaken (heap.table.entries j) = true) :
    entryTaken ((heapMarkBlocksTaken heap b k).table.entries j) = true := by
  by_cases hIn : b ≤ j ∧ j < b + k
  · exact ((heapMarkBlocksTaken_markedRun heap b (by omega)).2 j hIn.1 hIn.2).1
  · rw [heapMarkBlocksTaken_entries_outside heap (by omega)]
    exact h

theorem heapMalloc_taken (heap : Heap) (size : Nat) {j : Int}
    (h : entryTaken (heap.table.entries j) = true) :
    entryTaken ((heapMalloc heap size).2.table.entries j) = true := by
  unfold heapMalloc heapMallocBlocks
  dsimp only
  split
  · exact h
  · exact heapMarkBlocksTaken_taken heap _ _ h

theorem heapMalloc_shape (heap : Heap) (size : Nat) :
    (heapMalloc heap size).2.saddr = heap.saddr ∧
      (heapMalloc heap size).2.table.total = heap.table.total := by
  unfold heapMalloc heapMallocBlocks
  dsimp only
  split
  · exact ⟨rfl, rfl⟩
  · exact ⟨rfl, heapMarkBlocksTaken_total ..⟩

theorem KernelHeap.malloc (h : KernelHeap heap) (size : Nat) :
    KernelHeap (heapMalloc heap size).2 := by
  obtain ⟨hSaddr, hTotal⟩ := heapMalloc_shape heap size
  exact ⟨hSaddr.trans h.saddr, hTotal.trans h.total⟩

theorem HasFree.of_malloc (h : HasFree (heapMalloc heap size).2) : HasFree heap := by
  obtain ⟨b, ⟨hLow, hHigh⟩, hFree⟩ := h
  refine ⟨b, ⟨hLow, ?_⟩, ?_⟩
  · rw [(heapMalloc_shape heap size).2] at hHigh
    exact hHigh
  · by_contra hTaken
    rw [heapMalloc_taken heap size (by simpa using hTaken)] at hFree
    cases hFree

theorem Held.malloc {p : Nat} (h : Held heap p) (size : Nat) : Held (heapMalloc heap size).2 p := by
  obtain ⟨hSaddr, hTotal⟩ := heapMalloc_shape heap size
  obtain ⟨b, hb, hAddress, hTaken⟩ := h
  refine ⟨b, ?_, ?_, heapMalloc_taken heap size hTaken⟩
  · unfold InHeap
    rw [hTotal]
    exact hb
  · rw [hAddress, heapBlockToAddress, heapBlockToAddress, hSaddr]

/-- A request of one block is granted as long as there is a free block, and
otherwise refused. -/
theorem heapMalloc_one (heap : Heap) {size : Nat} (hSize : 1 ≤ size) (hPage : size ≤ 4096) :
    (¬ HasFree heap ∧ heapMalloc heap size = (0, heap)) ∨
      ∃ b, InHeap heap b ∧ entryTaken (heap.table.entries b) = false ∧
        heapMalloc heap size = (heapBlockToAddress heap b, heapMarkBlocksTaken heap b 1) := by
  have hCount : heapAlignValueToUpper size / liebeOsHeapBlockSize = 1 := by
    rw [heapAlignValueToUpper_blocks (by omega), if_pos (by omega)]
    unfold blocksOf
    omega
  have hStart : ScanInv heap.table.entries 0 0 (-1) := Or.inl ⟨rfl, rfl⟩
  generalize hr : heapScan heap.table.entries 1 heap.table.total 0 0 (-1) = r
  by_cases hFree : HasFree heap
  · right
    obtain ⟨b, ⟨hLow, hHigh⟩, hEntry⟩ := hFree
    have hRun : FreeRun heap.table.entries b 1 := by
      intro j hFrom hTo
      have hj : j = b := by omega
      rw [hj]
      exact hEntry
    have hScan := heapScan_of_run (Nat.le_refl 1) hRun heap.table.total 0 0 (-1) (Int.le_refl 0)
      (by omega) hStart (by decide) (by simpa using hLow)
    rw [hr] at hScan
    obtain ⟨hPositive, hBefore, hGiven⟩ := hScan
    refine ⟨r, ⟨hPositive, by omega⟩, hGiven r (Int.le_refl r) (by omega), ?_⟩
    simp only [heapMalloc, heapMallocBlocks, heapGetStartBlock, hCount, hr]
    rw [if_neg (show ¬ r = -1 by omega), if_neg (by omega)]
  · left
    have hScan := heapScan_cases 1 heap.table.total 0 0 (-1) (Int.le_refl 0) hStart
    rw [hr] at hScan
    have hNone : r = -1 := by
      rcases hScan with hNone | ⟨hPositive, _, hEnd, hGiven⟩ | ⟨hPositive, hEnd, hGiven⟩
      · exact hNone
      · exact absurd ⟨r, ⟨hPositive, by omega⟩, hGiven r (Int.le_refl r) (by omega)⟩ hFree
      · exact absurd ⟨r, ⟨hPositive, by omega⟩, hGiven r (Int.le_refl r) (by omega)⟩ hFree
    refine ⟨hFree, ?_⟩
    simp only [heapMalloc, heapMallocBlocks, heapGetStartBlock, hCount, hr, hNone]
    rfl

end Take

/-- Nothing outside the page `p` differs. -/
def PageOnly (p : Nat) (mem mem' : Memory) : Prop :=
  ∀ x < 4294967296, x / 4096 * 4096 ≠ p → mem' x = mem x

theorem PageOnly.refl (p : Nat) (mem : Memory) : PageOnly p mem mem := fun _ _ _ => rfl

theorem PageOnly.trans {p : Nat} {mem mid fin : Memory} (hFirst : PageOnly p mem mid)
    (hSecond : PageOnly p mid fin) : PageOnly p mem fin :=
  fun x hx hOut => (hSecond x hx hOut).trans (hFirst x hx hOut)

/-- `kzalloc` has handed out the page `p`: a block that was free is now in use,
the other blocks are as before, and nothing outside the page has changed. -/
structure GrantsPage (k : KernelMemory) (p : Nat) (k' : KernelMemory) : Prop where
  heap : KernelHeap k'.heap
  held : Held k'.heap p
  fresh : ¬ Held k.heap p
  keeps : ∀ q, Held k.heap q → Held k'.heap q
  outside : PageOnly p k.mem k'.mem

theorem kzalloc_page (k : KernelMemory) (size : Nat) (hHeap : KernelHeap k.heap) (hSize : 1 ≤ size)
    (hPage : size ≤ 4096) :
    (¬ HasFree k.heap ∧ kzalloc k size = (0, k)) ∨
      ∃ p k', kzalloc k size = (p, k') ∧ p ≠ 0 ∧ GrantsPage k p k' := by
  rcases heapMalloc_one k.heap hSize hPage with ⟨hFull, hNone⟩ | ⟨b, hb, hFree, hGrant⟩
  · refine Or.inl ⟨hFull, ?_⟩
    simp only [kzalloc, kmalloc, hNone]
    rfl
  · obtain ⟨hAligned, hLow, hHigh⟩ := hHeap.address_page hb
    have hHeap' := hHeap.malloc size
    have hKeeps : ∀ q, Held k.heap q → Held (heapMalloc k.heap size).2 q :=
      fun q hq => hq.malloc size
    rw [hGrant] at hHeap' hKeeps
    refine Or.inr ⟨heapBlockToAddress k.heap b,
      { heap := heapMarkBlocksTaken k.heap b 1
        mem := storeRange k.mem (heapBlockToAddress k.heap b) size fun _ => 0 },
      ?_, by omega, hHeap', ?_, ?_, hKeeps, ?_⟩
    · simp only [kzalloc, kmalloc, hGrant]
      exact if_neg (by omega)
    · refine ⟨b, hb, rfl, ?_⟩
      exact ((heapMarkBlocksTaken_markedRun k.heap b (Nat.le_refl 1)).2 b (Int.le_refl b)
        (by omega)).1
    · rintro ⟨c, hc, hSame, hTaken⟩
      rw [← hHeap.address_inj hb hc hSame, hFree] at hTaken
      cases hTaken
    · intro x hx hOutside
      have hFar : size ≤ offsetFrom (heapBlockToAddress k.heap b) x := by
        unfold offsetFrom toWord
        omega
      change storeRange k.mem (heapBlockToAddress k.heap b) size (fun _ => 0) x = k.mem x
      exact storeRange_outside hFar

theorem kzalloc_heap (k : KernelMemory) (size : Nat) :
    (kzalloc k size).2.heap = (heapMalloc k.heap size).2 := by
  unfold kzalloc
  dsimp only
  by_cases hNull : (kmalloc k size).1 = 0
  · rw [if_pos hNull]
    rfl
  · rw [if_neg hNull]
    rfl

theorem kzalloc_ptr (k : KernelMemory) (size : Nat) :
    (kzalloc k size).1 = (heapMalloc k.heap size).1 := by
  unfold kzalloc
  dsimp only
  by_cases hNull : (kmalloc k size).1 = 0
  · rw [if_pos hNull]
    exact hNull.symm
  · rw [if_neg hNull]
    rfl

theorem HasFree.before_kzalloc {k k' : KernelMemory} {size p : Nat} (h : HasFree k'.heap)
    (hGrant : kzalloc k size = (p, k')) : HasFree k.heap := by
  have hHeap := kzalloc_heap k size
  rw [hGrant] at hHeap
  rw [show k'.heap = _ from hHeap] at h
  exact h.of_malloc

/-- A request of one block is only granted while there is a free block. -/
theorem HasFree.of_kzalloc {k : KernelMemory} {size : Nat} (hSize : 1 ≤ size) (hPage : size ≤ 4096)
    (hGrant : (kzalloc k size).1 ≠ 0) : HasFree k.heap := by
  rcases heapMalloc_one k.heap hSize hPage with ⟨_, hNone⟩ | ⟨b, hb, hFree, _⟩
  · simp only [kzalloc, kmalloc, hNone] at hGrant
    exact absurd rfl hGrant
  · exact ⟨b, hb, hFree⟩

/-- From `k` to `k'` blocks have only been taken, and memory has changed in no
page but those taken in between. -/
structure Grows (k k' : KernelMemory) : Prop where
  heap : KernelHeap k'.heap
  keeps : ∀ q, Held k.heap q → Held k'.heap q
  outside : ∀ x < 4294967296,
    (Held k'.heap (x / 4096 * 4096) → Held k.heap (x / 4096 * 4096)) → k'.mem x = k.mem x

theorem Grows.refl {k : KernelMemory} (h : KernelHeap k.heap) : Grows k k :=
  ⟨h, fun _ hq => hq, fun _ _ _ => rfl⟩

theorem Grows.trans {k k' k'' : KernelMemory} (hFirst : Grows k k') (hSecond : Grows k' k'') :
    Grows k k'' where
  heap := hSecond.heap
  keeps q hq := hSecond.keeps q (hFirst.keeps q hq)
  outside x hx hOld := by
    rw [hSecond.outside x hx fun hLate => hFirst.keeps _ (hOld hLate)]
    exact hFirst.outside x hx fun hLate => hOld (hSecond.keeps _ hLate)

/-- Memory in a page that was already in use is as before. -/
theorem Grows.held {k k' : KernelMemory} (h : Grows k k') {x : Nat} (hx : x < 4294967296)
    (hHeld : Held k.heap (x / 4096 * 4096)) : k'.mem x = k.mem x :=
  h.outside x hx fun _ => hHeld

theorem GrantsPage.grows {k k' : KernelMemory} {p : Nat} (h : GrantsPage k p k') : Grows k k' where
  heap := h.heap
  keeps := h.keeps
  outside x hx hOld := h.outside x hx fun hPage => h.fresh (hPage ▸ hOld (hPage ▸ h.held))

/-- Writing to a page that was taken in between changes nothing more. -/
theorem Grows.write {k : KernelMemory} {heap : Heap} {mem mem' : Memory} {p : Nat}
    (h : Grows k ⟨heap, mem⟩) (hHeld : Held heap p) (hFresh : ¬ Held k.heap p)
    (hOnly : PageOnly p mem mem') : Grows k ⟨heap, mem'⟩ where
  heap := h.heap
  keeps := h.keeps
  outside x hx hOld := by
    have hApart : x / 4096 * 4096 ≠ p := fun hPage => hFresh (hPage ▸ hOld (hPage ▸ hHeld))
    exact (hOnly x hx hApart).trans (h.outside x hx hOld)

end LiebeOS
