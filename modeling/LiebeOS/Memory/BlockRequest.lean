import LiebeOS.Memory.Paging
import LiebeOS.Memory.TakenPages

/-! Requests of several blocks from the kernel's heap: which entries of the table
they change, what giving them back restores, and which memory they leave alone. -/
namespace LiebeOS

open MachineInt Bytes

/-- There is a run of free blocks for the request. -/
def HasRun (heap : Heap) (size : Nat) : Prop :=
  ∃ b : Int, 0 ≤ b ∧ b + blocksOf size ≤ heap.table.total ∧
    FreeRun heap.table.entries b (blocksOf size)

/-- The `n` blocks from block `b` on are free blocks of the heap. -/
structure FreeBlocks (heap : Heap) (b : Int) (n : Nat) : Prop where
  inside : 0 ≤ b ∧ b + n ≤ heap.table.total
  free : FreeRun heap.table.entries b n

/-- The directory's pointers are as before, and it maps each page as `m` says. -/
structure Remapped (mem mem' : Memory) (directory : Nat) (m : PageMap) : Prop where
  pointers : ∀ d < 1024, loadWord mem' (directory + 4 * d) = loadWord mem (directory + 4 * d)
  entries : ∀ v < 4294967296, v % 4096 = 0 → pagingGet mem' directory v = m v

/-- The directory and its tables are allocations. -/
def TablesHeld (heap : Heap) (directory : Nat) (table : Nat → Nat) : Prop :=
  Held heap directory ∧ ∀ d < 1024, Held heap (table d)

/-- A task's directory in a kernel whose heap is as `kheap_init` and the calls
since have left it. -/
structure AddressSpace (k : KernelMemory) (directory : Nat) (table : Nat → Nat) : Prop where
  heap : KernelHeap k.heap
  clear : FreeClear k.heap
  tables : PageTables k.mem directory table
  held : TablesHeld k.heap directory table

section Blocks

variable {k : KernelMemory} {heap : Heap} {b : Int} {n p q size x : Nat}

/-- The address of a run of blocks, as a number. -/
theorem FreeBlocks.address (hHeap : KernelHeap heap) (h : FreeBlocks heap b n) (hn : 1 ≤ n) :
    heapBlockToAddress heap b % 4096 = 0 ∧ 0x01000000 ≤ heapBlockToAddress heap b ∧
      heapBlockToAddress heap b + 4096 * n ≤ 0x07400000 ∧
      (heapBlockToAddress heap b : Int) = 0x01000000 + b * 4096 := by
  obtain ⟨hLow, hHigh⟩ := h.inside
  have hTotal := hHeap.total_eq
  have hAddress := hHeap.address (show InHeap heap b from ⟨hLow, by omega⟩)
  omega

/-- `kzalloc` takes some run of free blocks and clears the bytes asked for. -/
theorem kzalloc_of_run (hHeap : KernelHeap k.heap) (hSize : 1 ≤ size) (hRun : HasRun k.heap size) :
    ∃ b, FreeBlocks k.heap b (blocksOf size) ∧
      kzalloc k size = (heapBlockToAddress k.heap b,
        ⟨heapMarkBlocksTaken k.heap b (blocksOf size),
          storeRange k.mem (heapBlockToAddress k.heap b) size fun _ => 0⟩) := by
  obtain ⟨c, hc, hRoom, hFree⟩ := hRun
  have hTotal := hHeap.total_eq
  have hLarge : size ≤ 0xFFFFF000 := by
    unfold blocksOf at hRoom
    omega
  obtain ⟨b, hLow, hHigh, hRun, hGrant⟩ := heapMalloc_of_run hSize hLarge hc hRoom hFree
  have hBlocks : FreeBlocks k.heap b (blocksOf size) := ⟨⟨hLow, hHigh⟩, hRun⟩
  have hAddress := hBlocks.address hHeap (blocksOf_pos size)
  refine ⟨b, hBlocks, ?_⟩
  simp only [kzalloc, kmalloc, hGrant]
  exact if_neg (by omega)

/-- A request for no bytes that fits is refused. -/
theorem heapMalloc_zero (hFits : RequestFits heap.table 0) : heapMalloc heap 0 = (0, heap) := by
  have hSame : (heapMalloc heap 0).2 = heap := by
    simp only [heapMalloc, heapMallocBlocks]
    split
    · rfl
    · rfl
  rcases heapMalloc_of_fits (by decide) hFits with hNone | ⟨b, hb, _, hFree, hGrant⟩
  · exact hNone
  · rw [hGrant] at hSame
    dsimp only at hSame
    have hMarked := heapMarkBlocksTaken_markedRun heap b (blocksOf_pos 0)
    have hBlocks := blocksOf_pos 0
    have hTaken := (hMarked.2 b (Int.le_refl b) (by omega)).1
    have hEntry := hFree b (Int.le_refl b) (by omega)
    rw [hSame, hEntry] at hTaken
    cases hTaken

/-- A request that fits is refused, or there is a run of free blocks for it. -/
theorem kzalloc_of_fits (k : KernelMemory) (hSize : size < 4294967296)
    (hFits : RequestFits k.heap.table size) :
    kzalloc k size = (0, k) ∨ (1 ≤ size ∧ HasRun k.heap size) := by
  have hRefused : heapMalloc k.heap size = (0, k.heap) → kzalloc k size = (0, k) := fun hNone => by
    simp only [kzalloc, kmalloc, hNone]
    rfl
  by_cases hZero : size = 0
  · subst hZero
    exact Or.inl (hRefused (heapMalloc_zero hFits))
  · rcases heapMalloc_of_fits hSize hFits with hNone | ⟨b, hb, hRoom, hFree, _⟩
    · exact Or.inl (hRefused hNone)
    · exact Or.inr ⟨by omega, b, hb, hRoom, hFree⟩

/-- A request of one page at most is refused, or it takes a free block. -/
theorem kzalloc_block (k : KernelMemory) (hHeap : KernelHeap k.heap) (hSize : 1 ≤ size)
    (hPage : size ≤ 4096) :
    kzalloc k size = (0, k) ∨
      ∃ b, FreeBlocks k.heap b 1 ∧
        kzalloc k size = (heapBlockToAddress k.heap b,
          ⟨heapMarkBlocksTaken k.heap b 1,
            storeRange k.mem (heapBlockToAddress k.heap b) size fun _ => 0⟩) := by
  rcases heapMalloc_one k.heap hSize hPage with ⟨_, hNone⟩ | ⟨b, hb, hFree, hGrant⟩
  · left
    simp only [kzalloc, kmalloc, hNone]
    rfl
  · have hAddress := hHeap.address hb
    obtain ⟨hLow, hHigh⟩ := hb
    refine Or.inr ⟨b, ⟨⟨hLow, by omega⟩, fun j hFrom hTo => ?_⟩, ?_⟩
    · rwa [show j = b by omega]
    · simp only [kzalloc, kmalloc, hGrant]
      exact if_neg (by omega)

/-- Giving blocks back that were just taken restores the table. -/
theorem heapFree_of_run (hHeap : KernelHeap heap) (hClear : FreeClear heap)
    (h : FreeBlocks heap b n) (hn : 1 ≤ n) :
    (heapFree (heapMarkBlocksTaken heap b n) (heapBlockToAddress heap b)).table.entries =
      heap.table.entries := by
  obtain ⟨hLow, hHigh⟩ := h.inside
  have hTotal := hHeap.total_eq
  have hBlock : heapAddressToBlock (heapMarkBlocksTaken heap b n) (heapBlockToAddress heap b) = b :=
    @heapAddressToBlock_heapBlockToAddress (heapMarkBlocksTaken heap b n) b heap.table.total hLow
      (by omega) (by omega)
  obtain ⟨hCleared, hKept, _⟩ := @heapFree_marked (heapMarkBlocksTaken heap b n)
    (heapBlockToAddress heap b) n (by rw [hBlock, heapMarkBlocksTaken_total]; exact hHigh)
    (by rw [hBlock]; exact heapMarkBlocksTaken_markedRun heap b hn)
  rw [hBlock] at hCleared hKept
  funext j
  by_cases hIn : b ≤ j ∧ j < b + n
  · rw [hCleared j hIn.1 hIn.2]
    exact (hClear j ⟨by omega, by omega⟩ (h.free j hIn.1 hIn.2)).symm
  · rw [hKept j (by omega)]
    exact heapMarkBlocksTaken_entries_outside heap (by omega)

/-- Bytes stored into free blocks are not in a page that is in use. -/
theorem FreeBlocks.storeRange_held (hHeap : KernelHeap heap) (h : FreeBlocks heap b n) (hn : 1 ≤ n)
    (hSize : size ≤ 4096 * n) (hHeld : Held heap q) (hx : x < 4294967296)
    (hPage : x / 4096 * 4096 = q) (mem : Memory) (f : Nat → UInt8) :
    storeRange mem (heapBlockToAddress heap b) size f x = mem x := by
  obtain ⟨hAligned, hLow, hHigh, hAddress⟩ := h.address hHeap hn
  obtain ⟨c, hc, rfl, hTaken⟩ := hHeld
  have hHeldAddress := hHeap.address hc
  have hOther : c < b ∨ b + n ≤ c := by
    by_contra hIn
    rw [h.free c (by omega) (by omega)] at hTaken
    cases hTaken
  apply storeRange_outside
  unfold offsetFrom toWord
  omega

theorem FreeBlocks.not_held (hHeap : KernelHeap heap) (h : FreeBlocks heap b n) (hn : 1 ≤ n) :
    ¬ Held heap (heapBlockToAddress heap b) := by
  rintro ⟨c, hc, hSame, hTaken⟩
  obtain ⟨hLow, hHigh⟩ := h.inside
  obtain rfl := hHeap.address_inj ⟨hLow, by omega⟩ hc hSame
  rw [h.free b (Int.le_refl b) (by omega)] at hTaken
  cases hTaken

theorem blocksOf_covers (size : Nat) : size ≤ 4096 * blocksOf size := by
  unfold blocksOf
  omega

end Blocks

section Directories

variable {mem mem' : Memory} {directory : Nat} {table : Nat → Nat}

/-- Where nothing changes in the pages of the directory and of its tables, it
maps what it did. -/
theorem PageTables.remapped (h : PageTables mem directory table)
    (hSame : ∀ x < 4294967296, x / 4096 * 4096 = directory ∨ InTables table x → mem' x = mem x) :
    PageTables mem' directory table ∧
      Remapped mem mem' directory (pagingGet mem directory) := by
  have hDirectory : ∀ x < 4294967296, x / 4096 * 4096 = directory → mem' x = mem x :=
    fun x hx hPage => hSame x hx (Or.inl hPage)
  have hTables := h.congr hDirectory
  refine ⟨hTables, fun d hd => h.pointer hDirectory hd, fun v hv hPage => ?_⟩
  rw [hTables.get hv hPage, h.get hv hPage]
  refine loadWord_congr fun i hi => hSame _ (behind_lt _ _) (Or.inr ?_)
  have hTable := h.table_page (show v / 4194304 < 1024 by omega)
  refine ⟨v / 4194304, by omega, ?_⟩
  unfold entryPointer behind
  omega

theorem Maps.remapped {m : PageMap} (h : PageTables mem directory table)
    (hMaps : Maps mem' directory table m) (hOnly : TablesOnly table mem mem') :
    Remapped mem mem' directory m :=
  ⟨fun _ hd => h.pointer (fun _ hx hPage => h.directory_same hOnly hx hPage) hd, hMaps.entries⟩

theorem Remapped.trans {mid : Memory} {m : PageMap}
    (hFirst : Remapped mem mid directory (pagingGet mem directory))
    (hSecond : Remapped mid mem' directory m) : Remapped mem mem' directory m :=
  ⟨fun d hd => (hSecond.pointers d hd).trans (hFirst.pointers d hd), hSecond.entries⟩

theorem Remapped.congr {m m' : PageMap} (h : Remapped mem mem' directory m)
    (hSame : ∀ v < 4294967296, v % 4096 = 0 → m v = m' v) : Remapped mem mem' directory m' :=
  ⟨h.pointers, fun v hv hPage => (h.entries v hv hPage).trans (hSame v hv hPage)⟩

/-- A request leaves the directory of a process alone. -/
theorem TablesHeld.remapped {heap : Heap} {b : Int} {n size : Nat} (hHeld : TablesHeld heap directory table)
    (hHeap : KernelHeap heap) (hTables : PageTables mem directory table)
    (h : FreeBlocks heap b n) (hn : 1 ≤ n) (hSize : size ≤ 4096 * n) (f : Nat → UInt8) :
    PageTables (storeRange mem (heapBlockToAddress heap b) size f) directory table ∧
      Remapped mem (storeRange mem (heapBlockToAddress heap b) size f) directory
        (pagingGet mem directory) := by
  refine hTables.remapped fun x hx hPage => ?_
  rcases hPage with hDirectory | ⟨d, hd, hTable⟩
  · exact h.storeRange_held hHeap hn hSize hHeld.1 hx hDirectory mem f
  · exact h.storeRange_held hHeap hn hSize (hHeld.2 d hd) hx hTable mem f

/-- Mapping whole pages to themselves. -/
theorem Maps.mapSelf {m : PageMap} (h : Maps mem directory table m) {flags p n : Nat}
    (hFlags : flags < 4096) (hp : p % 4096 = 0) (hEnd : p + 4096 * n < 4294967296) :
    ∃ mem', pagingMapTo mem directory p p (p + 4096 * n) flags = (0, mem') ∧
      TablesOnly table mem mem' ∧
      Maps mem' directory table
        (fun v => if p ≤ v ∧ v < p + 4096 * n then v ||| flags else m v) := by
  rcases h.mapTo hFlags hp (by omega) hp (by omega) (show (p + 4096 * n) % 4096 = 0 by omega) with
    ⟨hOrder, _⟩ | ⟨_, mem', hRun, hMaps, hOnly⟩
  · omega
  · refine ⟨mem', hRun, hOnly, { toPageTables := hMaps.toPageTables, entries := fun v hv hPage => ?_ }⟩
    rw [hMaps.entries v hv hPage, mapRange_eq m (by omega) hp (by omega) (by omega) hv hPage,
      show (p + 4096 * n - p) / 4096 = n by omega]
    by_cases hIn : p ≤ v ∧ v < p + 4096 * n
    · have hOffset : offsetFrom p v = v - p := by
        unfold offsetFrom toWord
        omega
      rw [if_pos hIn, hOffset, if_pos (by omega), behind_of_lt (by omega),
        show p + (v - p) = v by omega]
    · have hOffset : ¬ offsetFrom p v < 4096 * n := by
        unfold offsetFrom toWord
        omega
      rw [if_neg hIn, if_neg hOffset]

end Directories

/-- A kernel with one task: the first page of the heap is its directory, and the
1024 pages behind it are the tables. -/
def firstTask : KernelMemory where
  heap := ⟨⟨fun b => if 0 ≤ b ∧ b < 1025 then onePageEntry else 0, 25600, []⟩, 0x01000000⟩
  mem x := wordByte (0x01001007 + 4096 * ((x - 0x01000000) / 4)) (x % 4)

theorem firstTask_held {b : Int} (hLow : 0 ≤ b) (hHigh : b < 1025) :
    Held firstTask.heap (heapBlockToAddress firstTask.heap b) := by
  refine ⟨b, ⟨hLow, ?_⟩, rfl, ?_⟩
  · exact lt_trans hHigh (by decide)
  · have hEntry : firstTask.heap.table.entries b = onePageEntry := if_pos ⟨hLow, hHigh⟩
    rw [hEntry]
    rfl

theorem firstTask_pointer {d : Nat} (hd : d < 1024) :
    loadWord firstTask.mem (0x01000000 + 4 * d) = 0x01001007 + 4096 * d := by
  refine loadWord_of_bytes (by omega) fun i hi => ?_
  rw [behind_of_lt (by omega)]
  simp only [firstTask]
  rw [show (0x01000000 + 4 * d + i - 0x01000000) / 4 = d by omega,
    show (0x01000000 + 4 * d + i) % 4 = i by omega]

/-- There is room in the first task's kernel. -/
theorem firstTask_hasRun {size : Nat} (hSize : blocksOf size ≤ 1000) :
    HasRun firstTask.heap size := by
  have hTotal : firstTask.heap.table.total = 25600 := rfl
  refine ⟨1025, by decide, by omega, fun j hLow hHigh => ?_⟩
  have hFree : firstTask.heap.table.entries j = 0 := if_neg (by omega)
  rw [hFree]
  rfl

theorem firstTask_space :
    AddressSpace firstTask 0x01000000 fun d => 0x01001000 + 4096 * d := by
  have hHeap : KernelHeap firstTask.heap := ⟨rfl, rfl⟩
  refine ⟨hHeap, fun b hb hFree => ?_, ?_, ?_, fun d hd => ?_⟩
  · by_cases hIn : 0 ≤ b ∧ b < 1025
    · have hTaken : firstTask.heap.table.entries b = onePageEntry := if_pos hIn
      rw [hTaken] at hFree
      exact absurd hFree (by decide)
    · exact if_neg hIn
  · exact
      { aligned := by decide
        lt := by decide
        entry := fun d hd => by
          rw [firstTask_pointer hd, entryAddress_eq (by omega)]
          omega
        apart := fun d hd => by omega
        distinct := fun d hd e he hSame => by omega }
  · exact firstTask_held (b := 0) (by decide) (by decide)
  · have hHeld := @firstTask_held (d + 1) (by omega) (by omega)
    have hAddress := @KernelHeap.address firstTask.heap (d + 1) hHeap
      ⟨by omega, lt_trans (show ((d : Int) + 1) < 1025 by omega) (by decide)⟩
    rwa [show heapBlockToAddress firstTask.heap (d + 1) = 0x01001000 + 4096 * d by omega] at hHeld

end LiebeOS
