import LiebeOS.Lib.Slots
import LiebeOS.Memory.BlockRequest

/-! The memory that a process asks for at run time. `process_malloc` takes blocks
of the kernel's heap, shows them to the process and notes them in one of its
slots; the three go together or not at all. -/
namespace LiebeOS

open MachineInt Bytes

def liebeOsMaxProgramAllocations : Nat := 1024

/-- A slot without an allocation holds the null pointer. -/
structure ProcessAllocation where
  ptr : Nat
  size : Nat

/-- `directory` is the page directory of the process's task. -/
structure ProcessMemory where
  directory : Nat
  allocations : Nat → ProcessAllocation

def processFindFreeAllocationIndex (process : ProcessMemory) : Int :=
  match (List.range liebeOsMaxProgramAllocations).find? fun i =>
      decide ((process.allocations i).ptr = 0) with
  | some i => i
  | none => -enomem

def processMalloc (k : KernelMemory) (process : ProcessMemory) (size : Nat) :
    Nat × KernelMemory × ProcessMemory :=
  let (ptr, k) := kzalloc k size
  if ptr = 0 then (0, k, process)
  else
    let index := processFindFreeAllocationIndex process
    if index < 0 then (0, kfree k ptr, process)
    else
      let (res, mem) := pagingMapTo k.mem process.directory ptr ptr
        (pagingAlignAddress (behind ptr size))
        (pagingIsWriteable ||| pagingIsPresent ||| pagingAccessFromAll)
      if res < 0 then (0, kfree { k with mem := mem } ptr, process)
      else
        (ptr, { k with mem := mem }, { process with
          allocations := Function.update process.allocations index.toNat ⟨ptr, size⟩ })

/-- Every slot of the process is occupied. -/
def SlotsTaken (process : ProcessMemory) : Prop :=
  ∀ i < liebeOsMaxProgramAllocations, (process.allocations i).ptr ≠ 0

/-- A refused request has changed nothing. -/
structure MallocRefused (k : KernelMemory) (process : ProcessMemory) (k' : KernelMemory)
    (process' : ProcessMemory) : Prop where
  saddr : k'.heap.saddr = k.heap.saddr
  total : k'.heap.table.total = k.heap.table.total
  entries : k'.heap.table.entries = k.heap.table.entries
  slots : process' = process
  pages : Remapped k.mem k'.mem process.directory (pagingGet k.mem process.directory)

/-- A granted request has taken the blocks from `b` on, mapped their pages to
themselves and filled slot `i`, and changed nothing more. -/
structure MallocGranted (k : KernelMemory) (process : ProcessMemory) (size ptr : Nat)
    (k' : KernelMemory) (process' : ProcessMemory) (b : Int) (i : Nat) : Prop where
  address : ptr = heapBlockToAddress k.heap b ∧ ptr % 4096 = 0 ∧ ptr ≠ 0
  free : FreeBlocks k.heap b (blocksOf size)
  taken : MarkedRun k'.heap.table.entries b (blocksOf size)
  others : ∀ j, j < b ∨ b + blocksOf size ≤ j →
    k'.heap.table.entries j = k.heap.table.entries j
  saddr : k'.heap.saddr = k.heap.saddr
  total : k'.heap.table.total = k.heap.table.total
  slot : i < liebeOsMaxProgramAllocations ∧ (process.allocations i).ptr = 0
  stored : process' =
    { process with allocations := Function.update process.allocations i ⟨ptr, size⟩ }
  pages : Remapped k.mem k'.mem process.directory fun v =>
    if ptr ≤ v ∧ v < ptr + 4096 * blocksOf size then
      v ||| (pagingIsWriteable ||| pagingIsPresent ||| pagingAccessFromAll)
    else pagingGet k.mem process.directory v

section Slots

variable {process : ProcessMemory}

/-- The search ends at an empty slot, unless there is none. -/
theorem processFindFreeAllocationIndex_cases (process : ProcessMemory) :
    (SlotsTaken process ∧ processFindFreeAllocationIndex process = -enomem) ∨
      ∃ i, i < liebeOsMaxProgramAllocations ∧ (process.allocations i).ptr = 0 ∧
        processFindFreeAllocationIndex process = i := by
  unfold processFindFreeAllocationIndex
  rcases Slots.find_cases (fun i => (process.allocations i).ptr = 0) liebeOsMaxProgramAllocations
    with ⟨hTaken, hFind⟩ | ⟨i, hi, hEmpty, hFind⟩
  · rw [hFind]
    exact Or.inl ⟨hTaken, rfl⟩
  · rw [hFind]
    exact Or.inr ⟨i, hi, hEmpty, rfl⟩

end Slots

/-- The pages of a request end behind its last block. -/
theorem pagingAlignAddress_request {p size : Nat} (hPage : p % 4096 = 0) (hSize : 1 ≤ size)
    (hEnd : p + 4096 * blocksOf size ≤ 0x07400000) :
    pagingAlignAddress (behind p size) = p + 4096 * blocksOf size := by
  unfold blocksOf at hEnd ⊢
  rw [behind_of_lt (by omega), pagingAlignAddress_eq (by omega)]
  omega

section Malloc

variable {k : KernelMemory} {process : ProcessMemory} {table : Nat → Nat} {size : Nat}

/-- What is mapped for the process are the pages of the blocks. -/
theorem AddressSpace.mapBlocks {b : Int} (h : AddressSpace k process.directory table)
    (hSize : 1 ≤ size) (hBlocks : FreeBlocks k.heap b (blocksOf size)) {flags : Nat}
    (hFlags : flags < 4096) :
    ∃ mem', pagingMapTo (storeRange k.mem (heapBlockToAddress k.heap b) size fun _ => 0)
        process.directory (heapBlockToAddress k.heap b) (heapBlockToAddress k.heap b)
        (pagingAlignAddress (behind (heapBlockToAddress k.heap b) size)) flags = (0, mem') ∧
      TablesOnly table (storeRange k.mem (heapBlockToAddress k.heap b) size fun _ => 0) mem' ∧
      Remapped k.mem mem' process.directory fun v =>
        if heapBlockToAddress k.heap b ≤ v ∧
            v < heapBlockToAddress k.heap b + 4096 * blocksOf size then v ||| flags
        else pagingGet k.mem process.directory v := by
  obtain ⟨hPage, _, hEnd, _⟩ := hBlocks.address h.heap (blocksOf_pos size)
  obtain ⟨hTables, hCleared⟩ := h.held.remapped h.heap h.tables hBlocks (blocksOf_pos size)
    (blocksOf_covers size) fun _ => 0
  obtain ⟨mem', hRun, hOnly, hMaps⟩ := hTables.maps.mapSelf hFlags hPage
    (show heapBlockToAddress k.heap b + 4096 * blocksOf size < 4294967296 by omega)
  rw [pagingAlignAddress_request hPage hSize hEnd]
  refine ⟨mem', hRun, hOnly,
    (hCleared.trans (hMaps.remapped hTables hOnly)).congr fun v hv hAligned => ?_⟩
  rw [hCleared.entries v hv hAligned]

/-- A request for which the heap has given blocks. Without a slot for it the blocks
are given back, otherwise they are mapped. -/
theorem processMalloc_of_grant {b : Int} (h : AddressSpace k process.directory table)
    (hSize : 1 ≤ size) (hBlocks : FreeBlocks k.heap b (blocksOf size))
    (hGrant : kzalloc k size = (heapBlockToAddress k.heap b,
      ⟨heapMarkBlocksTaken k.heap b (blocksOf size),
        storeRange k.mem (heapBlockToAddress k.heap b) size fun _ => 0⟩)) :
    (SlotsTaken process ∧ processMalloc k process size =
        (0, kfree ⟨heapMarkBlocksTaken k.heap b (blocksOf size),
          storeRange k.mem (heapBlockToAddress k.heap b) size fun _ => 0⟩
            (heapBlockToAddress k.heap b), process)) ∨
      ∃ i mem', i < liebeOsMaxProgramAllocations ∧ (process.allocations i).ptr = 0 ∧
        processMalloc k process size = (heapBlockToAddress k.heap b,
          ⟨heapMarkBlocksTaken k.heap b (blocksOf size), mem'⟩,
          { process with allocations :=
            Function.update process.allocations i ⟨heapBlockToAddress k.heap b, size⟩ }) ∧
        TablesOnly table (storeRange k.mem (heapBlockToAddress k.heap b) size fun _ => 0) mem' ∧
        Remapped k.mem mem' process.directory fun v =>
          if heapBlockToAddress k.heap b ≤ v ∧
              v < heapBlockToAddress k.heap b + 4096 * blocksOf size then
            v ||| (pagingIsWriteable ||| pagingIsPresent ||| pagingAccessFromAll)
          else pagingGet k.mem process.directory v := by
  obtain ⟨_, hLow, _, _⟩ := hBlocks.address h.heap (blocksOf_pos size)
  have hNull : heapBlockToAddress k.heap b ≠ 0 := by omega
  simp only [processMalloc, hGrant, if_neg hNull]
  rcases processFindFreeAllocationIndex_cases process with
    ⟨hTaken, hIndex⟩ | ⟨i, hi, hEmpty, hIndex⟩
  · rw [hIndex, if_pos (by decide)]
    exact Or.inl ⟨hTaken, rfl⟩
  · obtain ⟨mem', hMapped, hOnly, hPages⟩ := h.mapBlocks hSize hBlocks
      (show pagingIsWriteable ||| pagingIsPresent ||| pagingAccessFromAll < 4096 by decide)
    rw [hIndex, if_neg (by omega), hMapped, if_neg (Int.lt_irrefl 0)]
    exact Or.inr ⟨i, mem', hi, hEmpty, rfl, hOnly, hPages⟩

/-- A request for which there is room is refused if all slots are occupied, and
granted otherwise. Either way it is done completely or not at all. -/
theorem processMalloc_allOrNothing (h : AddressSpace k process.directory table) (hSize : 1 ≤ size)
    (hRun : HasRun k.heap size) :
    ∃ ptr k' process', processMalloc k process size = (ptr, k', process') ∧
      ((SlotsTaken process ∧ ptr = 0 ∧ MallocRefused k process k' process') ∨
        (¬ SlotsTaken process ∧ ∃ b i, MallocGranted k process size ptr k' process' b i)) := by
  obtain ⟨b, hBlocks, hGrant⟩ := kzalloc_of_run h.heap hSize hRun
  obtain ⟨hPage, hLow, _, _⟩ := hBlocks.address h.heap (blocksOf_pos size)
  rcases processMalloc_of_grant h hSize hBlocks hGrant with
    ⟨hTaken, hRequest⟩ | ⟨i, mem', hi, hEmpty, hRequest, _, hPages⟩
  · have hCleared := (h.held.remapped h.heap h.tables hBlocks (blocksOf_pos size)
      (blocksOf_covers size) fun _ => 0).2
    exact ⟨_, _, _, hRequest, Or.inl ⟨hTaken, rfl,
      { saddr := rfl
        total := by
          rw [kfree, (heapFree_shape _ _).2, heapMarkBlocksTaken_total]
        entries := heapFree_of_run h.heap h.clear hBlocks (blocksOf_pos size)
        slots := rfl
        pages := hCleared }⟩⟩
  · exact ⟨_, _, _, hRequest, Or.inr ⟨fun hTaken => hTaken i hi hEmpty, b, i,
      { address := ⟨rfl, hPage, by omega⟩
        free := hBlocks
        taken := heapMarkBlocksTaken_markedRun k.heap b (blocksOf_pos size)
        others := fun j hj => heapMarkBlocksTaken_entries_outside k.heap hj
        saddr := rfl
        total := heapMarkBlocksTaken_total ..
        slot := ⟨hi, hEmpty⟩
        stored := rfl
        pages := hPages }⟩⟩

/-- Two pages for the first process, which has no allocation yet. -/
theorem processMalloc_allOrNothing_first :
    ∃ ptr k' process' b i,
      processMalloc firstTask ⟨0x01000000, fun _ => ⟨0, 0⟩⟩ 5000 = (ptr, k', process') ∧
        MallocGranted firstTask ⟨0x01000000, fun _ => ⟨0, 0⟩⟩ 5000 ptr k' process' b i := by
  have hRun : HasRun firstTask.heap 5000 := firstTask_hasRun (by decide)
  obtain ⟨ptr, k', process', hRequest, ⟨hTaken, _⟩ | ⟨_, b, i, hGranted⟩⟩ :=
    @processMalloc_allOrNothing firstTask ⟨0x01000000, fun _ => ⟨0, 0⟩⟩ _ 5000 firstTask_space
      (by decide) hRun
  · exact absurd rfl (hTaken 0 (by decide))
  · exact ⟨ptr, k', process', b, i, hRequest, hGranted⟩

end Malloc

end LiebeOS
