import LiebeOS.Lib.Run
import LiebeOS.Memory.PageDirectory
import LiebeOS.Task.ProcessMemory

/-! What a process gives back. `process_free` is called with whatever pointer the
process has: it looks for the slot that holds the pointer, and an empty slot holds
the null pointer. -/
namespace LiebeOS

open MachineInt Bytes Transition

def isCurrentProcessPtr (process : ProcessMemory) (ptr : Nat) : Int :=
  match (List.range liebeOsMaxProgramAllocations).find? fun i =>
      decide ((process.allocations i).ptr = ptr) with
  | some i => i
  | none => -1

def processFree (k : KernelMemory) (process : ProcessMemory) (ptr : Nat) :
    KernelMemory × ProcessMemory :=
  let allocationIdx := isCurrentProcessPtr process ptr
  if allocationIdx < 0 then (k, process)
  else
    let allocation := process.allocations allocationIdx.toNat
    let (res, mem) := pagingMapTo k.mem process.directory allocation.ptr allocation.ptr
      (pagingAlignAddress (behind allocation.ptr allocation.size)) 0x00
    if res < 0 then ({ k with mem := mem }, process)
    else
      (kfree { k with mem := mem } ptr, { process with
        allocations := Function.update process.allocations allocationIdx.toNat ⟨0, 0⟩ })

/-- The kernel's memory, the allocations that have not been given back, and the
processes by their numbers. -/
structure AllocationRun where
  k : KernelMemory
  live : List Allocation
  processes : Nat → Option ProcessMemory

/-- Who has use for an allocation: a page directory, a table of it, or a slot of a
process. -/
inductive Owner where
  | directory (i : Nat)
  | table (i d : Nat)
  | slot (i n : Nat)

/-- The address that belongs to the owner. -/
def Owns (s : AllocationRun) : Owner → Nat → Prop
  | .directory i, q => ∃ p, s.processes i = some p ∧ q = p.directory
  | .table i d, q => ∃ p, s.processes i = some p ∧ d < 1024 ∧
      q = directoryTables s.k.mem p.directory d
  | .slot i n, q => ∃ p, s.processes i = some p ∧ n < liebeOsMaxProgramAllocations ∧
      q = (p.allocations n).ptr ∧ q ≠ 0

/-- The kernel requests memory for itself or gives it back, or stores something in
it; a process is started or ends; a process requests memory or gives it back. -/
inductive AllocationEvent where
  | kmalloc (size : Nat)
  | kfree (ptr : Nat)
  | kfreeNull
  | write (mem : Memory)
  | start (i : Nat)
  | finish (i : Nat)
  | malloc (i size : Nat)
  | free (i ptr : Nat)

/-- The allocation with this pointer has been given back. -/
def released (live : List Allocation) (ptr : Nat) : List Allocation :=
  live.eraseP fun a => decide (a.ptr = ptr)

/-- The pages of a new directory, and the one with the record of it. -/
def directoryAllocations (mem : Memory) (chunk directory : Nat) : List Allocation :=
  (chunk :: directoryPages directory 1024 (directoryTables mem directory)).map fun p => ⟨p, 4096⟩

/-- One event. The words of page directories are written by nobody else, and
the kernel gives back what belongs to none of the processes. What has been taken
for a directory that could not be completed stays taken, and a process that has
ended leaves its allocations to the kernel. -/
inductive AllocationStep : AllocationRun → AllocationEvent → AllocationRun → Prop where
  | kmalloc (s : AllocationRun) (size : Nat) (hSize : size < 4294967296) :
      AllocationStep s (.kmalloc size)
        { s with
          k := (kmalloc s.k size).2
          live := if (kmalloc s.k size).1 = 0 then s.live else ⟨(kmalloc s.k size).1, size⟩ :: s.live }
  | kfree (s : AllocationRun) (ptr : Nat) (hLive : ∃ a ∈ s.live, a.ptr = ptr)
      (hFree : ∀ o, ¬ Owns s o ptr) :
      AllocationStep s (.kfree ptr) { s with k := kfree s.k ptr, live := released s.live ptr }
  | kfreeNull (s : AllocationRun) : AllocationStep s .kfreeNull { s with k := kfree s.k 0 }
  | write (s : AllocationRun) (mem : Memory)
      (hApart : ∀ i p, s.processes i = some p → ∀ x < 4294967296, x / 4096 * 4096 = p.directory →
        mem x = s.k.mem x) :
      AllocationStep s (.write mem) { s with k := { s.k with mem := mem } }
  | start (s : AllocationRun) (i chunk : Nat) (k : KernelMemory) (hNew : s.processes i = none)
      (hDirectory : createNewPageDirectory s.k (pagingIsPresent ||| pagingAccessFromAll) = (chunk, k))
      (hGranted : chunk ≠ 0) :
      AllocationStep s (.start i)
        { k := k
          live := directoryAllocations k.mem chunk (getPageDirectoryEntry k.mem chunk) ++ s.live
          processes := Function.update s.processes i
            (some ⟨getPageDirectoryEntry k.mem chunk, fun _ => ⟨0, 0⟩⟩) }
  | startRefused (s : AllocationRun) (i : Nat) (k : KernelMemory) (hNew : s.processes i = none)
      (hDirectory : createNewPageDirectory s.k (pagingIsPresent ||| pagingAccessFromAll) = (0, k)) :
      AllocationStep s (.start i) { s with k := k }
  | finish (s : AllocationRun) (i : Nat) :
      AllocationStep s (.finish i) { s with processes := Function.update s.processes i none }
  | malloc (s : AllocationRun) (i size ptr : Nat) (k : KernelMemory) (p p' : ProcessMemory)
      (hProcess : s.processes i = some p) (hSize : size < 4294967296)
      (hRequest : processMalloc s.k p size = (ptr, k, p')) :
      AllocationStep s (.malloc i size)
        { k := k
          live := if ptr = 0 then s.live else ⟨ptr, size⟩ :: s.live
          processes := Function.update s.processes i (some p') }
  | free (s : AllocationRun) (i ptr : Nat) (k : KernelMemory) (p p' : ProcessMemory)
      (hProcess : s.processes i = some p) (hRelease : processFree s.k p ptr = (k, p')) :
      AllocationStep s (.free i ptr)
        { k := k
          live := if isCurrentProcessPtr p ptr < 0 ∨ ptr = 0 then s.live else released s.live ptr
          processes := Function.update s.processes i (some p') }

/-- The condition under which an event meets none of the heap's defects. -/
def AllocationFits (s : AllocationRun) : AllocationEvent → Prop
  | .kmalloc size => RequestFits s.k.heap.table size
  | .malloc _ size => RequestFits s.k.heap.table size
  | .kfreeNull => NullFreeMisses s.k.heap
  | .free i ptr => ptr ≠ 0 ∨ NullFreeMisses s.k.heap ∨
      ∀ p, s.processes i = some p → SlotsTaken p
  | _ => True

/-- The pages of other processes are mapped as before. -/
def OthersMapped (s : AllocationRun) (i : Nat) (mem : Memory) : Prop :=
  ∀ j p, j ≠ i → s.processes j = some p →
    Remapped s.k.mem mem p.directory (pagingGet s.k.mem p.directory)

/-- What is promised when the pointer is that of slot `n`. An entry without flags
is not present. -/
structure SlotReleased (s : AllocationRun) (i : Nat) (p : ProcessMemory) (n : Nat)
    (k' : KernelMemory) (p' : ProcessMemory) : Prop where
  marked : MarkedRun s.k.heap.table.entries (heapAddressToBlock s.k.heap (p.allocations n).ptr)
    (blocksOf (p.allocations n).size)
  entries : ∀ j, k'.heap.table.entries j =
    if heapAddressToBlock s.k.heap (p.allocations n).ptr ≤ j ∧
        j < heapAddressToBlock s.k.heap (p.allocations n).ptr + blocksOf (p.allocations n).size then
      heapBlockTableEntryFree
    else s.k.heap.table.entries j
  pages : Remapped s.k.mem k'.mem p.directory fun v =>
    if (p.allocations n).ptr ≤ v ∧
        v < (p.allocations n).ptr + 4096 * blocksOf (p.allocations n).size then v
    else pagingGet s.k.mem p.directory v
  others : OthersMapped s i k'.mem
  slots : p' = { p with allocations := Function.update p.allocations n ⟨0, 0⟩ }

/-- What is promised for any other pointer. -/
structure NothingReleased (s : AllocationRun) (i : Nat) (p : ProcessMemory) (k' : KernelMemory)
    (p' : ProcessMemory) : Prop where
  entries : k'.heap.table.entries = s.k.heap.table.entries
  pages : Remapped s.k.mem k'.mem p.directory (pagingGet s.k.mem p.directory)
  others : OthersMapped s i k'.mem
  slots : p' = p

/-- The promise for one call. The entries that are read are those that are stored
to. -/
structure FreeCorrect (s : AllocationRun) (i : Nat) (p : ProcessMemory) (ptr : Nat) : Prop where
  inside : ∃ stores, (processFree s.k p ptr).1.heap.table.written =
      stores ++ s.k.heap.table.written ∧ ∀ j ∈ stores, 0 ≤ j ∧ j < s.k.heap.table.total
  released : ptr ≠ 0 → ∀ n < liebeOsMaxProgramAllocations, (p.allocations n).ptr = ptr →
    SlotReleased s i p n (processFree s.k p ptr).1 (processFree s.k p ptr).2
  unchanged : (ptr = 0 ∨ ∀ n < liebeOsMaxProgramAllocations, (p.allocations n).ptr ≠ ptr) →
    NothingReleased s i p (processFree s.k p ptr).1 (processFree s.k p ptr).2

/-- A search that finds something finds the pointer. -/
theorem isCurrentProcessPtr_cases (process : ProcessMemory) (ptr : Nat) :
    (isCurrentProcessPtr process ptr = -1 ∧
        ∀ n < liebeOsMaxProgramAllocations, (process.allocations n).ptr ≠ ptr) ∨
      ∃ n : Nat, isCurrentProcessPtr process ptr = n ∧ n < liebeOsMaxProgramAllocations ∧
        (process.allocations n).ptr = ptr := by
  unfold isCurrentProcessPtr
  rcases Slots.find_cases (fun i => (process.allocations i).ptr = ptr) liebeOsMaxProgramAllocations
    with ⟨hNone, hFind⟩ | ⟨n, hn, hSame, hFind⟩
  · rw [hFind]
    exact Or.inl ⟨rfl, hNone⟩
  · rw [hFind]
    exact Or.inr ⟨n, rfl, hn, hSame⟩

/-! ### The invariant of a run -/

/-- Every directory, table and slot has an allocation of its own. -/
structure AllocationInv (s : AllocationRun) : Prop where
  kernel : KernelHeap s.k.heap
  clear : FreeClear s.k.heap
  safe : HeapInv 25600 ⟨s.k.heap, s.live⟩
  owned : ∀ o q, Owns s o q → ∃ a ∈ s.live, a.ptr = q
  unique : ∀ o o' q, Owns s o q → Owns s o' q → o = o'
  slots : ∀ i p n, s.processes i = some p → n < liebeOsMaxProgramAllocations →
    (p.allocations n).ptr ≠ 0 →
      1 ≤ (p.allocations n).size ∧ ⟨(p.allocations n).ptr, (p.allocations n).size⟩ ∈ s.live
  empty : ∀ i p n, s.processes i = some p → n < liebeOsMaxProgramAllocations →
    (p.allocations n).ptr = 0 → (p.allocations n).size = 0

section Invariant

variable {s : AllocationRun} {i j n : Nat} {p p' : ProcessMemory} {mem : Memory}

theorem AllocationInv.held (h : AllocationInv s) {o : Owner} {q : Nat} (hOwns : Owns s o q) :
    Held s.k.heap q := by
  obtain ⟨a, ha, rfl⟩ := h.owned o q hOwns
  have hInside : 0 ≤ a.block s.k.heap ∧ a.block s.k.heap + blocksOf a.size ≤ 25600 :=
    h.safe.inside a ha
  have hTotal := h.kernel.total_eq
  have hPositive := blocksOf_pos a.size
  have hMarked : MarkedRun s.k.heap.table.entries (a.block s.k.heap) (blocksOf a.size) :=
    h.safe.marked a ha
  exact ⟨a.block s.k.heap, ⟨hInside.1, by omega⟩, h.safe.address a ha,
    (hMarked.2 _ (Int.le_refl _) (by omega)).1⟩

/-- What a process owns is a directory with its tables. -/
theorem AllocationInv.space (h : AllocationInv s) (hp : s.processes i = some p) :
    AddressSpace s.k p.directory (directoryTables s.k.mem p.directory) := by
  have hDirectory : Owns s (.directory i) p.directory := ⟨p, hp, rfl⟩
  have hTable : ∀ d < 1024, Owns s (.table i d) (directoryTables s.k.mem p.directory d) :=
    fun d hd => ⟨p, hp, hd, rfl⟩
  obtain ⟨hAligned, _, hHigh⟩ := (h.held hDirectory).page h.kernel
  exact
    { heap := h.kernel
      clear := h.clear
      tables :=
        { aligned := hAligned
          lt := by omega
          entry := fun _ _ => rfl
          apart := fun d hd hSame => by
            have hOther := h.unique _ _ _ (hTable d hd) (hSame ▸ hDirectory)
            cases hOther
          distinct := fun d hd e he hSame => by
            have hOther := h.unique _ _ _ (hTable d hd) (hSame ▸ hTable e he)
            cases hOther
            rfl }
      held := ⟨h.held hDirectory, fun d hd => h.held (hTable d hd)⟩ }

/-- No table of a process is a page of another one. -/
theorem AllocationInv.tables_apart (h : AllocationInv s) (hp : s.processes i = some p)
    (hp' : s.processes j = some p') (hOther : j ≠ i) {x : Nat}
    (hx : x / 4096 * 4096 = p'.directory ∨
      InTables (directoryTables s.k.mem p'.directory) x) :
    ¬ InTables (directoryTables s.k.mem p.directory) x := by
  rintro ⟨d, hd, hTable⟩
  have hMine : Owns s (.table i d) (x / 4096 * 4096) := ⟨p, hp, hd, hTable⟩
  rcases hx with hDirectory | ⟨e, he, hTable'⟩
  · have hSame := h.unique _ _ _ hMine (show Owns s (.directory j) _ from ⟨p', hp', hDirectory⟩)
    cases hSame
  · have hSame := h.unique _ _ _ hMine (show Owns s (.table j e) _ from ⟨p', hp', he, hTable'⟩)
    cases hSame
    exact hOther rfl

/-- The pointer of a slot is found in that slot. -/
theorem AllocationInv.found (h : AllocationInv s) (hp : s.processes i = some p)
    (hn : n < liebeOsMaxProgramAllocations) (hPtr : (p.allocations n).ptr ≠ 0) :
    isCurrentProcessPtr p (p.allocations n).ptr = n := by
  rcases isCurrentProcessPtr_cases p (p.allocations n).ptr with
    ⟨_, hNone⟩ | ⟨m, hIndex, hm, hSame⟩
  · exact absurd rfl (hNone n hn)
  · have hMine : Owns s (.slot i n) (p.allocations n).ptr := ⟨p, hp, hn, rfl, hPtr⟩
    have hFound : Owns s (.slot i m) (p.allocations n).ptr := ⟨p, hp, hm, hSame.symm, hPtr⟩
    have hOwner := h.unique _ _ _ hMine hFound
    cases hOwner
    exact hIndex

/-- Where the allocation of a slot is. -/
theorem AllocationInv.slot_page (h : AllocationInv s) (hp : s.processes i = some p)
    (hn : n < liebeOsMaxProgramAllocations) (hPtr : (p.allocations n).ptr ≠ 0) :
    (p.allocations n).ptr % 4096 = 0 ∧
      (p.allocations n).ptr + 4096 * blocksOf (p.allocations n).size ≤ 0x07400000 ∧
      0 ≤ heapAddressToBlock s.k.heap (p.allocations n).ptr ∧
      heapAddressToBlock s.k.heap (p.allocations n).ptr + blocksOf (p.allocations n).size ≤ 25600 ∧
      MarkedRun s.k.heap.table.entries (heapAddressToBlock s.k.heap (p.allocations n).ptr)
        (blocksOf (p.allocations n).size) := by
  have hLive := (h.slots i p n hp hn hPtr).2
  have hInside := h.safe.inside _ hLive
  have hAddress := h.safe.address _ hLive
  have hMarked := h.safe.marked _ hLive
  have hTotal := h.kernel.total_eq
  have hPositive := blocksOf_pos (p.allocations n).size
  unfold Allocation.block at hInside hAddress hMarked
  dsimp only at hInside hAddress hMarked
  have hPlace := h.kernel.address
    (show InHeap s.k.heap (heapAddressToBlock s.k.heap (p.allocations n).ptr) from
      ⟨hInside.1, by omega⟩)
  rw [← hAddress] at hPlace
  exact ⟨by omega, by omega, hInside.1, hInside.2, hMarked⟩

/-- The call with the pointer of a slot: the pages are taken from the process, and
the blocks are given back. -/
theorem AllocationInv.processFree_slot (h : AllocationInv s) (hp : s.processes i = some p)
    (hn : n < liebeOsMaxProgramAllocations) (hPtr : (p.allocations n).ptr ≠ 0) :
    ∃ mem, processFree s.k p (p.allocations n).ptr =
        (⟨heapFree s.k.heap (p.allocations n).ptr, mem⟩,
          { p with allocations := Function.update p.allocations n ⟨0, 0⟩ }) ∧
      TablesOnly (directoryTables s.k.mem p.directory) s.k.mem mem ∧
      Remapped s.k.mem mem p.directory fun v =>
        if (p.allocations n).ptr ≤ v ∧
            v < (p.allocations n).ptr + 4096 * blocksOf (p.allocations n).size then v
        else pagingGet s.k.mem p.directory v := by
  obtain ⟨hPage, hEnd, _⟩ := h.slot_page hp hn hPtr
  have hTables := (h.space hp).tables
  obtain ⟨mem, hRun, hOnly, hMaps⟩ := hTables.maps.mapSelf (show 0 < 4096 by decide) hPage
    (show (p.allocations n).ptr + 4096 * blocksOf (p.allocations n).size < 4294967296 by omega)
  rw [← pagingAlignAddress_request hPage (h.slots i p n hp hn hPtr).1 hEnd] at hRun
  refine ⟨mem, ?_, hOnly, (hMaps.remapped hTables hOnly).congr fun v _ _ => ?_⟩
  · rw [processFree, h.found hp hn hPtr]
    simp only [Int.toNat_natCast, hRun]
    rw [if_neg (by omega), if_neg (Int.lt_irrefl 0)]
    rfl
  · rw [Nat.or_zero]

/-- Tables of one process change, and what the others see stays. -/
theorem AllocationInv.others (h : AllocationInv s) (hp : s.processes i = some p)
    (hOnly : TablesOnly (directoryTables s.k.mem p.directory) s.k.mem mem) : OthersMapped s i mem :=
  fun _ _ hOther hp' => ((h.space hp').tables.remapped fun x hx hBelongs =>
    hOnly x hx (h.tables_apart hp hp' hOther hBelongs)).2

theorem AllocationInv.slotReleased (h : AllocationInv s) (hp : s.processes i = some p)
    (hn : n < liebeOsMaxProgramAllocations) (hPtr : (p.allocations n).ptr ≠ 0) :
    SlotReleased s i p n (processFree s.k p (p.allocations n).ptr).1
      (processFree s.k p (p.allocations n).ptr).2 := by
  obtain ⟨mem, hRun, hOnly, hPages⟩ := h.processFree_slot hp hn hPtr
  obtain ⟨_, _, _, hHigh, hMarked⟩ := h.slot_page hp hn hPtr
  obtain ⟨hCleared, hKept, _⟩ :=
    heapFree_marked (by rw [h.kernel.total_eq]; exact hHigh) hMarked
  rw [hRun]
  refine ⟨hMarked, fun j => ?_, hPages, h.others hp hOnly, rfl⟩
  by_cases hIn : heapAddressToBlock s.k.heap (p.allocations n).ptr ≤ j ∧
      j < heapAddressToBlock s.k.heap (p.allocations n).ptr + blocksOf (p.allocations n).size
  · rw [if_pos hIn]
    exact hCleared j hIn.1 hIn.2
  · rw [if_neg hIn]
    exact hKept j (by omega)

end Invariant

/-- The loop that clears entries stores to its first one, and to none in front of
it or behind the last one. -/
theorem heapFreeLoop_stores (left : Nat) (i : Int) (t : HeapTable) :
    ∃ stores, (heapFreeLoop left i t).written = stores ++ t.written ∧
      (∀ j ∈ stores, i ≤ j ∧ j < i + left) ∧ (1 ≤ left → i ∈ stores) := by
  induction left generalizing i t with
  | zero => exact ⟨[], rfl, fun j hj => absurd hj List.not_mem_nil, fun h => absurd h (by omega)⟩
  | succ left ih =>
      rw [heapFreeLoop]
      by_cases hNext : entryHasNext (t.entries i) = true
      · obtain ⟨stores, hWritten, hInside, _⟩ := ih (i + 1) (t.store i heapBlockTableEntryFree)
        rw [if_neg (by simp [hNext])]
        refine ⟨stores ++ [i], ?_, fun j hj => ?_, fun _ => ?_⟩
        · rw [hWritten, HeapTable.store_written, List.append_assoc]
          rfl
        · rcases List.mem_append.mp hj with hLater | hFirst
          · have hRange := hInside j hLater
            omega
          · have hSame := List.mem_singleton.mp hFirst
            omega
        · exact List.mem_append_right _ (List.mem_singleton_self i)
      · rw [if_pos (by simp [hNext])]
        refine ⟨[i], rfl, fun j hj => ?_, fun _ => List.mem_singleton_self i⟩
        have hSame := List.mem_singleton.mp hj
        omega

section Free

variable {s : AllocationRun} {i n ptr : Nat} {p : ProcessMemory}

theorem processFree_unknown (k : KernelMemory)
    (h : isCurrentProcessPtr p ptr = -1) : processFree k p ptr = (k, p) := by
  rw [processFree, h]
  exact if_pos (by decide)

/-- The pages of an empty slot are none: what is given back is the null pointer. -/
theorem AllocationInv.processFree_null (h : AllocationInv s) (hp : s.processes i = some p)
    (hn : n < liebeOsMaxProgramAllocations) (hEmpty : (p.allocations n).ptr = 0)
    (hFound : isCurrentProcessPtr p 0 = n) : processFree s.k p 0 = (kfree s.k 0, p) := by
  have hSize := h.empty i p n hp hn hEmpty
  have hSlot : p.allocations n = ⟨0, 0⟩ :=
    calc p.allocations n
      _ = ⟨(p.allocations n).ptr, (p.allocations n).size⟩ := rfl
      _ = ⟨0, 0⟩ := by rw [hEmpty, hSize]
  have hMapped : pagingMapTo s.k.mem p.directory 0 0 (pagingAlignAddress (behind 0 0)) 0 =
      (0, s.k.mem) := rfl
  have hNoSlot : Function.update p.allocations n ⟨0, 0⟩ = p.allocations := by
    rw [← hSlot]
    exact Function.update_eq_self n p.allocations
  rw [processFree, hFound]
  simp only [Int.toNat_natCast, hSlot, hMapped, hNoSlot]
  rw [if_neg (by omega), if_neg (Int.lt_irrefl 0)]

/-- Giving back stores to entries of the table, as long as the pointer is that of a
block. -/
theorem heapFree_inside {heap : Heap} (hLow : 0 ≤ heapAddressToBlock heap ptr) :
    ∃ stores, (heapFree heap ptr).table.written = stores ++ heap.table.written ∧
      ∀ j ∈ stores, 0 ≤ j ∧ j < heap.table.total := by
  obtain ⟨stores, hWritten, hInside, _⟩ := heapFreeLoop_stores
    ((heap.table.total : Int) - heapAddressToBlock heap ptr).toNat (heapAddressToBlock heap ptr)
    heap.table
  refine ⟨stores, hWritten, fun j hj => ?_⟩
  have hRange := hInside j hj
  omega

/-- Giving back the null pointer stores in front of the table. -/
theorem KernelHeap.free_null {heap : Heap} (h : KernelHeap heap) :
    ∃ stores, (heapFree heap 0).table.written = stores ++ heap.table.written ∧ (-4096) ∈ stores := by
  obtain ⟨stores, hWritten, _, hFirst⟩ := heapFreeLoop_stores
    ((heap.table.total : Int) - heapAddressToBlock heap 0).toNat (heapAddressToBlock heap 0)
    heap.table
  rw [h.null] at hFirst
  exact ⟨stores, hWritten, hFirst (by omega)⟩

theorem nothingReleased_same : NothingReleased s i p s.k p where
  entries := rfl
  pages := ⟨fun _ _ => rfl, fun _ _ _ => rfl⟩
  others _ _ _ _ := ⟨fun _ _ => rfl, fun _ _ _ => rfl⟩
  slots := rfl

/-- One call keeps the promise unless it takes an empty slot for an allocation. -/
theorem AllocationInv.freeCorrect_iff (h : AllocationInv s) (hp : s.processes i = some p) :
    FreeCorrect s i p ptr ↔ ptr ≠ 0 ∨ SlotsTaken p := by
  rcases isCurrentProcessPtr_cases p ptr with ⟨hUnknown, hNone⟩ | ⟨n, hFound, hn, hPtr⟩
  · have hSame := processFree_unknown s.k hUnknown
    have hCorrect : FreeCorrect s i p ptr :=
      { inside := ⟨[], by rw [hSame]; rfl, fun _ hj => absurd hj List.not_mem_nil⟩
        released := fun _ n hn hPtr => absurd hPtr (hNone n hn)
        unchanged := fun _ => by
          rw [hSame]
          exact nothingReleased_same }
    refine iff_of_true hCorrect ?_
    by_cases hNull : ptr = 0
    · exact Or.inr fun n hn => hNull ▸ hNone n hn
    · exact Or.inl hNull
  · by_cases hNull : ptr = 0
    · subst hNull
      refine iff_of_false (fun hCorrect => ?_) (by
        rintro (hNonNull | hTaken)
        · exact hNonNull rfl
        · exact hTaken n hn hPtr)
      obtain ⟨stores, hWritten, hInside⟩ := hCorrect.inside
      obtain ⟨stores', hWritten', hFirst⟩ := h.kernel.free_null
      rw [h.processFree_null hp hn hPtr hFound] at hWritten
      have hSame := List.append_cancel_right (hWritten.symm.trans hWritten')
      have hLow := (hInside _ (hSame ▸ hFirst)).1
      omega
    · subst hPtr
      refine iff_of_true ?_ (Or.inl hNull)
      obtain ⟨_, _, hLow, _⟩ := h.slot_page hp hn hNull
      obtain ⟨mem, hRun, _⟩ := h.processFree_slot hp hn hNull
      refine
        { inside := ?_
          released := fun _ m hm hSame => ?_
          unchanged := fun hOther => ?_ }
      · rw [hRun]
        exact heapFree_inside hLow
      · rw [← hSame]
        exact h.slotReleased hp hm (hSame ▸ hNull)
      · rcases hOther with hZero | hNone
        · exact absurd hZero hNull
        · exact absurd rfl (hNone n hn)

end Free

end LiebeOS
