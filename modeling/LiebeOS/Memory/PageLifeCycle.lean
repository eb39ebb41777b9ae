import LiebeOS.Memory.PageDirectory

/-! The life of a page directory, from `create_new_page_directory` over any
mappings to `paging_free_4gb`. Releasing finds the tables through the entries of
the directory, which no mapping changes. -/
namespace LiebeOS

open Bytes Transition

/-- A call that changes entries of a directory. -/
inductive PagingCall where
  | mapTo (virt phys physEnd flags : Nat)
  | map (virt phys flags : Nat)
  | set (virt val : Nat)

/-- Calls that succeed. -/
inductive PagingStep (directory : Nat) : Memory → PagingCall → Memory → Prop where
  | mapTo (mem : Memory) (virt phys physEnd flags : Nat) (hVirt : virt < 4294967296)
      (hOk : (pagingMapTo mem directory virt phys physEnd flags).1 = 0) :
      PagingStep directory mem (.mapTo virt phys physEnd flags)
        (pagingMapTo mem directory virt phys physEnd flags).2
  | map (mem : Memory) (virt phys flags : Nat) (hVirt : virt < 4294967296)
      (hOk : (pagingMap mem directory virt phys flags).1 = 0) :
      PagingStep directory mem (.map virt phys flags) (pagingMap mem directory virt phys flags).2
  | set (mem : Memory) (virt val : Nat) (hVirt : virt < 4294967296)
      (hOk : (pagingSet mem directory virt val).1 = 0) :
      PagingStep directory mem (.set virt val) (pagingSet mem directory virt val).2

/-- The blocks of a directory in the order in which they are stored to when it
is released, the last one first. -/
def releasedBlocks (heap : Heap) (chunk directory : Nat) (table : Nat → Nat) : List Int :=
  (chunk :: directory :: ((List.range 1024).map table).reverse).map (heapAddressToBlock heap)

/-- What is promised for a directory that is created in the state `k`. -/
structure LifeCycle (k : KernelMemory) (flags : Nat) (directory : Nat) (table : Nat → Nat) :
    Prop where
  granted : (createNewPageDirectory k flags).1 ≠ 0
  points : getPageDirectoryEntry (createNewPageDirectory k flags).2.mem
    (createNewPageDirectory k flags).1 = directory
  tables : ∀ d < 1024,
    entryAddress (loadWord (createNewPageDirectory k flags).2.mem (directory + 4 * d)) = table d ∧
      Held (createNewPageDirectory k flags).2.heap (table d) ∧ ¬ Held k.heap (table d)
  distinct : ∀ d < 1024, ∀ e < 1024, table d = table e → d = e
  identity : ∀ v < 4294967296, v % 4096 = 0 →
    pagingGet (createNewPageDirectory k flags).2.mem directory v = v ||| flags
  translated : ∀ v < 4294967296,
    pagingGetPhysicalAddress (createNewPageDirectory k flags).2.mem directory v = v
  blocks : (releasedBlocks k.heap (createNewPageDirectory k flags).1 directory table).Nodup
  taken : ∀ b, (createNewPageDirectory k flags).2.heap.table.entries b ≠ k.heap.table.entries b ↔
    b ∈ releasedBlocks k.heap (createNewPageDirectory k flags).1 directory table
  released : ∀ mem calls,
    Run (PagingStep directory) (createNewPageDirectory k flags).2.mem calls mem →
      let freed := pagingFree4gb ⟨(createNewPageDirectory k flags).2.heap, mem⟩
        (createNewPageDirectory k flags).1
      freed.heap.table.entries = k.heap.table.entries ∧
        freed.heap.table.total = k.heap.table.total ∧
        freed.heap.table.written =
          releasedBlocks k.heap (createNewPageDirectory k flags).1 directory table ++
            (createNewPageDirectory k flags).2.heap.table.written

section Calls

variable {mem mem' start : Memory} {directory : Nat} {table : Nat → Nat} {call : PagingCall}

theorem PageTables.call_tablesOnly (h : PageTables mem directory table)
    (hStep : PagingStep directory mem call mem') : TablesOnly table mem mem' := by
  cases hStep with
  | mapTo virt phys physEnd flags hVirt hOk => exact h.mapTo_tablesOnly phys physEnd flags hVirt
  | map virt phys flags hVirt hOk =>
      rw [pagingMap]
      split
      · exact TablesOnly.refl table mem
      · exact h.set_tablesOnly _ hVirt
  | set virt val hVirt hOk => exact h.set_tablesOnly val hVirt

/-- Whatever is mapped, the directory keeps its tables and nothing else changes. -/
theorem PageTables.calls {calls : List PagingCall} (h : PageTables start directory table)
    (run : Run (PagingStep directory) start calls mem) :
    PageTables mem directory table ∧ TablesOnly table start mem := by
  refine @Run.invariant _ _ _ (fun mem => PageTables mem directory table ∧ TablesOnly table start mem)
    _ _ _ run ⟨h, TablesOnly.refl table start⟩ fun s e t hInv hStep => ?_
  have hOnly := hInv.1.call_tablesOnly hStep
  exact ⟨hInv.1.of_tablesOnly hOnly, hInv.2.trans hOnly⟩

end Calls

section Release

variable {start : Heap} {directory chunk : Nat} {table : Nat → Nat}

/-- From entry `i` on the tables are given back one by one. -/
theorem pagingFreeLoop_takes (hClear : FreeClear start) (left i : Nat) (hRoom : i + left = 1024)
    {k : KernelMemory} {rest : List Nat} (hTables : PageTables k.mem directory table)
    (h : Takes start k.heap ((List.range' i left).map table ++ rest)) :
    Takes start (pagingFreeLoop directory left i k).heap rest ∧
      (pagingFreeLoop directory left i k).heap.table.written =
        (((List.range' i left).map table).reverse).map (heapAddressToBlock start) ++
          k.heap.table.written := by
  induction left generalizing i k with
  | zero => exact ⟨h, rfl⟩
  | succ left ih =>
      rw [List.range'_succ, List.map_cons, List.cons_append] at h
      obtain ⟨hTakes, hWritten⟩ := h.free hClear
      rw [pagingFreeLoop, hTables.entry i (by omega)]
      obtain ⟨hLoop, hLog⟩ := ih (i + 1) (by omega) (k := kfree k (table i)) hTables hTakes
      refine ⟨hLoop, hLog.trans ?_⟩
      rw [kfree, hWritten, List.range'_succ]
      simp

theorem pagingFree4gb_takes (hClear : FreeClear start) {k : KernelMemory}
    (hTables : PageTables k.mem directory table) (hPoints : loadWord k.mem chunk = directory)
    (h : Takes start k.heap (chunk :: directoryPages directory 1024 table)) :
    (pagingFree4gb k chunk).heap.table.entries = start.table.entries ∧
      (pagingFree4gb k chunk).heap.table.total = start.table.total ∧
      (pagingFree4gb k chunk).heap.table.written =
        releasedBlocks start chunk directory table ++ k.heap.table.written := by
  have hOrder : (chunk :: directoryPages directory tableEntriesCount table).Perm
      ((List.range' 0 tableEntriesCount).map table ++ [directory, chunk]) := by
    rw [← List.range_eq_range', directoryPages]
    refine List.perm_middle.symm.trans ?_
    exact List.Perm.append_left _ (List.Perm.swap _ _ _)
  have hLoop := pagingFreeLoop_takes hClear tableEntriesCount 0 (by decide) hTables (h.perm hOrder)
  rw [pagingFree4gb, hPoints]
  generalize pagingFreeLoop directory tableEntriesCount 0 k = k' at hLoop ⊢
  obtain ⟨hTakes, hLoop⟩ := hLoop
  obtain ⟨hTakes', hDirectory⟩ := hTakes.free hClear
  obtain ⟨hTakes'', hChunk⟩ := hTakes'.free hClear
  rw [← List.range_eq_range'] at hLoop
  refine ⟨?_, ?_, ?_⟩
  · funext b
    exact (hTakes''.entries b).trans (if_neg List.not_mem_nil)
  · exact hTakes''.kernel.2.total.trans h.kernel.1.total.symm
  · refine hChunk.trans ?_
    rw [hDirectory, hLoop, releasedBlocks, List.map_cons, List.map_cons]
    rfl

theorem releasedBlocks_perm (heap : Heap) (chunk directory : Nat) (table : Nat → Nat) :
    (releasedBlocks heap chunk directory table).Perm
      ((chunk :: directoryPages directory 1024 table).map (heapAddressToBlock heap)) := by
  refine List.Perm.map _ (List.Perm.cons chunk ?_)
  rw [directoryPages]
  refine (List.Perm.cons directory (List.reverse_perm _)).trans ?_
  exact (List.perm_append_singleton directory _).symm

end Release

/-- A directory for which there is room. -/
theorem lifeCycle_of_clear {k : KernelMemory} {flags : Nat} (hHeap : KernelHeap k.heap)
    (hClear : FreeClear k.heap) (hFlags : flags < 256) (hRoom : 1026 ≤ (freeBlocks k.heap).card) :
    ∃ directory table, LifeCycle k flags directory table := by
  have hGranted := createNewPageDirectory_room flags hHeap hRoom
  obtain ⟨directory, table, hRecord, hTakes⟩ :=
    createNewPageDirectory_takes hHeap hFlags hGranted
  have hMaps := hRecord.built.maps hFlags
  have hPerm := releasedBlocks_perm k.heap (createNewPageDirectory k flags).1 directory table
  refine ⟨directory, table,
    { granted := hGranted
      points := hRecord.points
      tables := fun d hd => ⟨hMaps.entry d hd, (hRecord.built.tables d hd).1,
        (hRecord.built.tables d hd).2.1⟩
      distinct := hRecord.built.distinct
      identity := hMaps.entries
      translated := fun v hv => ?_
      blocks := hPerm.nodup_iff.mpr hTakes.nodup
      taken := fun b => ?_
      released := fun mem calls run => ?_ }⟩
  · have hPage := hMaps.translate hv (show v / 4096 * 4096 % 4096 = 0 by omega) (by omega)
      (show flags < 4096 by omega) rfl
    rw [hPage]
    omega
  · rw [hPerm.mem_iff, hTakes.entries b]
    by_cases hb : b ∈ ((createNewPageDirectory k flags).1 :: directoryPages directory 1024 table).map
        (heapAddressToBlock k.heap)
    · rw [if_pos hb]
      refine ⟨fun _ => hb, fun _ => ?_⟩
      obtain ⟨p, hp, rfl⟩ := List.mem_map.mp hb
      obtain ⟨c, hc, hAddress, hFresh⟩ := hTakes.fresh p hp
      rw [hAddress, hHeap.block_of_address hc, hClear c hc hFresh]
      decide
    · rw [if_neg hb]
      exact ⟨fun hne => absurd rfl hne, fun hIn => absurd hIn hb⟩
  · obtain ⟨hTables, hOnly⟩ := hMaps.toPageTables.calls run
    have hPoints : loadWord mem (createNewPageDirectory k flags).1 = directory := by
      rw [← hRecord.points]
      refine loadWord_congr fun i hi => ?_
      obtain ⟨hAligned, _, hHigh⟩ := hRecord.record.1.page hRecord.built.grows.heap
      rw [behind_of_lt (by omega)]
      refine hOnly _ (by omega) fun ⟨d, hd, hPage⟩ => hRecord.recordApart.2 d hd ?_
      omega
    generalize createNewPageDirectory k flags = r at hTakes hPoints ⊢
    exact pagingFree4gb_takes hClear hTables hPoints hTakes

/-- On every heap that is used as it should be and has 1026 free blocks left, a
page directory lives as promised. -/
theorem createNewPageDirectory_lifeCycle {heap : Heap} {finish : Nat} {entries : Int → UInt8}
    {s : HeapRun} {events : List HeapEvent}
    (hCreate : (heapCreate heap liebeOsHeapAddress finish ⟨entries, 25600, []⟩).1 = 0)
    (run : Run (Guarded HeapStep EventFits) (heapStart heap liebeOsHeapAddress finish 25600 entries)
      events s)
    (mem : Memory) {flags : Nat} (hFlags : flags < 256) (hRoom : 1026 ≤ (freeBlocks s.heap).card) :
    ∃ directory table, LifeCycle ⟨s.heap, mem⟩ flags directory table := by
  obtain ⟨hHeap, hClear⟩ := heapRun_clear hCreate (run.weaken fun _ _ _ hStep => hStep.2)
  exact lifeCycle_of_clear hHeap hClear hFlags hRoom

/-- The first directory, on the heap that nothing has been requested from. -/
theorem createNewPageDirectory_lifeCycle_first :
    ∃ directory table, LifeCycle ⟨(heapStart ⟨⟨fun _ => 0, 0, []⟩, 0⟩ liebeOsHeapAddress 0x07400000
      25600 fun _ => 0xFF).heap, fun _ => 0⟩ 7 directory table := by
  refine createNewPageDirectory_lifeCycle kheapInit_create (Run.nil _) (fun _ => 0) (by decide) ?_
  refine @FreeRun.card _ 0 1026 (Int.le_refl 0) ?_ fun j hLow hHigh => ?_
  · rw [heapStart, heapCreate_ok kheapInit_create, heapTableFill_total]
    decide
  · rw [heapStart_entries kheapInit_create, if_pos (by omega)]
    decide

end LiebeOS
