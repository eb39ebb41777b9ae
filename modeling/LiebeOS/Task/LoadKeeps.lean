import LiebeOS.Memory.PageLifeCycle
import LiebeOS.Memory.Undisturbed
import LiebeOS.Task.MappedProgram
import LiebeOS.Task.ProcessLoad

/-! What stays in use through all of a load: the blocks of an allocation that was there
before are not given back on any way out. -/
namespace LiebeOS

open Attempts MachineInt Bytes

/-! ### What a request grants -/

section Request

variable {m m' : Storage} {size ptr : Nat}

theorem kzallocWithin_heap (k : KernelMemory) (size : Nat) :
    (kzallocWithin k size).Ensures fun res =>
      res.1 = (heapMalloc k.heap size).1 ∧ res.2.heap = (heapMalloc k.heap size).2 := by
  rw [kzallocWithin]
  dsimp only
  split_ifs
  · exact Attempt.ensures_undefined
  · exact Attempt.ensures_returned ⟨kzalloc_ptr k size, kzalloc_heap k size⟩

theorem Storage.kzalloc_survives {P : Heap → Prop} (h : P (heapMalloc m.files.heap size).2) :
    (m.kzalloc size).Ensures fun res => P res.2.files.heap := by
  refine Attempt.ensures_bind (kzallocWithin_heap m.memory size) fun res hRes => ?_
  refine Attempt.ensures_returned ?_
  change P res.2.heap
  rw [hRes.2]
  exact h

theorem Storage.kzalloc_inOrder (hHeap : HeapInOrder m.files.heap) (size : Nat) :
    (m.kzalloc size).Ensures fun res => HeapInOrder res.2.files.heap :=
  Storage.kzalloc_survives (hHeap.malloc size)

/-- Memory that is granted are whole pages of the heap. -/
theorem Storage.kzalloc_page (hHeap : KernelHeap m.files.heap)
    (hCall : m.kzalloc size = .returned (ptr, m')) (hSome : ptr ≠ 0) :
    ptr % 4096 = 0 ∧ ptr + size ≤ liebeOsHeapEnd := by
  obtain ⟨⟨ptr', k⟩, hRequest, hPair⟩ := Attempt.bind_returned_iff.mp hCall
  obtain ⟨rfl, _⟩ := Prod.mk.inj (Attempt.returned.inj hPair)
  have hAddress := (kzallocWithin_heap m.memory size _ hRequest).1
  dsimp only at hAddress
  rw [kzallocWithin] at hRequest
  generalize LiebeOS.kzalloc m.memory size = request at hRequest
  obtain ⟨p, k'⟩ := request
  obtain ⟨hInside, hSame⟩ := Attempt.guard_returned_iff.mp hRequest
  obtain ⟨rfl, rfl⟩ := Prod.mk.inj (Attempt.returned.inj hSame)
  refine ⟨?_, by omega⟩
  rw [hAddress] at hSome ⊢
  rcases heapMalloc_granted m.memory.heap size with hNone | ⟨b, _, hb, _, _, hGrant, _⟩
  · rw [hNone] at hSome
    exact absurd rfl hSome
  · rw [hGrant]
    exact (KernelHeap.address_page hHeap hb).1

theorem Storage.kzalloc_granted (hHeap : HeapInOrder m.files.heap) (hSize : 1 ≤ size)
    (hCall : m.kzalloc size = .returned (ptr, m')) (hSome : ptr ≠ 0) :
    Granted m.memory size ptr m'.memory := by
  have hInside := (Storage.kzalloc_page hHeap.kernel hCall hSome).2
  have hLt : size < 4294967296 := by
    unfold liebeOsHeapEnd liebeOsHeapAddress liebeOsHeapSizeBytes at hInside
    omega
  obtain ⟨⟨ptr', k⟩, hRequest, hPair⟩ := Attempt.bind_returned_iff.mp hCall
  obtain ⟨rfl, rfl⟩ := Prod.mk.inj (Attempt.returned.inj hPair)
  rcases kzallocWithin_cases (k := m.memory) hHeap.kernel hHeap.chained hLt _ hRequest with
    ⟨hNone, _⟩ | ⟨hZero, _⟩ | ⟨_, _, hGranted⟩
  · exact absurd hNone hSome
  · omega
  · exact hGranted

/-- The blocks of a request that was granted, as an allocation of the heap. -/
theorem Granted.keeps {k k' : KernelMemory} (h : Granted k size ptr k') :
    Keeps (blockOf ptr) (blocksOf size) k'.heap := ⟨h.heap, h.allotted⟩

/-- What was in use before is not in the blocks that were granted. -/
theorem Owned.beside {heap : Heap} {r : Int} {n p : Nat} (h : Owned heap p) (hLow : 0 ≤ r)
    (hFree : FreeRun heap.table.entries r n) : Beside r n p := by
  rcases h with rfl | hStart
  · exact Beside.null hLow n
  · rw [Beside]
    by_contra hInside
    have hTaken := hStart.taken
    rw [hFree _ (by omega) (by omega)] at hTaken
    cases hTaken

/-- The blocks behind an allocation are in use. -/
theorem Keeps.held {r : Int} {heap : Heap} (h : Keeps r size heap) {p : Nat}
    (hAddress : (p : Int) = 16777216 + r * 4096) {x : Nat} (hLow : p ≤ x) (hHigh : x < p + size * 4096) :
    Held heap (x / 4096 * 4096) := by
  obtain ⟨hFirst, hLast⟩ := h.block.inside
  have hTotal := h.kernel.total_eq
  have hIn : InHeap heap (r + (x - p : Nat) / 4096) := ⟨by omega, by omega⟩
  have hPage := h.kernel.address hIn
  refine ⟨r + (x - p : Nat) / 4096, hIn, by omega, ?_⟩
  exact (h.block.run.2 _ (by omega) (by omega)).1

theorem Keeps.inBlocks {r : Int} {heap : Heap} (h : Keeps r size heap) {x : Nat}
    (hIn : InBlocks r size x) : Held heap (x / 4096 * 4096) := by
  obtain ⟨hLow, hHigh⟩ := hIn
  have hFirst := h.block.inside.1
  exact h.held (p := (16777216 + r * 4096).toNat) (by omega) (by omega) (by omega)

/-- A request leaves pages in use alone. -/
theorem Storage.kzalloc_mem (hHeap : KernelHeap m.files.heap)
    (hCall : m.kzalloc size = .returned (ptr, m')) {x : Nat} (hx : x < 4294967296)
    (hHeld : Held m.files.heap (x / 4096 * 4096)) : m'.mem x = m.mem x := by
  obtain ⟨⟨p, k⟩, hRequest, hPair⟩ := Attempt.bind_returned_iff.mp hCall
  obtain ⟨rfl, rfl⟩ := Prod.mk.inj (Attempt.returned.inj hPair)
  obtain ⟨hInside, hSame⟩ := Attempt.guard_returned_iff.mp hRequest
  have hMem : (LiebeOS.kzalloc m.memory size).2.mem = k.mem :=
    congrArg (fun r => r.2.mem) (Attempt.returned.inj hSame)
  change k.mem x = m.mem x
  rw [← hMem]
  rcases kzalloc_newBlocks (k := m.memory) hHeap hInside with hNone | hNew
  · rw [hNone]
    rfl
  · refine hNew.words x hx ?_
    by_contra hIn
    have hCovers := blocksOf_covers size
    exact hNew.fresh x (by omega) (by omega) hHeld

end Request

/-! ### Reading the file -/

section Keeps

variable {r : Int} {n : Nat} {d : DiskFiles} {m : Storage} {k : KernelMemory} {fd : Int}
  {filename : List UInt8}

/-- The records behind the descriptor do not lie in the blocks. -/
def RecordsElsewhere (r : Int) (n : Nat) (m : Storage) (fd : Int) : Prop :=
  Described (fun _ => RecordsBeside r n) m.files fd

theorem Storage.kzalloc_keeps (h : Keeps r n m.files.heap) (size : Nat) :
    (m.kzalloc size).Ensures fun res => Keeps r n res.2.files.heap ∧ Beside r n res.1 ∧
      ∀ fd, RecordsElsewhere r n m fd → RecordsElsewhere r n res.2 fd := by
  refine Attempt.ensures_bind (kzallocWithin_heap m.memory size) fun res hRes => ?_
  refine Attempt.ensures_returned ⟨?_, ?_, fun fd hRecords => hRecords⟩
  · change Keeps r n res.2.heap
    rw [hRes.2]
    exact (h.malloc size).1
  · rw [hRes.1]
    exact (h.malloc size).2

theorem Storage.fopen_keeps (h : Keeps r n m.files.heap) :
    (m.fopen d filename).Ensures fun res =>
      Keeps r n res.2.files.heap ∧ RecordsElsewhere r n res.2 res.1 :=
  Attempt.ensures_bind (fopenFile_beside h) fun _ hRes => Attempt.ensures_returned hRes

theorem Storage.fclose_keeps (h : Keeps r n m.files.heap) (hRecords : RecordsElsewhere r n m fd) :
    Keeps r n (m.fclose fd).files.heap :=
  fcloseFile_keeps h hRecords

theorem readAnswers_size {fd : Int} {entry : FatDirectoryItem} :
    (readAnswers d fd entry).Ensures fun a => a.filesize = entry.filesize := by
  rw [readAnswers]
  split_ifs
  · exact Attempt.ensures_returned rfl
  · exact Attempt.ensures_bind (P := fun _ => True) (fun _ _ => trivial)
      fun _ _ => Attempt.ensures_returned rfl

/-- The blocks are in use, and there is in them what is in `mem`. -/
structure Untouched (r : Int) (n : Nat) (mem : Memory) (m : Storage) : Prop extends
    Keeps r n m.files.heap where
  same : ∀ x < 4294967296, InBlocks r n x → m.mem x = mem x

section Untouched

variable {mem : Memory}

theorem Keeps.untouched (h : Keeps r n m.files.heap) : Untouched r n m.mem m :=
  ⟨h, fun _ _ _ => rfl⟩

/-- Memory that is granted is not in the blocks. -/
theorem Storage.kzalloc_untouched (h : Untouched r n mem m) (size : Nat) :
    (m.kzalloc size).Ensures fun res => Untouched r n mem res.2 ∧
      (∀ fd, RecordsElsewhere r n m fd → RecordsElsewhere r n res.2 fd) ∧
      (res.1 ≠ 0 → res.1 + size ≤ 4294967296 ∧
        ∀ x, InBlocks r n x → x < res.1 ∨ res.1 + size ≤ x) := by
  intro res hCall
  obtain ⟨hKeeps, _, hRecords⟩ := m.kzalloc_keeps h.toKeeps size res hCall
  refine ⟨⟨hKeeps, fun x hx hIn => ?_⟩, hRecords, fun hSome => ?_⟩
  · rw [Storage.kzalloc_mem h.kernel hCall hx (h.inBlocks hIn)]
    exact h.same x hx hIn
  · have hEnd : res.1 + size ≤ 0x07400000 := (Storage.kzalloc_page h.kernel hCall hSome).2
    refine ⟨by omega, fun x hIn => ?_⟩
    obtain ⟨⟨ptr, k⟩, hRequest, hPair⟩ := Attempt.bind_returned_iff.mp hCall
    obtain rfl := Attempt.returned.inj hPair
    obtain ⟨hInside, hSame⟩ := Attempt.guard_returned_iff.mp hRequest
    have hPtr : (LiebeOS.kzalloc m.memory size).1 = ptr :=
      congrArg Prod.fst (Attempt.returned.inj hSame)
    dsimp only at hSome hEnd ⊢
    rcases kzalloc_newBlocks (k := m.memory) h.kernel hInside with hNone | hNew
    · rw [hNone] at hPtr
      exact absurd hPtr.symm hSome
    · rw [hPtr] at hNew
      by_contra hBetween
      have hCovers := blocksOf_covers size
      exact hNew.fresh x (by omega) (by omega) (h.inBlocks hIn)

theorem Storage.fopen_untouched (h : Untouched r n mem m) :
    (m.fopen d filename).Ensures fun res =>
      Untouched r n mem res.2 ∧ RecordsElsewhere r n res.2 res.1 := by
  intro res hCall
  obtain ⟨hKeeps, hRecords⟩ := Storage.fopen_keeps h.toKeeps res hCall
  obtain ⟨_, _, hPair⟩ := Attempt.bind_returned_iff.mp hCall
  obtain rfl := Attempt.returned.inj hPair
  exact ⟨⟨hKeeps, h.same⟩, hRecords⟩

theorem Storage.fclose_untouched (h : Untouched r n mem m) (hRecords : RecordsElsewhere r n m fd) :
    Untouched r n mem (m.fclose fd) :=
  ⟨Storage.fclose_keeps h.toKeeps hRecords, h.same⟩

theorem Untouched.write (h : Untouched r n mem m) {mem' : Memory}
    (hSame : ∀ x < 4294967296, InBlocks r n x → mem' x = m.mem x) :
    Untouched r n mem { m with mem := mem' } :=
  ⟨h.toKeeps, fun x hx hIn => (hSame x hx hIn).trans (h.same x hx hIn)⟩

theorem elfReadFile_untouched (h : Untouched r n mem m) (hRecords : RecordsElsewhere r n m fd)
    (entry : FatDirectoryItem) (elfFile : Nat) :
    (elfReadFile d m fd entry elfFile).Ensures fun res => Untouched r n mem res.2 := by
  refine Attempt.ensures_bind (Storage.kzalloc_untouched h entry.filesize) fun res hRes => ?_
  obtain ⟨elfMemory, m'⟩ := res
  obtain ⟨hKept, hOpen, hBuffer⟩ := hRes
  dsimp only at hKept hOpen hBuffer ⊢
  by_cases hFull : elfMemory = 0 ∧ 0 < entry.filesize
  · rw [if_pos hFull]
    exact Attempt.ensures_undefined
  rw [if_neg hFull]
  refine Attempt.ensures_bind readAnswers_size fun a hSize => ?_
  refine Attempt.ensures_returned (Storage.fclose_untouched (m := { m' with mem := _ })
    (hKept.write fun x hx hIn => ?_) (hOpen fd hRecords))
  by_cases hNull : elfMemory = 0
  · exact elfLoad_outside hx (by omega) (by omega)
  · obtain ⟨hEnd, hApart⟩ := hBuffer hNull
    rw [← hSize] at hEnd hApart
    exact elfLoad_outside hx (hApart x hIn) hEnd

theorem elfLoadFile_untouched (h : Untouched r n mem m) :
    (elfLoadFile d m filename).Ensures fun res => Untouched r n mem res.2 := by
  refine Attempt.ensures_bind (Storage.kzalloc_untouched h sizeOfElfFile) fun first hFirst => ?_
  obtain ⟨elfFile, m₁⟩ := first
  refine Attempt.ensures_bind (Storage.fopen_untouched hFirst.1) fun opened hOpened => ?_
  obtain ⟨fd, m₂⟩ := opened
  dsimp only at hOpened ⊢
  by_cases hFd : fd ≤ 0
  · rw [if_pos hFd]
    exact Attempt.ensures_returned (Storage.fclose_untouched hOpened.1 fun hOpen => absurd rfl hOpen)
  · rw [if_neg hFd]
    refine Attempt.ensures_bind (P := fun _ => True) (fun _ _ => trivial) fun stat _ => ?_
    cases stat with
    | error res => exact Attempt.ensures_returned (Storage.fclose_untouched hOpened.1 hOpened.2)
    | ok entry =>
        dsimp only
        split_ifs
        · exact Attempt.ensures_undefined
        · exact elfReadFile_untouched hOpened.1 hOpened.2 entry elfFile

theorem binaryReadFile_untouched (h : Untouched r n mem m) (hRecords : RecordsElsewhere r n m fd)
    (entry : FatDirectoryItem) :
    (binaryReadFile d m fd entry).Ensures fun res => Untouched r n mem res.2 := by
  refine Attempt.ensures_bind (Storage.kzalloc_untouched h entry.filesize) fun res hRes => ?_
  obtain ⟨ptr, m'⟩ := res
  obtain ⟨hKept, hOpen, hBuffer⟩ := hRes
  dsimp only at hKept hOpen hBuffer ⊢
  by_cases hNull : ptr = 0
  · rw [if_pos hNull]
    exact Attempt.ensures_returned (Storage.fclose_untouched hKept (hOpen fd hRecords))
  rw [if_neg hNull]
  obtain ⟨hEnd, hApart⟩ := hBuffer hNull
  refine Attempt.ensures_bind readAnswers_size fun a hSize => ?_
  rw [← hSize] at hEnd hApart
  exact Attempt.ensures_returned (Storage.fclose_untouched (m := { m' with mem := _ })
    (hKept.write fun x hx hIn => fread_outside hx (hApart x hIn) hEnd) (hOpen fd hRecords))

theorem processLoadBinary_untouched (h : Untouched r n mem m) :
    (processLoadBinary d m filename).Ensures fun res => Untouched r n mem res.2 := by
  refine Attempt.ensures_bind (Storage.fopen_untouched h) fun opened hOpened => ?_
  obtain ⟨fd, m'⟩ := opened
  dsimp only at hOpened ⊢
  split_ifs
  · exact Attempt.ensures_returned (Storage.fclose_untouched hOpened.1 hOpened.2)
  · refine Attempt.ensures_bind (P := fun _ => True) (fun _ _ => trivial) fun stat _ => ?_
    cases stat with
    | error res => exact Attempt.ensures_returned (Storage.fclose_untouched hOpened.1 hOpened.2)
    | ok entry => exact binaryReadFile_untouched hOpened.1 hOpened.2 entry

/-- Reading a program leaves the blocks alone. -/
theorem processLoadData_untouched (h : Untouched r n mem m) :
    (processLoadData d m filename).Ensures fun res => Untouched r n mem res.2 := by
  refine Attempt.ensures_bind (elfLoadFile_untouched h) fun loaded hLoaded => ?_
  obtain ⟨result, m'⟩ := loaded
  cases result with
  | ok data => exact Attempt.ensures_returned hLoaded
  | error res =>
      dsimp only
      split_ifs
      · exact processLoadBinary_untouched hLoaded
      · exact Attempt.ensures_returned hLoaded

end Untouched

/-! ### The buffer of a file -/

/-- Only a file has a size. -/
theorem fstatFile_file {s : FileSystem} {entry : FatDirectoryItem}
    (h : fstatFile s fd = .returned (.ok entry)) :
    fileGetDescriptor s.table fd ≠ 0 ∧
      ∃ fatItem copy, descriptorItem s (fileGetDescriptor s.table fd) = .file fatItem copy entry := by
  unfold fstatFile fstatCall fileCall at h
  dsimp only at h
  by_cases hClosed : fileGetDescriptor s.table fd = 0
  · rw [if_pos hClosed] at h
    cases h
  rw [if_neg hClosed] at h
  refine ⟨hClosed, ?_⟩
  dsimp only at h
  unfold descriptorItem
  generalize (s.pvts (s.table.records (fileGetDescriptor s.table fd)).file.pvt).item = item at h ⊢
  cases item with
  | directory fatItem record => cases h
  | file fatItem copy found =>
      obtain ⟨_, hSame⟩ := Attempt.guard_returned_iff.mp h
      obtain rfl := Except.ok.inj (Attempt.returned.inj hSame)
      exact ⟨fatItem, copy, rfl⟩

/-- The buffer into which a file is read is new, and closing the file does not give it
back. -/
theorem Storage.buffer_keeps {m' m'' : Storage} {entry : FatDirectoryItem} {ptr : Nat}
    (hHeap : HeapInOrder m.files.heap) (hOpen : m.fopen d filename = .returned (fd, m'))
    (hStat : fstatFile m'.files fd = .returned (.ok entry))
    (hBuffer : m'.kzalloc entry.filesize = .returned (ptr, m'')) (hSome : ptr ≠ 0)
    (hSize : 1 ≤ entry.filesize) (mem : Memory) :
    Granted m'.memory entry.filesize ptr m''.memory ∧
      Keeps (blockOf ptr) (blocksOf entry.filesize) ({ m'' with mem := mem }.fclose fd).files.heap := by
  obtain ⟨⟨fd', files⟩, hFopen, hPair⟩ := Attempt.bind_returned_iff.mp hOpen
  obtain ⟨rfl, rfl⟩ := Prod.mk.inj (Attempt.returned.inj hPair)
  obtain ⟨hInOrder, hRecords⟩ := fopenFile_inOrder hHeap _ hFopen
  obtain ⟨hOpened, fatItem, copy, hItem⟩ := fstatFile_file hStat
  obtain ⟨hDesc, hPvt, _, hFile⟩ := hRecords hOpened
  obtain ⟨hFatItem, hCopy⟩ := hFile fatItem copy entry hItem
  have hGranted := Storage.kzalloc_granted hInOrder hSize hBuffer hSome
  have hLow := hGranted.allotted.inside.1
  refine ⟨hGranted, Storage.fclose_keeps (m := { m'' with mem := mem }) hGranted.keeps fun _ => ?_⟩
  obtain ⟨⟨ptr', k⟩, _, hPair⟩ := Attempt.bind_returned_iff.mp hBuffer
  obtain ⟨_, rfl⟩ := Prod.mk.inj (Attempt.returned.inj hPair)
  refine ⟨hDesc.beside hLow hGranted.free, hPvt.beside hLow hGranted.free, ?_⟩
  have hSame : descriptorItem (({ files := files, mem := m.mem } : Storage).setMemory k).files
      (fileGetDescriptor (({ files := files, mem := m.mem } : Storage).setMemory k).files.table fd') =
      .file fatItem copy entry := hItem
  rw [hSame]
  exact ⟨hFatItem.beside hLow hGranted.free, hCopy.beside hLow hGranted.free⟩

/-! ### The heap stays in order -/

theorem Storage.fopen_inOrder (hHeap : HeapInOrder m.files.heap) :
    (m.fopen d filename).Ensures fun res =>
      HeapInOrder res.2.files.heap ∧ Described RecordsHeld res.2.files res.1 :=
  Attempt.ensures_bind (fopenFile_inOrder hHeap) fun _ hRes => Attempt.ensures_returned hRes

theorem Storage.fclose_inOrder (hHeap : HeapInOrder m.files.heap)
    (hRecords : Described RecordsHeld m.files fd) : HeapInOrder (m.fclose fd).files.heap :=
  fcloseFile_inOrder hHeap hRecords

/-- The records of a file stay allocations while a buffer is requested for it, so it
can be closed. -/
theorem Storage.closeRead_inOrder {entry : FatDirectoryItem} (hHeap : HeapInOrder m.files.heap)
    (hRecords : Described RecordsHeld m.files fd)
    (hStat : fstatFile m.files fd = .returned (.ok entry)) :
    (m.kzalloc entry.filesize).Ensures fun res => ∀ mem,
      HeapInOrder ({ res.2 with mem := mem }.fclose fd).files.heap := by
  obtain ⟨hSome, fatItem, copy, hItem⟩ := fstatFile_file hStat
  obtain ⟨hDesc, hPvt, _, hFile⟩ := hRecords hSome
  obtain ⟨hFatItem, hCopy⟩ := hFile fatItem copy entry hItem
  refine Attempt.ensures_bind (kzallocWithin_heap m.memory entry.filesize) fun res hRes => ?_
  refine Attempt.ensures_returned fun mem => ?_
  have hOwned : ∀ {p}, Owned m.files.heap p → Owned res.2.heap p := fun hp => by
    rw [hRes.2]
    exact hp.malloc entry.filesize
  have hInOrder : HeapInOrder res.2.heap := by
    rw [hRes.2]
    exact hHeap.malloc entry.filesize
  refine Storage.fclose_inOrder (m := { m.setMemory res.2 with mem := mem }) hInOrder fun _ =>
    ⟨hOwned hDesc, hOwned hPvt, ?_, ?_⟩
  · change FatItem.Releasable res.2.heap (descriptorItem m.files (fileGetDescriptor m.files.table fd))
    rw [hItem]
    exact ⟨(hOwned hFatItem).unchained, (hOwned hCopy).unchained⟩
  · intro fatItem' copy' entry' hSome'
    change descriptorItem m.files (fileGetDescriptor m.files.table fd) = _ at hSome'
    rw [hItem] at hSome'
    obtain ⟨rfl, rfl, _⟩ := FatItem.file.inj hSome'
    exact ⟨hOwned hFatItem, hOwned hCopy⟩

theorem elfLoadFile_inOrder (hHeap : HeapInOrder m.files.heap) :
    (elfLoadFile d m filename).Ensures fun res => HeapInOrder res.2.files.heap := by
  refine Attempt.ensures_bind (m.kzalloc_inOrder hHeap sizeOfElfFile) fun first hFirst => ?_
  obtain ⟨elfFile, m₁⟩ := first
  refine Attempt.ensures_bind (Storage.fopen_inOrder hFirst) fun opened hOpened => ?_
  obtain ⟨fd, m₂⟩ := opened
  dsimp only at hOpened ⊢
  by_cases hFd : fd ≤ 0
  · rw [if_pos hFd]
    exact Attempt.ensures_returned (Storage.fclose_inOrder hOpened.1 fun hOpen => absurd rfl hOpen)
  rw [if_neg hFd]
  refine Attempt.ensures_bind (P := fun stat => fstatFile m₂.files fd = .returned stat)
    (fun _ hStat => hStat) fun stat hStat => ?_
  cases stat with
  | error res => exact Attempt.ensures_returned (Storage.fclose_inOrder hOpened.1 hOpened.2)
  | ok entry =>
      dsimp only
      split_ifs
      · exact Attempt.ensures_undefined
      · refine Attempt.ensures_bind (Storage.closeRead_inOrder hOpened.1 hOpened.2 hStat)
          fun res hRes => ?_
        obtain ⟨elfMemory, m₃⟩ := res
        dsimp only at hRes ⊢
        split_ifs
        · exact Attempt.ensures_undefined
        · exact Attempt.ensures_bind (P := fun _ => True) (fun _ _ => trivial) fun a _ =>
            Attempt.ensures_returned (hRes _)

theorem processLoadBinary_inOrder (hHeap : HeapInOrder m.files.heap) :
    (processLoadBinary d m filename).Ensures fun res => HeapInOrder res.2.files.heap := by
  refine Attempt.ensures_bind (Storage.fopen_inOrder hHeap) fun opened hOpened => ?_
  obtain ⟨fd, m'⟩ := opened
  dsimp only at hOpened ⊢
  by_cases hFd : fd = 0
  · rw [if_pos hFd]
    exact Attempt.ensures_returned (Storage.fclose_inOrder hOpened.1 hOpened.2)
  rw [if_neg hFd]
  refine Attempt.ensures_bind (P := fun stat => fstatFile m'.files fd = .returned stat)
    (fun _ hStat => hStat) fun stat hStat => ?_
  cases stat with
  | error res => exact Attempt.ensures_returned (Storage.fclose_inOrder hOpened.1 hOpened.2)
  | ok entry =>
      refine Attempt.ensures_bind (Storage.closeRead_inOrder hOpened.1 hOpened.2 hStat)
        fun res hRes => ?_
      obtain ⟨ptr, m₃⟩ := res
      dsimp only at hRes ⊢
      split_ifs
      · exact Attempt.ensures_returned (hRes m₃.mem)
      · exact Attempt.ensures_bind (P := fun _ => True) (fun _ _ => trivial) fun a _ =>
          Attempt.ensures_returned (hRes _)

theorem processLoadData_inOrder (hHeap : HeapInOrder m.files.heap) :
    (processLoadData d m filename).Ensures fun res => HeapInOrder res.2.files.heap := by
  refine Attempt.ensures_bind (elfLoadFile_inOrder hHeap) fun loaded hLoaded => ?_
  obtain ⟨result, m'⟩ := loaded
  cases result with
  | ok data => exact Attempt.ensures_returned hLoaded
  | error res =>
      dsimp only
      split_ifs
      · exact processLoadBinary_inOrder hLoaded
      · exact Attempt.ensures_returned hLoaded

/-! ### Directories -/

/-- What every request preserves, the requests for a directory preserve. -/
theorem pageDirectoryLoop_survives {P : Heap → Prop}
    (hMalloc : ∀ heap size, P heap → P (heapMalloc heap size).2) (h : P k.heap)
    (directory flags left i offset : Nat) :
    P (pageDirectoryLoop directory flags left i offset k).heap := by
  induction left generalizing i offset k with
  | zero => exact h
  | succ left ih =>
      have hNext : P (kzalloc k (4 * tableEntriesCount)).2.heap := by
        rw [kzalloc_heap]
        exact hMalloc _ _ h
      rw [pageDirectoryLoop]
      generalize kzalloc k (4 * tableEntriesCount) = res at hNext ⊢
      obtain ⟨table, k'⟩ := res
      exact ih (k := ⟨k'.heap, pageDirectoryEntry directory flags i offset table k'.mem⟩) hNext
        (i + 1) _

theorem createNewPageDirectory_survives {P : Heap → Prop}
    (hMalloc : ∀ heap size, P heap → P (heapMalloc heap size).2) (h : P k.heap) (flags : Nat) :
    P (createNewPageDirectory k flags).2.heap := by
  have hFirst : P (kzalloc k (4 * tableEntriesCount)).2.heap := by
    rw [kzalloc_heap]
    exact hMalloc _ _ h
  rw [createNewPageDirectory]
  generalize kzalloc k (4 * tableEntriesCount) = res at hFirst ⊢
  obtain ⟨directory, k'⟩ := res
  have hLoop := pageDirectoryLoop_survives (k := k') hMalloc hFirst directory flags
    tableEntriesCount 0 0
  dsimp only
  generalize pageDirectoryLoop directory flags tableEntriesCount 0 0 k' = built at hLoop ⊢
  have hLast : P (kzalloc built 4).2.heap := by
    rw [kzalloc_heap]
    exact hMalloc _ _ hLoop
  exact hLast

theorem taskDirectory_keeps (h : Keeps r n m.files.heap) : Keeps r n (taskDirectory m).2.heap := by
  have hMemory : Keeps r n m.memory.heap := h
  unfold taskDirectory
  exact createNewPageDirectory_survives (fun _ size hKeeps => (hKeeps.malloc size).1) hMemory _

theorem taskDirectory_inOrder (hHeap : HeapInOrder m.files.heap) :
    HeapInOrder (taskDirectory m).2.heap := by
  have hMemory : HeapInOrder m.memory.heap := hHeap
  unfold taskDirectory
  exact createNewPageDirectory_survives (fun _ size hOrder => hOrder.malloc size) hMemory _

/-- A directory that is granted is complete. -/
theorem taskDirectory_built (hHeap : KernelHeap m.files.heap) (hChunk : (taskDirectory m).1 ≠ 0) :
    ∃ directory table, DirectoryRecord m.memory (taskDirectory m).2 (taskDirectory m).1 directory
      (pagingIsPresent ||| pagingAccessFromAll) table := by
  have hMemory : KernelHeap m.memory.heap := hHeap
  have hFlags : pagingIsPresent ||| pagingAccessFromAll < 256 := by decide
  unfold taskDirectory at hChunk ⊢
  exact createNewPageDirectory_built hMemory hFlags hChunk

/-- A page that was free is not one of the blocks. -/
theorem Keeps.beside_fresh {heap heap' : Heap} (h : Keeps r n heap) {p : Nat}
    (hHeap : KernelHeap heap') (hHeld : Held heap' p) (hFresh : ¬ Held heap p) : Beside r n p := by
  obtain ⟨c, hc, rfl, _⟩ := hHeld
  have hTotal := h.kernel.total_eq
  obtain ⟨hLow, hHigh⟩ := h.block.inside
  rw [Beside, hHeap.blockOf_address hc]
  by_contra hInside
  refine hFresh ⟨c, ⟨by omega, by omega⟩, ?_, (h.block.run.2 c (by omega) (by omega)).1⟩
  rw [heapBlockToAddress, heapBlockToAddress, hHeap.saddr, h.kernel.saddr]

/-- Pages that have been taken one by one are allocations. -/
theorem Takes.allotted {start heap : Heap} {pages : List Nat} {q : Nat} (h : Takes start heap pages)
    (hChained : Chained start) (hq : q ∈ pages) :
    Allotted heap (blockOf q) 1 ∧ (q : Int) = 16777216 + blockOf q * 4096 := by
  obtain ⟨hStart, hHeap⟩ := h.kernel
  obtain ⟨hIn, _, hAddress, hFree, hMarked⟩ := h.page hq
  rw [hStart.block] at hIn hAddress hFree hMarked
  obtain ⟨hLow, hHigh⟩ := hIn
  have hTotal := hStart.total_eq
  have hTotal' := hHeap.total_eq
  have hPlace := hHeap.address (show InHeap heap (blockOf q) from ⟨hLow, by omega⟩)
  rw [← hAddress] at hPlace
  refine ⟨⟨⟨hLow, by omega⟩, hMarked, ?_⟩, hPlace⟩
  · rw [h.entries]
    split_ifs
    · rfl
    · exact hChained.front ⟨hLow, hHigh⟩ (hFree _ (Int.le_refl _) (by omega))

theorem createNewPageDirectory_allotted {k : KernelMemory} {flags directory q : Nat}
    {table : Nat → Nat} (hHeap : HeapInOrder k.heap) (hFlags : flags < 256)
    (hChunk : (createNewPageDirectory k flags).1 ≠ 0)
    (hRecord : DirectoryRecord k (createNewPageDirectory k flags).2
      (createNewPageDirectory k flags).1 directory flags table)
    (hq : q = (createNewPageDirectory k flags).1 ∨ q = directory ∨ ∃ d < 1024, q = table d) :
    Allotted (createNewPageDirectory k flags).2.heap (blockOf q) 1 ∧
      (q : Int) = 16777216 + blockOf q * 4096 := by
  obtain ⟨directory', table', hRecord', hTakes⟩ :=
    createNewPageDirectory_takes hHeap.kernel hFlags hChunk
  generalize createNewPageDirectory k flags = r at hRecord hRecord' hTakes hq ⊢
  obtain rfl : directory' = directory := hRecord'.points.symm.trans hRecord.points
  refine hTakes.allotted hHeap.chained ?_
  rcases hq with rfl | rfl | ⟨d, hd, rfl⟩
  · exact List.mem_cons_self
  · exact List.mem_cons_of_mem _ (List.mem_append_right _ List.mem_cons_self)
  · have hSame : table' d = table d := ((hRecord'.built.maps hFlags).entry d hd).symm.trans
      ((hRecord.built.maps hFlags).entry d hd)
    rw [← hSame]
    exact List.mem_cons_of_mem _ (List.mem_append_left _
      (List.mem_map_of_mem (List.mem_range.mpr hd)))

/-- Each page of the directory of a task is an allocation of one block. -/
theorem taskDirectory_allotted {m : Storage} {directory q : Nat} {table : Nat → Nat}
    (hHeap : HeapInOrder m.files.heap) (hChunk : (taskDirectory m).1 ≠ 0)
    (hRecord : DirectoryRecord m.memory (taskDirectory m).2 (taskDirectory m).1 directory
      (pagingIsPresent ||| pagingAccessFromAll) table)
    (hq : q = (taskDirectory m).1 ∨ q = directory ∨ ∃ d < 1024, q = table d) :
    Allotted (taskDirectory m).2.heap (blockOf q) 1 ∧ (q : Int) = 16777216 + blockOf q * 4096 := by
  have hMemory : HeapInOrder m.memory.heap := hHeap
  have hFlags : pagingIsPresent ||| pagingAccessFromAll < 256 := by decide
  unfold taskDirectory at hChunk hRecord hq ⊢
  exact createNewPageDirectory_allotted hMemory hFlags hChunk hRecord hq

section Release

variable {directory chunk : Nat} {table : Nat → Nat} {ptrs : List Nat}

/-- Pointers that are given back one after the other. -/
def kfreeAll (k : KernelMemory) (ptrs : List Nat) : KernelMemory := ptrs.foldl kfree k

theorem kfreeAll_cons (k : KernelMemory) (ptr : Nat) (ptrs : List Nat) :
    kfreeAll k (ptr :: ptrs) = kfreeAll (kfree k ptr) ptrs := rfl

theorem kfreeAll_append (k : KernelMemory) (ptrs ptrs' : List Nat) :
    kfreeAll k (ptrs ++ ptrs') = kfreeAll (kfreeAll k ptrs) ptrs' := List.foldl_append

/-- Nothing is written when memory is given back. -/
theorem kfreeAll_mem (k : KernelMemory) (ptrs : List Nat) : (kfreeAll k ptrs).mem = k.mem := by
  induction ptrs generalizing k with
  | nil => rfl
  | cons p ptrs ih => exact ih (kfree k p)

theorem kfreeAll_keeps (h : Keeps r n k.heap) (hBeside : ∀ p ∈ ptrs, Beside r n p) :
    Keeps r n (kfreeAll k ptrs).heap := by
  induction ptrs generalizing k with
  | nil => exact h
  | cons p ptrs ih =>
      exact ih (k := kfree k p) (h.free (hBeside p List.mem_cons_self)) fun q hq =>
        hBeside q (List.mem_cons_of_mem p hq)

/-- Allocations that are given back once each leave the heap in order. -/
theorem kfreeAll_inOrder (hHeap : HeapInOrder k.heap) (hOwned : ∀ p ∈ ptrs, Owned k.heap p)
    (hOnce : ptrs.Pairwise fun p q => p ≠ 0 → blockOf p ≠ blockOf q) :
    HeapInOrder (kfreeAll k ptrs).heap := by
  induction ptrs generalizing k with
  | nil => exact hHeap
  | cons p ptrs ih =>
      obtain ⟨hFirst, hRest⟩ := List.pairwise_cons.mp hOnce
      refine ih (k := kfree k p) (hHeap.free (hOwned p List.mem_cons_self).unchained)
        (fun q hq => (hOwned q (List.mem_cons_of_mem p hq)).free hHeap.kernel ?_) hRest
      by_cases hNull : p = 0
      · exact Or.inl hNull
      · exact Or.inr (hFirst q hq hNull)

theorem pagingFreeLoop_eq (left i : Nat) (hRoom : i + left ≤ 1024)
    (hTables : PageTables k.mem directory table) :
    pagingFreeLoop directory left i k = kfreeAll k ((List.range' i left).map table) := by
  induction left generalizing i k with
  | zero => rfl
  | succ left ih =>
      rw [pagingFreeLoop, hTables.entry i (by omega), List.range'_succ, List.map_cons]
      exact ih (i + 1) (by omega) (k := kfree k (table i)) hTables

/-- The pages of a directory, in the order in which they are given back. -/
def directoryReleases (chunk directory : Nat) (table : Nat → Nat) : List Nat :=
  (List.range 1024).map table ++ [directory, chunk]

theorem mem_directoryReleases {q : Nat} (hq : q ∈ directoryReleases chunk directory table) :
    q = chunk ∨ q = directory ∨ ∃ d < 1024, q = table d := by
  rcases List.mem_append.mp hq with hTable | hPage
  · obtain ⟨d, hd, rfl⟩ := List.mem_map.mp hTable
    exact Or.inr (Or.inr ⟨d, List.mem_range.mp hd, rfl⟩)
  · rcases List.mem_cons.mp hPage with rfl | hChunk
    · exact Or.inr (Or.inl rfl)
    · exact Or.inl (List.mem_singleton.mp hChunk)

theorem pagingFree4gb_eq (hTables : PageTables k.mem directory table)
    (hPoints : loadWord k.mem chunk = directory) :
    pagingFree4gb k chunk = kfreeAll k (directoryReleases chunk directory table) := by
  have hLoop := pagingFreeLoop_eq tableEntriesCount 0 (by decide) hTables
  rw [← List.range_eq_range'] at hLoop
  rw [pagingFree4gb, hPoints, directoryReleases, kfreeAll_append, hLoop]
  rfl

theorem pagingFree4gb_keeps (hTables : PageTables k.mem directory table)
    (hPoints : loadWord k.mem chunk = directory) (hBeside : ∀ d < 1024, Beside r n (table d))
    (hDirectory : Beside r n directory) (hChunk : Beside r n chunk) (h : Keeps r n k.heap) :
    Keeps r n (pagingFree4gb k chunk).heap := by
  rw [pagingFree4gb_eq hTables hPoints]
  refine kfreeAll_keeps h fun q hq => ?_
  rcases mem_directoryReleases hq with rfl | rfl | ⟨d, hd, rfl⟩
  · exact hChunk
  · exact hDirectory
  · exact hBeside d hd

/-- The record of the directory is in none of its tables. -/
theorem DirectoryRecord.points_kept {start : KernelMemory} {flags : Nat} {mem : Memory}
    (hRecord : DirectoryRecord start k chunk directory flags table)
    (hOnly : TablesOnly table k.mem mem) : loadWord mem chunk = directory := by
  obtain ⟨hAligned, _, hHigh⟩ := hRecord.record.1.page hRecord.built.grows.heap
  rw [← hRecord.points]
  refine loadWord_congr fun i hi => ?_
  rw [behind_of_lt (by omega)]
  refine hOnly _ (by omega) fun ⟨d, hd, hPage⟩ => hRecord.recordApart.2 d hd ?_
  omega

end Release

/-- The pages of a new directory are allocations, and no two of them are the same. -/
theorem taskDirectory_releases {m : Storage} {directory chunk : Nat} {table : Nat → Nat}
    (hHeap : HeapInOrder m.files.heap) (hChunk : (taskDirectory m).1 ≠ 0)
    (hRecord : DirectoryRecord m.memory (taskDirectory m).2 (taskDirectory m).1 directory
      (pagingIsPresent ||| pagingAccessFromAll) table) (hSame : (taskDirectory m).1 = chunk) :
    (∀ q ∈ directoryReleases chunk directory table, Owned (taskDirectory m).2.heap q) ∧
      (directoryReleases chunk directory table).Pairwise fun p q => p ≠ 0 → blockOf p ≠ blockOf q := by
  subst hSame
  have hPage : ∀ q, q = (taskDirectory m).1 ∨ q = directory ∨ (∃ d < 1024, q = table d) →
      Allotted (taskDirectory m).2.heap (blockOf q) 1 ∧ (q : Int) = 16777216 + blockOf q * 4096 :=
    fun q hq => taskDirectory_allotted hHeap hChunk hRecord hq
  refine ⟨fun q hq => Or.inr (hPage q (mem_directoryReleases hq)).1.protected, ?_⟩
  have hApart : ∀ p q, p ∈ directoryReleases (taskDirectory m).1 directory table →
      q ∈ directoryReleases (taskDirectory m).1 directory table → p ≠ q → blockOf p ≠ blockOf q :=
    fun p q hp hq hne hBlock => hne (by
      have hFirst := (hPage p (mem_directoryReleases hp)).2
      have hSecond := (hPage q (mem_directoryReleases hq)).2
      omega)
  have hNodup : (directoryReleases (taskDirectory m).1 directory table).Nodup := by
    refine List.nodup_append.mpr ⟨?_, ?_, fun p hp q hq => ?_⟩
    · refine List.nodup_range.map_on fun d hd e he hSame => ?_
      exact hRecord.built.distinct d (List.mem_range.mp hd) e (List.mem_range.mp he) hSame
    · exact List.nodup_cons.mpr ⟨fun hSame => hRecord.recordApart.1 (List.mem_singleton.mp hSame).symm,
        List.nodup_singleton _⟩
    · obtain ⟨d, hd, rfl⟩ := List.mem_map.mp hp
      have hTable := List.mem_range.mp hd
      rcases List.mem_cons.mp hq with rfl | hLast
      · exact (hRecord.built.tables d hTable).2.2
      · rw [List.mem_singleton.mp hLast]
        exact (hRecord.recordApart.2 d hTable).symm
  exact hNodup.imp_of_mem fun hp hq hne _ => hApart _ _ hp hq hne

/-- The heap is in order when the task has been made, and also when it has been given
back. -/
theorem processLoadTask_inOrder (hHeap : HeapInOrder m.files.heap) (process : Nat)
    (program : Program) :
    (processLoadTask m process program).Ensures fun res => HeapInOrder res.2.2.files.heap := by
  intro res hCall
  obtain ⟨⟨task, m'⟩, hRequest, hRest⟩ := Attempt.bind_returned_iff.mp hCall
  have hOrder := m.kzalloc_inOrder hHeap sizeOfTask _ hRequest
  obtain ⟨hSome, hRest⟩ := Attempt.guard_returned_iff.mp hRest
  have hGranted := (Storage.kzalloc_granted hHeap (by decide) hRequest hSome).keeps
  have hTask : Keeps (blockOf task) (blocksOf sizeOfTask) m'.files.heap := hGranted
  have hBuilt := @taskDirectory_built m' hOrder.kernel
  have hKeeps := taskDirectory_keeps hTask
  have hMade := taskDirectory_inOrder hOrder
  have hReleases := @taskDirectory_releases m'
  dsimp only at hRest hOrder hSome
  generalize taskDirectory m' = made at hBuilt hKeeps hMade hReleases hRest
  obtain ⟨chunk, k⟩ := made
  obtain ⟨hChunk, hRest⟩ := Attempt.guard_returned_iff.mp hRest
  obtain ⟨directory, table, hRecord⟩ := hBuilt hChunk
  have hTables := (hRecord.built.maps (by decide)).toPageTables
  have hDirectory : getPageDirectoryEntry k.mem chunk = directory := hRecord.points
  obtain ⟨hOwned, hOnce⟩ := hReleases hOrder hChunk hRecord rfl
  rw [hDirectory] at hRest
  have hOnly := (processMapMemory_tables hTables program).2
  generalize processMapMemory k.mem directory program = mapped at hOnly hRest
  obtain ⟨map, mem'⟩ := mapped
  obtain rfl := Attempt.returned.inj hRest
  dsimp only at hOnly hKeeps hMade hOwned ⊢
  by_cases hFail : map < 0
  · have hHeap' := hRecord.built.grows.heap
    have hEqual := pagingFree4gb_eq (k := { k with mem := mem' }) (hTables.of_tablesOnly hOnly)
      (hRecord.points_kept hOnly)
    have hFreed := kfreeAll_inOrder (k := { k with mem := mem' }) hMade hOwned hOnce
    have hStays := pagingFree4gb_keeps (k := { k with mem := mem' }) (hTables.of_tablesOnly hOnly)
      (hRecord.points_kept hOnly)
      (fun d hd => hTask.beside_fresh hHeap' (hRecord.built.tables d hd).1
        (hRecord.built.tables d hd).2.1)
      (hTask.beside_fresh hHeap' hRecord.built.page.1 hRecord.built.page.2)
      (hTask.beside_fresh hHeap' hRecord.record.1 hRecord.record.2) hKeeps
    rw [← hEqual] at hFreed
    simp only [if_pos hFail]
    generalize pagingFree4gb { k with mem := mem' } chunk = freed at hFreed hStays ⊢
    have hFront : Owned freed.heap task := Or.inr hStays.block.protected
    exact hFreed.free hFront.unchained
  · simp only [if_neg hFail]
    exact hMade

/-- The task of a program takes nothing away either, whether it can be mapped or not. -/
theorem processLoadTask_untouched {mem : Memory} (h : Untouched r n mem m) (process : Nat)
    (program : Program) :
    (processLoadTask m process program).Ensures fun res => Untouched r n mem res.2.2 := by
  intro res hCall
  obtain ⟨⟨task, m'⟩, hRequest, hRest⟩ := Attempt.bind_returned_iff.mp hCall
  obtain ⟨_, hBeside, _⟩ := m.kzalloc_keeps h.toKeeps sizeOfTask _ hRequest
  have hTask : Untouched r n mem m' := (Storage.kzalloc_untouched h sizeOfTask _ hRequest).1
  obtain ⟨_, hRest⟩ := Attempt.guard_returned_iff.mp hRest
  have hBuilt := @taskDirectory_built m' hTask.kernel
  have hKeeps := taskDirectory_keeps hTask.toKeeps
  generalize taskDirectory m' = directory at hBuilt hKeeps hRest
  obtain ⟨chunk, k⟩ := directory
  obtain ⟨hChunk, hRest⟩ := Attempt.guard_returned_iff.mp hRest
  obtain ⟨directory, table, hRecord⟩ := hBuilt hChunk
  have hTables := (hRecord.built.maps (by decide)).toPageTables
  have hDirectory : getPageDirectoryEntry k.mem chunk = directory := hRecord.points
  rw [hDirectory] at hRest
  have hOnly := (processMapMemory_tables hTables program).2
  generalize processMapMemory k.mem directory program = mapped at hOnly hRest
  obtain ⟨map, mem'⟩ := mapped
  obtain rfl := Attempt.returned.inj hRest
  dsimp only at hOnly hKeeps ⊢
  have hHeap := hRecord.built.grows.heap
  have hSame : ∀ x < 4294967296, InBlocks r n x → mem' x = mem x := fun x hx hIn => by
    have hHeld := hTask.inBlocks hIn
    rw [hOnly x hx fun ⟨d, hd, hTable⟩ => (hRecord.built.tables d hd).2.1 (hTable ▸ hHeld)]
    exact (hRecord.built.grows.held hx hHeld).trans (hTask.same x hx hIn)
  by_cases hFail : map < 0
  · have hFreed := pagingFree4gb_keeps (k := { k with mem := mem' }) (hTables.of_tablesOnly hOnly)
      (hRecord.points_kept hOnly)
      (fun d hd => hTask.beside_fresh hHeap (hRecord.built.tables d hd).1
        (hRecord.built.tables d hd).2.1)
      (hTask.beside_fresh hHeap hRecord.built.page.1 hRecord.built.page.2)
      (hTask.beside_fresh hHeap hRecord.record.1 hRecord.record.2) hKeeps
    have hMem : (pagingFree4gb { k with mem := mem' } chunk).mem = mem' := by
      rw [pagingFree4gb_eq (hTables.of_tablesOnly hOnly) (hRecord.points_kept hOnly), kfreeAll_mem]
    simp only [if_pos hFail]
    generalize pagingFree4gb { k with mem := mem' } chunk = freed at hFreed hMem ⊢
    refine ⟨hFreed.free hBeside, fun x hx hIn => ?_⟩
    rw [← hSame x hx hIn]
    exact congrFun hMem x
  · simp only [if_neg hFail]
    exact ⟨hKeeps, hSame⟩

end Keeps

end LiebeOS
