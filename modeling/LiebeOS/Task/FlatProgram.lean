import LiebeOS.Task.LoadAtomic

/-! A flat binary from the disk to its address space. The ELF loader reads the file
first and turns it down, then it is read a second time and mapped as it is. -/
namespace LiebeOS

open Attempts MachineInt Bytes

/-- The file is opened, has `n` bytes, and all of them are read into a buffer. -/
structure FileReadWhole (d : DiskFiles) (m : Storage) (filename : List UInt8) (n : Nat)
    (content : Nat → UInt8) where
  fd : Int
  opened : Storage
  entry : FatDirectoryItem
  buffer : Nat
  granted : Storage
  fopen : m.fopen d filename = .returned (fd, opened) ∧ 0 < fd
  fstat : fstatFile opened.files fd = .returned (.ok entry)
  filesize : entry.filesize = n
  bufferGranted : opened.kzalloc n = .returned (buffer, granted) ∧ buffer ≠ 0
  read : d.read entry = .returned (1, content)

section Read

variable {d : DiskFiles} {m m' : Storage} {filename : List UInt8} {n ptr size : Nat}
  {content : Nat → UInt8}

/-- Memory with the file in the buffer. -/
def FileReadWhole.stored (r : FileReadWhole d m filename n content) : Memory :=
  storeRange r.granted.mem r.buffer n content

/-- The file is closed again. -/
def FileReadWhole.closed (r : FileReadWhole d m filename n content) : Storage :=
  { r.granted with mem := r.stored }.fclose r.fd

/-- What the file system answers to whoever reads the file. -/
def FileReadWhole.answers (r : FileReadWhole d m filename n content) : FileAnswers :=
  ⟨r.fd, 0, n, 1, content⟩

theorem FileReadWhole.readAnswers (r : FileReadWhole d m filename n content) (hn : 1 ≤ n) :
    readAnswers d r.fd r.entry = .returned r.answers := by
  have hAnswers : LiebeOS.readAnswers d r.fd r.entry =
      .returned ⟨r.fd, 0, r.entry.filesize, 1, content⟩ := by
    rw [LiebeOS.readAnswers, if_neg (by rw [r.filesize]; omega), r.read]
    rfl
  rw [hAnswers]
  exact congrArg (fun size => Attempt.returned (FileAnswers.mk r.fd 0 size 1 content)) r.filesize

theorem FileReadWhole.fread (r : FileReadWhole d m filename n content) (hn : 1 ≤ n) :
    fread r.granted.mem r.buffer r.fd r.answers = (1, r.stored) := by
  have hOpen := r.fopen.2
  exact if_neg (show ¬ (n = 0 ∨ r.fd < 1) by omega)

/-- Closing the file leaves the heap in order. -/
theorem FileReadWhole.inOrder (r : FileReadWhole d m filename n content)
    (h : HeapInOrder m.files.heap) : HeapInOrder r.closed.files.heap := by
  obtain ⟨hOpened, hRecords⟩ := m.fopen_inOrder h _ r.fopen.1
  have hBuffer : r.opened.kzalloc r.entry.filesize = .returned (r.buffer, r.granted) := by
    rw [r.filesize]
    exact r.bufferGranted.1
  exact Storage.closeRead_inOrder hOpened hRecords r.fstat _ hBuffer r.stored

/-- The buffer is a row of pages, which are in use from then on. -/
theorem FileReadWhole.bufferPages (r : FileReadWhole d m filename n content)
    (h : HeapInOrder m.files.heap) (hn : 1 ≤ n) :
    r.buffer % 4096 = 0 ∧ r.buffer + n ≤ 0x07400000 ∧
      ∀ i < n, Held r.closed.files.heap ((r.buffer + i) / 4096 * 4096) := by
  have hBuffer : r.opened.kzalloc r.entry.filesize = .returned (r.buffer, r.granted) := by
    rw [r.filesize]
    exact r.bufferGranted.1
  have hSize := r.filesize
  obtain ⟨hGranted, hKeeps⟩ := Storage.buffer_keeps h r.fopen.1 r.fstat hBuffer r.bufferGranted.2
    (by omega) r.stored
  have hAddress := hGranted.address
  have hInside := hGranted.allotted.inside
  have hTotal := hGranted.heap.total_eq
  rw [r.filesize] at hKeeps hInside
  rw [hTotal] at hInside
  have hCovers := blocksOf_covers n
  refine ⟨by omega, by omega, fun i hi => ?_⟩
  exact hKeeps.held hAddress (by omega) (by omega)

end Read

/-- A load of a flat binary of `n` bytes for which the heap has room: every request is
granted, the file can be read, and `elf_validate_loaded` turns it down. -/
structure FlatLoad (d : DiskFiles) (m : Storage) (filename : List UInt8) (n : Nat)
    (content : Nat → UInt8) where
  process : Nat
  afterProcess : Storage
  elfFile : Nat
  afterRecord : Storage
  processGranted : m.kzalloc sizeOfProcess = .returned (process, afterProcess) ∧ process ≠ 0
  recordGranted : afterProcess.kzalloc sizeOfElfFile = .returned (elfFile, afterRecord) ∧ elfFile ≠ 0
  elf : FileReadWhole d afterRecord filename n content
  rejected : (elfValidateLoaded elf.stored elf.buffer).value < 0
  binary : FileReadWhole d elf.closed filename n content
  stack : Nat
  afterStack : Storage
  task : Nat
  afterTask : Storage
  stackGranted : binary.closed.kzalloc liebeOsUserProgramStackSize = .returned (stack, afterStack) ∧
    stack ≠ 0
  taskGranted : afterStack.kzalloc sizeOfTask = .returned (task, afterTask) ∧ task ≠ 0
  directoryGranted : (taskDirectory afterTask).1 ≠ 0

section Load

variable {d : DiskFiles} {m : Storage} {filename : List UInt8} {n : Nat} {content : Nat → UInt8}

/-- The file is in memory when it has been looked at, whether it is accepted or turned
down. -/
theorem FileReadWhole.elfLoad (r : FileReadWhole d m filename n content) (hn : 1 ≤ n) :
    ∃ file : ElfFile, file.elfMemory = r.buffer ∧
      (LiebeOS.elfLoad r.granted.mem r.buffer r.answers).value =
        (if (elfValidateLoaded r.stored r.buffer).value < 0 then -einformat else 0, r.stored, file) := by
  have hOpen := r.fopen.2
  have hWhole : ¬ r.answers.Unread := by
    change ¬ (r.fd ≤ 0 ∨ (0 : Int) < 0 ∨ n = 0 ∨ (1 : Int) < 0)
    omega
  have hStored : (LiebeOS.elfLoad r.granted.mem r.buffer r.answers).value.2.1 = r.stored := by
    rw [elfLoad_read hWhole]
    rfl
  obtain ⟨hCases, hMemory⟩ := @elfLoad_value r.granted.mem r.buffer r.answers hWhole
  refine ⟨_, hMemory, Prod.ext ?_ (Prod.ext hStored rfl)⟩
  rcases @elfValidateLoaded_value r.stored r.buffer with ⟨hAccepts, hValid⟩ | ⟨hNot, hRefused⟩
  · rw [hValid]
    rcases hCases with ⟨_, hRes⟩ | ⟨hNot, _⟩
    · exact hRes
    · exact absurd hAccepts hNot
  · rw [hRefused]
    rcases hCases with ⟨hAccepts, _⟩ | ⟨_, hRes⟩
    · exact absurd hAccepts hNot
    · exact hRes

theorem FlatLoad.elfLoadFile (l : FlatLoad d m filename n content) (hn : 1 ≤ n) :
    elfLoadFile d l.afterProcess filename = .returned (.error (-einformat), l.elf.closed) := by
  obtain ⟨file, _, hLoad⟩ := l.elf.elfLoad hn
  rw [if_pos l.rejected] at hLoad
  have hBuffer : l.elf.opened.kzalloc l.elf.entry.filesize =
      .returned (l.elf.buffer, l.elf.granted) := by
    rw [l.elf.filesize]
    exact l.elf.bufferGranted.1
  have hFile : elfReadFile d l.elf.opened l.elf.fd l.elf.entry l.elfFile =
      .returned (.error (-einformat), l.elf.closed) := by
    rw [elfReadFile, Attempt.bind_returned_iff]
    refine ⟨_, hBuffer, Attempt.guard_returned_iff.mpr ⟨fun hNull => l.elf.bufferGranted.2 hNull.1,
      Attempt.bind_returned_iff.mpr ⟨_, l.elf.readAnswers hn, ?_⟩⟩⟩
    rw [hLoad]
    rfl
  rw [LiebeOS.elfLoadFile, Attempt.bind_returned_iff]
  refine ⟨_, l.recordGranted.1, Attempt.bind_returned_iff.mpr ⟨_, l.elf.fopen.1, ?_⟩⟩
  dsimp only
  rw [if_neg (Int.not_le.mpr l.elf.fopen.2)]
  exact Attempt.bind_returned_iff.mpr ⟨.ok l.elf.entry, l.elf.fstat,
    Attempt.guard_returned_iff.mpr ⟨l.recordGranted.2, hFile⟩⟩

theorem FlatLoad.programRead (l : FlatLoad d m filename n content) (hn : 1 ≤ n) :
    ProgramRead d l.afterProcess filename ⟨.binary l.binary.buffer, 0, n⟩ l.binary.closed := by
  have hFread := l.binary.fread hn
  have hOpen := l.binary.fopen.2
  have hBuffer : l.binary.opened.kzalloc l.binary.entry.filesize =
      .returned (l.binary.buffer, l.binary.granted) := by
    rw [l.binary.filesize]
    exact l.binary.bufferGranted.1
  have hRead := ProgramRead.flat (l.elfLoadFile hn) l.binary.fopen.1 (by omega) l.binary.fstat
    hBuffer l.binary.bufferGranted.2 (l.binary.readAnswers hn) (by rw [hFread])
  rw [hFread, l.binary.filesize] at hRead
  exact hRead

theorem FlatLoad.inOrder (l : FlatLoad d m filename n content) (h : HeapInOrder m.files.heap) :
    HeapInOrder l.elf.closed.files.heap ∧ HeapInOrder l.binary.closed.files.heap ∧
      HeapInOrder l.afterStack.files.heap ∧ HeapInOrder l.afterTask.files.heap := by
  have hProcess := Storage.kzalloc_inOrder h _ _ l.processGranted.1
  have hElf := l.elf.inOrder (Storage.kzalloc_inOrder hProcess _ _ l.recordGranted.1)
  have hBinary := l.binary.inOrder hElf
  have hStack := Storage.kzalloc_inOrder hBinary _ _ l.stackGranted.1
  exact ⟨hElf, hBinary, hStack, Storage.kzalloc_inOrder hStack _ _ l.taskGranted.1⟩

/-- Nothing that is requested for the task touches the file. -/
theorem FlatLoad.content_kept (l : FlatLoad d m filename n content) (h : HeapInOrder m.files.heap)
    (hn : 1 ≤ n) {i : Nat} (hi : i < n) :
    l.afterTask.mem (l.binary.buffer + i) = content i ∧
      Held l.afterTask.files.heap ((l.binary.buffer + i) / 4096 * 4096) := by
  obtain ⟨hElf, hBinary, hStack, _⟩ := l.inOrder h
  obtain ⟨_, hEnd, hPages⟩ := l.binary.bufferPages hElf hn
  have hHeld := hPages i hi
  have hHeld' : Held l.afterStack.files.heap ((l.binary.buffer + i) / 4096 * 4096) :=
    Storage.kzalloc_survives (P := fun heap => Held heap _) (hHeld.malloc _) _ l.stackGranted.1
  have hStored : l.binary.stored (l.binary.buffer + i) = content i := by
    have hByte := @storeRange_at l.binary.granted.mem l.binary.buffer n i content hi (by omega)
    rwa [behind_of_lt (by omega)] at hByte
  refine ⟨?_, Storage.kzalloc_survives (P := fun heap => Held heap _) (hHeld'.malloc _) _
    l.taskGranted.1⟩
  rw [Storage.kzalloc_mem hStack.kernel l.taskGranted.1 (by omega) hHeld',
    Storage.kzalloc_mem hBinary.kernel l.stackGranted.1 (by omega) hHeld]
  exact hStored

/-! ### The address space -/

/-- The program with its stack. -/
def FlatLoad.loaded (l : FlatLoad d m filename n content) : Program :=
  ⟨.binary l.binary.buffer, l.stack, n⟩

def FlatLoad.directory (l : FlatLoad d m filename n content) : Nat :=
  getPageDirectoryEntry (taskDirectory l.afterTask).2.mem (taskDirectory l.afterTask).1

/-- The pages of the file are mapped over a directory that maps each page to itself. -/
def flatMap (buffer n : Nat) : PageMap :=
  mapRange (userFlags true) (blocksOf n) (fun v => v ||| (pagingIsPresent ||| pagingAccessFromAll))
    liebeOsProgramVirtualAddress buffer

theorem processMapBinary_maps {mem : Memory} {directory buffer n : Nat} {table : Nat → Nat}
    (h : Maps mem directory table fun v => v ||| (pagingIsPresent ||| pagingAccessFromAll))
    (hAligned : buffer % 4096 = 0) (hEnd : buffer + n ≤ 0x07400000) (hn : 1 ≤ n) :
    ∃ mem', processMapBinary mem directory buffer n = (0, mem') ∧
      Maps mem' directory table (flatMap buffer n) ∧ TablesOnly table mem mem' := by
  have hPhysEnd : pagingAlignAddress (behind buffer n) = buffer + 4096 * blocksOf n := by
    refine pagingAlignAddress_request hAligned hn ?_
    unfold blocksOf
    omega
  have hMapped := h.mapTo (userFlags_lt true)
    (show liebeOsProgramVirtualAddress % 4096 = 0 by decide) (by decide) hAligned (by omega)
    (pagingAlignAddress_aligned (behind buffer n))
  rw [processMapBinary]
  rw [hPhysEnd] at hMapped ⊢
  rcases hMapped with ⟨hOrder, _⟩ | ⟨_, mem', hRun, hImage, hOnly⟩
  · omega
  · rw [show (buffer + 4096 * blocksOf n - buffer) / 4096 = blocksOf n by omega] at hImage
    exact ⟨mem', hRun, hImage, hOnly⟩

theorem FlatLoad.maps (l : FlatLoad d m filename n content) (h : HeapInOrder m.files.heap)
    (hn : 1 ≤ n) :
    ∃ table mem, DirectoryRecord l.afterTask.memory (taskDirectory l.afterTask).2
        (taskDirectory l.afterTask).1 l.directory (pagingIsPresent ||| pagingAccessFromAll) table ∧
      mapData (taskDirectory l.afterTask).2.mem l.directory l.loaded = (0, mem) ∧
      Maps mem l.directory table (flatMap l.binary.buffer n) ∧
      TablesOnly table (taskDirectory l.afterTask).2.mem mem := by
  obtain ⟨hElf, _, _, hTask⟩ := l.inOrder h
  obtain ⟨hAligned, hEnd, _⟩ := l.binary.bufferPages hElf hn
  obtain ⟨directory, table, hRecord⟩ := taskDirectory_built hTask.kernel l.directoryGranted
  have hDirectory : l.directory = directory := hRecord.points
  rw [← hDirectory] at hRecord
  obtain ⟨mem, hRun, hImage, hOnly⟩ := processMapBinary_maps (hRecord.built.maps (by decide)) hAligned
    hEnd hn
  exact ⟨table, mem, hRecord, hRun, hImage, hOnly⟩

/-- With nothing refused, nothing fails. -/
def FlatLoad.start (l : FlatLoad d m filename n content) (h : HeapInOrder m.files.heap)
    (hn : 1 ≤ n) : ProgramStart d m filename where
  process := l.process
  afterProcess := l.afterProcess
  program := ⟨.binary l.binary.buffer, 0, n⟩
  afterProgram := l.binary.closed
  stack := l.stack
  afterStack := l.afterStack
  task := l.task
  afterTask := l.afterTask
  processGranted := l.processGranted
  programRead := l.programRead hn
  stackGranted := l.stackGranted
  taskGranted := l.taskGranted
  directoryGranted := l.directoryGranted
  mapped := by
    obtain ⟨_, mem, _, hData, _⟩ := l.maps h hn
    have hRes : (processMapMemory (taskDirectory l.afterTask).2.mem l.directory l.loaded).1 = 0 := by
      rw [processMapMemory_eq, hData]
      rfl
    exact Int.le_of_eq hRes.symm

/-- At `v` the program can write, and what it finds there is at address `phys`. -/
def UserWritable (mem : Memory) (directory v phys : Nat) : Prop :=
  pagingGetPhysicalAddress mem directory v = phys ∧
    pagingGet mem directory (v / 4096 * 4096) = (phys / 4096 * 4096) ||| userFlags true

/-- What a flat program of `n` bytes finds: the file, a stack of its own, and otherwise
every page where it is in memory, not to be written to. -/
structure FlatSpace (mem : Memory) (directory stack n : Nat) (content : Nat → UInt8) : Prop where
  program : ∀ i < n, ∃ phys, UserWritable mem directory (liebeOsProgramVirtualAddress + i) phys ∧
    mem phys = content i
  stack : ∀ v, liebeOsProgramVirtualStackAddressEnd ≤ v → v < liebeOsProgramVirtualStackAddressStart →
    UserWritable mem directory v (stack + (v - liebeOsProgramVirtualStackAddressEnd))
  others : ∀ w < 4294967296, w % 4096 = 0 → ¬ InUserStack w →
    (w < liebeOsProgramVirtualAddress ∨ liebeOsProgramVirtualAddress + n ≤ w) →
      pagingGet mem directory w = w ||| userFlags false

theorem Maps.userWritable {mem : Memory} {directory v phys : Nat} {table : Nat → Nat} {map : PageMap}
    (h : Maps mem directory table map) (hv : v < 4294967296) (hPhys : phys < 4294967296)
    (hOffset : phys % 4096 = v % 4096)
    (hEntry : map (v / 4096 * 4096) = (phys / 4096 * 4096) ||| userFlags true) :
    UserWritable mem directory v phys := by
  refine ⟨?_, (h.entries _ (by omega) (by omega)).trans hEntry⟩
  rw [h.translate hv (by omega) (by omega) (userFlags_lt true) hEntry]
  omega

/-- An address in the stack is as far into its page as its place in memory. -/
theorem stack_offset {stack v : Nat} (hStack : stack % 4096 = 0) (hLow : 0x3FB000 ≤ v) :
    stack + (v / 4096 * 4096 - 0x3FB000) = (stack + (v - 0x3FB000)) / 4096 * 4096 := by
  omega

theorem FlatLoad.space (l : FlatLoad d m filename n content) (h : HeapInOrder m.files.heap)
    (hn : 1 ≤ n) :
    FlatSpace (l.start h hn).mapping.2 (l.start h hn).directory l.stack n content := by
  obtain ⟨hStack, hStackEnd, table, hRecord, _, hOnly, hMaps⟩ := (l.start h hn).maps h
  obtain ⟨table', mem, _, hData, hImage, _⟩ := l.maps h hn
  obtain ⟨hAligned, hEnd, _⟩ := l.binary.bufferPages (l.inOrder h).1 hn
  have hStackHigh : l.stack + 16384 ≤ 0x07400000 := hStackEnd
  have hStackPage : l.stack % 4096 = 0 := hStack
  have hStackLt : (l.start h hn).stack < 4294967296 := show l.stack < 4294967296 by omega
  have hBlocks : 4096 * blocksOf n < n + 4096 := by
    unfold blocksOf
    omega
  have hCovers := blocksOf_covers n
  -- the map behind the image, before the stack is laid over it
  have hFlat : ∀ w < 4294967296, w % 4096 = 0 →
      pagingGet (mapData (taskDirectory (l.start h hn).afterTask).2.mem (l.start h hn).directory
        (l.start h hn).loaded).2 (l.start h hn).directory w = flatMap l.binary.buffer n w :=
    fun w hw hPage => by
      have hSame : mapData (taskDirectory (l.start h hn).afterTask).2.mem (l.start h hn).directory
          (l.start h hn).loaded = (0, mem) := hData
      rw [hSame]
      exact hImage.entries w hw hPage
  have hInside : ∀ w < 4294967296, w % 4096 = 0 → ∀ k < 4096 * blocksOf n,
      w = 0x400000 + k → flatMap l.binary.buffer n w = (l.binary.buffer + k) ||| userFlags true :=
    fun w hw hPage k hk hPlace => by
      have hOffset : offsetFrom liebeOsProgramVirtualAddress w = k := by
        unfold offsetFrom toWord liebeOsProgramVirtualAddress
        omega
      unfold flatMap
      rw [mapRange_eq _ (by omega) (by decide) (by decide) (by omega) hw hPage, hOffset, if_pos hk,
        behind_of_lt (by omega)]
  refine ⟨fun i hi => ⟨l.binary.buffer + i, ?_, ?_⟩, fun v hLow hHigh => ?_, fun w hw hPage hOut hFar => ?_⟩
  · refine hMaps.userWritable (by unfold liebeOsProgramVirtualAddress; omega) (by omega)
      (by unfold liebeOsProgramVirtualAddress; omega) ?_
    unfold liebeOsProgramVirtualAddress
    rw [mapStack_eq hStack hStackLt (by omega) (by omega)
      (by rw [InUserStack.iff]; omega), hFlat _ (by omega) (by omega),
      hInside _ (by omega) (by omega) (i / 4096 * 4096) (by omega) (by omega)]
    congr 1
    omega
  · obtain ⟨hContent, hHeld⟩ := l.content_kept h hn hi
    have hTables : ¬ InTables table (l.binary.buffer + i) := by
      rintro ⟨t, ht, hPage⟩
      rw [hPage] at hHeld
      exact (hRecord.built.tables t ht).2.1 hHeld
    rw [hOnly _ (by omega) hTables, hRecord.built.grows.held (by omega) hHeld]
    exact hContent
  · unfold liebeOsProgramVirtualStackAddressStart at hHigh
    have hStackAt : liebeOsProgramVirtualStackAddressEnd = 0x3FB000 := rfl
    rw [hStackAt] at hLow ⊢
    have hHigh' : (l.start h hn).stack + 16384 ≤ 4294963200 :=
      show l.stack + 16384 ≤ 4294963200 by omega
    refine hMaps.userWritable (by omega) (by omega) (by omega) ?_
    rw [mapStack_in hStack hHigh' (by omega) (by omega) (by rw [InUserStack.iff]; omega), hStackAt]
    exact congrArg (· ||| userFlags true) (stack_offset hStackPage hLow)
  · unfold liebeOsProgramVirtualAddress at hFar
    have hOffset : ¬ offsetFrom liebeOsProgramVirtualAddress w < 4096 * blocksOf n := by
      unfold offsetFrom toWord liebeOsProgramVirtualAddress
      unfold blocksOf
      omega
    rw [hMaps.entries w hw hPage, mapStack_eq hStack hStackLt hw hPage hOut, hFlat w hw hPage]
    unfold flatMap
    rw [mapRange_eq _ (by omega) (by decide) (by decide) (by omega) hw hPage, if_neg hOffset]
    rfl

end Load

section Start

variable {d : DiskFiles} {live : List Nat} {s s' : System} {filename : List UInt8}

/-- The task begins with the first byte of the file, under the directory of its program. -/
theorem FlatLoad.started {n : Nat} {content : Nat → UInt8}
    (l : FlatLoad d s.storage filename n content) (hHeap : HeapInOrder s.storage.files.heap)
    (hn : 1 ≤ n) {slot process : Nat} {res : Int} (hSlot : processGetFreeSlot s.kernel = some slot)
    (hCall : systemProcessLoad d s filename = .returned (res, process, s'))
    (hReady : ProcessReady live s s' slot l.process l.task) :
    (s'.kernel.sched.tasks l.task).registers.ip = liebeOsProgramVirtualAddress ∧
      FlatSpace s'.storage.mem (s'.loaded l.process).directory l.stack n content := by
  obtain ⟨_, _, hStarted⟩ := (l.start hHeap hn).started hHeap hSlot hCall
  have hLoaded : s'.loaded l.process = _ := hStarted.loaded
  refine ⟨?_, ?_⟩
  · refine (congrArg Registers.ip hReady.registers).trans ?_
    rw [hLoaded]
    rfl
  · have hDirectory : (s'.loaded l.process).directory = (l.start hHeap hn).directory := by
      rw [hLoaded]
      rfl
    rw [hDirectory, hStarted.storage]
    exact l.space hHeap hn

/-- The stack is an allocation of its own, and is one still when the program is ready. -/
theorem FlatLoad.stack_kept {n : Nat} {content : Nat → UInt8}
    (l : FlatLoad d s.storage filename n content) (hHeap : HeapInOrder s.storage.files.heap)
    (hn : 1 ≤ n) {slot process : Nat} {res : Int} (hSlot : processGetFreeSlot s.kernel = some slot)
    (hCall : systemProcessLoad d s filename = .returned (res, process, s')) :
    (s'.loaded l.process).program.stack = l.stack ∧
      FreeRun l.binary.closed.files.heap.table.entries (blockOf l.stack)
        (blocksOf liebeOsUserProgramStackSize) ∧
      Allotted s'.storage.files.heap (blockOf l.stack) (blocksOf liebeOsUserProgramStackSize) := by
  obtain ⟨_, _, hStarted⟩ := (l.start hHeap hn).started hHeap hSlot hCall
  have hLoaded : s'.loaded l.process = _ := hStarted.loaded
  have hStack := Storage.kzalloc_granted (l.inOrder hHeap).2.1 (by decide) l.stackGranted.1
    l.stackGranted.2
  refine ⟨by rw [hLoaded]; rfl, hStack.free, ?_⟩
  have hTask : Keeps (blockOf l.stack) (blocksOf liebeOsUserProgramStackSize) l.afterTask.files.heap :=
    (l.afterStack.kzalloc_keeps hStack.keeps sizeOfTask _ l.taskGranted.1).1
  rw [hStarted.storage, ProgramStart.finish_heap]
  exact (taskDirectory_keeps (m := (l.start hHeap hn).afterTask) hTask).block

end Start

/-- A disk with one file of `n` bytes. -/
def diskOf (n : Nat) (content : Nat → UInt8) : DiskFiles :=
  ⟨⟨⟨⟨0x01000000, 0x01001000, 1, fun _ => ⟨[0x78], 0, 2, n⟩⟩, fun _ => none⟩, 1, 1⟩,
    fun _ => .returned (1, content)⟩

/-- Reads that file, and goes on with the buffer, with memory and with what is left
behind. -/
def readOne (n : Nat) (content : Nat → UInt8) (m : Storage)
    (next : Nat → Memory → Storage → Bool) : Bool :=
  (m.fopen (diskOf n content) missingFile).test fun (fd, opened) => decide (0 < fd) &&
    (fstatFile opened.files fd).test fun stat =>
      match stat with
      | .error _ => false
      | .ok entry => decide (entry.firstCluster = 2 ∧ entry.filesize = n) &&
        (opened.kzalloc n).test fun (buffer, granted) =>
          decide (buffer ≠ 0) &&
            let mem := storeRange granted.mem buffer n content
            next buffer mem ({ granted with mem := mem }.fclose fd)

theorem readOne_iff {n : Nat} {content : Nat → UInt8} {m : Storage}
    {next : Nat → Memory → Storage → Bool} (h : readOne n content m next = true) :
    ∃ r : FileReadWhole (diskOf n content) m missingFile n content,
      r.entry.firstCluster = 2 ∧ next r.buffer r.stored r.closed = true := by
  obtain ⟨⟨fd, opened⟩, hOpen, hRest⟩ := Attempt.test_iff.mp h
  obtain ⟨hFd, hRest⟩ := Bool.and_eq_true_iff.mp hRest
  obtain ⟨stat, hStat, hRest⟩ := Attempt.test_iff.mp hRest
  cases stat with
  | error res => cases hRest
  | ok entry =>
      obtain ⟨hSize, hRest⟩ := Bool.and_eq_true_iff.mp hRest
      obtain ⟨⟨buffer, granted⟩, hBuffer, hRest⟩ := Attempt.test_iff.mp hRest
      obtain ⟨hSome, hRest⟩ := Bool.and_eq_true_iff.mp hRest
      obtain ⟨hCluster, hFilesize⟩ := of_decide_eq_true hSize
      exact ⟨⟨fd, opened, entry, buffer, granted, ⟨hOpen, of_decide_eq_true hFd⟩, hStat, hFilesize,
        ⟨hBuffer, of_decide_eq_true hSome⟩, rfl⟩, hCluster, hRest⟩

/-- There is room for the pages of a directory, and for a few more. -/
def roomForDirectory (m : Storage) : Bool :=
  (List.range 1100).all fun i => decide (entryTaken (m.files.heap.table.entries (64 + i)) = false)

theorem roomForDirectory_card {m : Storage} (hHeap : HeapInOrder m.files.heap)
    (h : roomForDirectory m = true) : 1100 ≤ (freeBlocks m.memory.heap).card := by
  have hRun : FreeRun m.memory.heap.table.entries 64 1100 := fun j hLow hHigh => by
    have hEntry := List.all_eq_true.mp h (j - 64).toNat (List.mem_range.mpr (by omega))
    rw [show (64 + ((j - 64).toNat : Int)) = j by omega] at hEntry
    exact of_decide_eq_true hEntry
  have hKernel : KernelHeap m.memory.heap := hHeap.kernel
  exact hRun.card (by decide) (by rw [hKernel.total_eq]; decide)

theorem roomForDirectory_granted {m : Storage} (hHeap : HeapInOrder m.files.heap)
    (h : roomForDirectory m = true) : (taskDirectory m).1 ≠ 0 := by
  have hCard := roomForDirectory_card hHeap h
  unfold taskDirectory
  exact createNewPageDirectory_room _ hHeap.kernel (by omega)

/-- The only file of the disk has sixteen bytes. -/
def flatFiles : DiskFiles := diskOf 16 fun _ => 0x90

/-- The requests of a load of that file, up to the ones for the page directory. -/
def loadFlat (m : Storage) : Bool :=
  (m.kzalloc sizeOfProcess).test fun (process, m) => decide (process ≠ 0) &&
  (m.kzalloc sizeOfElfFile).test fun (elfFile, m) => decide (elfFile ≠ 0) &&
  readOne 16 (fun _ => 0x90) m fun buffer mem m =>
    decide ((elfValidateLoaded mem buffer).value < 0) &&
  readOne 16 (fun _ => 0x90) m fun _ _ m =>
  (m.kzalloc liebeOsUserProgramStackSize).test fun (stack, m) => decide (stack ≠ 0) &&
  (m.kzalloc sizeOfTask).test fun (task, m) => decide (task ≠ 0) && roomForDirectory m

theorem loadFlat_load {m : Storage} (hHeap : HeapInOrder m.files.heap) (h : loadFlat m = true) :
    ∃ l : FlatLoad flatFiles m missingFile 16 fun _ => 0x90, l.binary.entry.firstCluster = 2 ∧
      1100 ≤ (freeBlocks l.afterTask.memory.heap).card := by
  obtain ⟨⟨process, m₁⟩, hProcess, hRest⟩ := Attempt.test_iff.mp h
  obtain ⟨hProcessSome, hRest⟩ := Bool.and_eq_true_iff.mp hRest
  obtain ⟨⟨elfFile, m₂⟩, hRecord, hRest⟩ := Attempt.test_iff.mp hRest
  obtain ⟨hRecordSome, hRest⟩ := Bool.and_eq_true_iff.mp hRest
  obtain ⟨elf, _, hRest⟩ := readOne_iff hRest
  obtain ⟨hRejected, hRest⟩ := Bool.and_eq_true_iff.mp hRest
  obtain ⟨binary, hCluster, hRest⟩ := readOne_iff hRest
  obtain ⟨⟨stack, m₃⟩, hStack, hRest⟩ := Attempt.test_iff.mp hRest
  obtain ⟨hStackSome, hRest⟩ := Bool.and_eq_true_iff.mp hRest
  obtain ⟨⟨task, m₄⟩, hTask, hRest⟩ := Attempt.test_iff.mp hRest
  obtain ⟨hTaskSome, hFree⟩ := Bool.and_eq_true_iff.mp hRest
  have hInOrder := Storage.kzalloc_inOrder hHeap _ _ hProcess
  have hInOrder := elf.inOrder (Storage.kzalloc_inOrder hInOrder _ _ hRecord)
  have hInOrder := Storage.kzalloc_inOrder (binary.inOrder hInOrder) _ _ hStack
  have hInOrder := Storage.kzalloc_inOrder hInOrder _ _ hTask
  exact ⟨⟨process, m₁, elfFile, m₂, ⟨hProcess, of_decide_eq_true hProcessSome⟩,
    ⟨hRecord, of_decide_eq_true hRecordSome⟩, elf, of_decide_eq_true hRejected, binary, stack, m₃,
    task, m₄, ⟨hStack, of_decide_eq_true hStackSome⟩, ⟨hTask, of_decide_eq_true hTaskSome⟩,
    roomForDirectory_granted hInOrder hFree⟩, hCluster, roomForDirectory_card hInOrder hFree⟩

theorem startSystem_heap (processes : Nat → Nat) :
    HeapInOrder (startSystem processes).storage.files.heap :=
  ⟨freshFiles_heap.1, freshFiles_heap.2⟩

/-- The first program that is loaded. -/
theorem startSystem_load :
    ∃ l : FlatLoad flatFiles (startSystem fun _ => 0).storage missingFile 16 fun _ => 0x90,
      l.binary.entry.firstCluster = 2 ∧ 1100 ≤ (freeBlocks l.afterTask.memory.heap).card :=
  loadFlat_load (startSystem_heap _) (by decide +kernel)

end LiebeOS
