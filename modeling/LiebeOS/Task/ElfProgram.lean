import LiebeOS.Task.ProgramParts

/-! An ELF file from the disk to its address space, whatever its headers ask for. -/
namespace LiebeOS

open Attempts MachineInt Bytes

/-- A load of an ELF file of `n` bytes for which the heap has room: every request is
granted, the file can be read, and none of its headers is refused. -/
structure ElfLoad (d : DiskFiles) (m : Storage) (filename : List UInt8) (n : Nat)
    (content : Nat → UInt8) where
  process : Nat
  afterProcess : Storage
  elfFile : Nat
  afterRecord : Storage
  processGranted : m.kzalloc sizeOfProcess = .returned (process, afterProcess) ∧ process ≠ 0
  recordGranted : afterProcess.kzalloc sizeOfElfFile = .returned (elfFile, afterRecord) ∧
    elfFile ≠ 0
  elf : FileReadWhole d afterRecord filename n content
  accepted : 0 ≤ (elfValidateLoaded elf.stored elf.buffer).value
  stack : Nat
  afterStack : Storage
  task : Nat
  afterTask : Storage
  stackGranted : elf.closed.kzalloc liebeOsUserProgramStackSize = .returned (stack, afterStack) ∧
    stack ≠ 0
  taskGranted : afterStack.kzalloc sizeOfTask = .returned (task, afterTask) ∧ task ≠ 0
  directoryGranted : (taskDirectory afterTask).1 ≠ 0
  header : 52 ≤ n
  table : RangeInside (filePhoff content) (32 * filePhnum content) n
  headers : ∀ k < filePhnum content, ¬ (fileHeader content k).Refused elf.buffer

section Load

variable {d : DiskFiles} {m : Storage} {filename : List UInt8} {n : Nat} {content : Nat → UInt8}

/-- The record of the file behind `elf_load`. -/
def ElfLoad.file (l : ElfLoad d m filename n content) : ElfFile :=
  (elfLoad l.elf.granted.mem l.elf.buffer l.elf.answers).value.2.2

theorem ElfLoad.elfLoad (l : ElfLoad d m filename n content) :
    (elfLoad l.elf.granted.mem l.elf.buffer l.elf.answers).value = (0, l.elf.stored, l.file) ∧
      l.file.elfMemory = l.elf.buffer := by
  have hn := l.header
  obtain ⟨file, hMemory, hLoad⟩ := l.elf.elfLoad (by omega)
  rw [if_neg (Int.not_lt.mpr l.accepted)] at hLoad
  have hFile : l.file = file := by rw [ElfLoad.file, hLoad]
  exact ⟨by rw [hLoad, hFile], by rw [hFile, hMemory]⟩

theorem ElfLoad.programRead (l : ElfLoad d m filename n content) :
    ProgramRead d l.afterProcess filename ⟨.elf l.elfFile l.file, 0, 0⟩ l.elf.closed := by
  have hn := l.header
  have hBuffer : l.elf.opened.kzalloc l.elf.entry.filesize =
      .returned (l.elf.buffer, l.elf.granted) := by
    rw [l.elf.filesize]
    exact l.elf.bufferGranted.1
  exact .elf l.recordGranted.1 l.recordGranted.2 l.elf.fopen.1 l.elf.fopen.2 l.elf.fstat hBuffer
    (fun hNull => l.elf.bufferGranted.2 hNull.1) (l.elf.readAnswers (by omega)) l.elfLoad.1
    (Int.le_refl 0)

theorem ElfLoad.inOrder (l : ElfLoad d m filename n content) (h : HeapInOrder m.files.heap) :
    HeapInOrder l.afterRecord.files.heap ∧ HeapInOrder l.elf.closed.files.heap ∧
      HeapInOrder l.afterTask.files.heap := by
  have hProcess := Storage.kzalloc_inOrder h _ _ l.processGranted.1
  have hRecord := Storage.kzalloc_inOrder hProcess _ _ l.recordGranted.1
  have hElf := l.elf.inOrder hRecord
  have hStack := Storage.kzalloc_inOrder hElf _ _ l.stackGranted.1
  exact ⟨hRecord, hElf, Storage.kzalloc_inOrder hStack _ _ l.taskGranted.1⟩

/-- The file is in its buffer when it has been closed. -/
theorem FileReadWhole.image (r : FileReadWhole d m filename n content)
    (h : HeapInOrder m.files.heap) (hn : 1 ≤ n) :
    AllottedAt r.closed.files.heap r.buffer (blocksOf n) ∧
      HoldsFile r.closed.mem r.buffer n content := by
  have hBuffer : r.opened.kzalloc r.entry.filesize = .returned (r.buffer, r.granted) := by
    rw [r.filesize]
    exact r.bufferGranted.1
  have hSize := r.filesize
  obtain ⟨hGranted, hKeeps⟩ := Storage.buffer_keeps h r.fopen.1 r.fstat hBuffer r.bufferGranted.2
    (by omega) r.stored
  rw [r.filesize] at hKeeps
  refine ⟨⟨hGranted.address, hKeeps.block⟩, fun i hi => ?_⟩
  obtain ⟨_, hEnd, _⟩ := r.bufferPages h hn
  exact storeRange_at hi (by omega)

theorem ElfLoad.image (l : ElfLoad d m filename n content) (h : HeapInOrder m.files.heap) :
    AllottedAt l.elf.closed.files.heap l.file.elfMemory (blocksOf n) ∧
      HoldsFile l.elf.closed.mem l.file.elfMemory n content ∧
      (ePhoff l.elf.closed.mem l.file.elfMemory).value ≠ 0 := by
  have hn := l.header
  obtain ⟨hImage, hContent⟩ := l.elf.image (l.inOrder h).1 (by omega)
  rw [l.elfLoad.2]
  refine ⟨hImage, hContent, ?_⟩
  change (ePhoff l.elf.stored l.elf.buffer).value ≠ 0
  rw [ePhoff_value]
  rcases @elfValidateLoaded_value l.elf.stored l.elf.buffer with ⟨hAccepts, _⟩ | ⟨_, hRefused⟩
  · exact hAccepts.2.2.2
  · have hAccepted := l.accepted
    rw [hRefused] at hAccepted
    exact absurd hAccepted (by decide)

/-- With nothing refused, nothing fails. -/
def ElfLoad.start (l : ElfLoad d m filename n content) (h : HeapInOrder m.files.heap) :
    ProgramStart d m filename where
  process := l.process
  afterProcess := l.afterProcess
  program := ⟨.elf l.elfFile l.file, 0, 0⟩
  afterProgram := l.elf.closed
  stack := l.stack
  afterStack := l.afterStack
  task := l.task
  afterTask := l.afterTask
  processGranted := l.processGranted
  programRead := l.programRead
  stackGranted := l.stackGranted
  taskGranted := l.taskGranted
  directoryGranted := l.directoryGranted
  mapped := by
    obtain ⟨_, hElf, hTask⟩ := l.inOrder h
    obtain ⟨hImage, hContent, hPhoff⟩ := l.image h
    obtain ⟨directory, table, hRecord⟩ := taskDirectory_built hTask.kernel l.directoryGranted
    obtain ⟨hElfTask, hPhnum, hPhdrs⟩ := hRecord.elfTask hElf hImage hContent hPhoff
      l.stackGranted.1 l.stackGranted.2 l.taskGranted.1 l.header l.table
    rw [show getPageDirectoryEntry _ _ = directory from hRecord.points]
    refine Int.le_of_eq (hElfTask.accepted rfl l.elfFile fun k hk => ?_).symm
    rw [hPhnum] at hk
    rw [hPhdrs k hk, l.elfLoad.2]
    exact l.headers k hk

/-- The segments of the file, in the order of their headers, and the stack over them. -/
theorem ElfLoad.maps (l : ElfLoad d m filename n content) (h : HeapInOrder m.files.heap) {w : Nat}
    (hw : w < 4294967296) (hPage : w % 4096 = 0) (hOut : ¬ InUserStack w) :
    pagingGet (l.start h).finish.mem (l.start h).directory w =
      mapSegments l.elf.buffer (fileHeader content) (filePhnum content)
        (pagingGet (taskDirectory l.afterTask).2.mem (l.start h).directory) w := by
  obtain ⟨table, hMapped⟩ := (l.start h).mappedTask h
  obtain ⟨hStack, hStackEnd⟩ := hMapped.stack
  obtain ⟨hImage, hContent, hPhoff⟩ := l.image h
  have hMaps := hMapped.maps_elf h rfl hImage hContent hPhoff l.header l.table
  have hHigh : (l.start h).stack + 16384 ≤ 0x07400000 := hStackEnd
  rw [hMaps.entries w hw hPage, mapStack_eq hStack (by omega) hw hPage hOut, l.elfLoad.2]
  rfl

end Load

/-! ### A segment that is larger than its file -/

/-- An executable of 84 bytes. Its segment has two pages, begins below the address where
the stack of the kernel ends, and is to be written to. -/
def wildExecutable : Nat → UInt8 := fun i =>
  ([0x7f, 0x45, 0x4c, 0x46, 1, 1, 1, 0, 0, 0, 0, 0, 0, 0, 0, 0, 2, 0, 3, 0, 1, 0, 0, 0,
    0, 0xf0, 0x5f, 0, 52, 0, 0, 0, 0, 0, 0, 0, 0, 0, 0, 0, 52, 0, 32, 0, 1, 0, 0, 0, 0, 0, 0, 0,
    1, 0, 0, 0, 0, 0, 0, 0, 0, 0xf0, 0x5f, 0, 0, 0xf0, 0x5f, 0, 84, 0, 0, 0, 0, 0x20, 0, 0,
    6, 0, 0, 0, 0, 0x10, 0, 0] : List UInt8).getD i 0

def wildFiles : DiskFiles := diskOf 84 wildExecutable

theorem wildExecutable_headers : filePhoff wildExecutable = 52 ∧ filePhnum wildExecutable = 1 ∧
    fileHeader wildExecutable 0 = ⟨ptLoad, 0, 0x5FF000, 84, 0x2000, 6⟩ := by
  decide

/-- The segment begins with the file. -/
theorem wildExecutable_segment {buffer : Nat} (hAligned : buffer % 4096 = 0)
    (hEnd : buffer ≤ 0x07400000) :
    (fileHeader wildExecutable 0).firstPage buffer = buffer ∧
      (fileHeader wildExecutable 0).endPage buffer = buffer + 8192 := by
  have hStart : (fileHeader wildExecutable 0).start buffer = buffer := by
    rw [wildExecutable_headers.2.2]
    unfold Phdr.start toWord
    dsimp only
    omega
  have hMemsz : (fileHeader wildExecutable 0).memsz = 8192 := by
    rw [wildExecutable_headers.2.2]
  rw [Phdr.firstPage, Phdr.endPage, hStart, hMemsz, behind_of_lt (by omega),
    pagingAlignAddress_eq (by omega), pagingAlignToLowerPage_eq]
  omega

/-- The requests of a load of that file, up to the ones for the page directory. The task
is put behind the file. -/
def loadWild (m : Storage) : Bool :=
  (m.kzalloc sizeOfProcess).test fun (process, m) => decide (process ≠ 0) &&
  (m.kzalloc sizeOfElfFile).test fun (elfFile, m) => decide (elfFile ≠ 0) &&
  readOne 84 wildExecutable m fun buffer mem m =>
    decide (0 ≤ (elfValidateLoaded mem buffer).value) &&
  (m.kzalloc liebeOsUserProgramStackSize).test fun (stack, m) => decide (stack ≠ 0) &&
  (m.kzalloc sizeOfTask).test fun (task, m) => decide (task ≠ 0 ∧ task = buffer + 4096) &&
    roomForDirectory m

theorem loadWild_load {m : Storage} (hHeap : HeapInOrder m.files.heap) (h : loadWild m = true) :
    ∃ l : ElfLoad wildFiles m missingFile 84 wildExecutable, l.task = l.elf.buffer + 4096 := by
  obtain ⟨⟨process, m₁⟩, hProcess, hRest⟩ := Attempt.test_iff.mp h
  obtain ⟨hProcessSome, hRest⟩ := Bool.and_eq_true_iff.mp hRest
  obtain ⟨⟨elfFile, m₂⟩, hRecord, hRest⟩ := Attempt.test_iff.mp hRest
  obtain ⟨hRecordSome, hRest⟩ := Bool.and_eq_true_iff.mp hRest
  obtain ⟨elf, _, hRest⟩ := readOne_iff hRest
  obtain ⟨hAccepted, hRest⟩ := Bool.and_eq_true_iff.mp hRest
  obtain ⟨⟨stack, m₃⟩, hStack, hRest⟩ := Attempt.test_iff.mp hRest
  obtain ⟨hStackSome, hRest⟩ := Bool.and_eq_true_iff.mp hRest
  obtain ⟨⟨task, m₄⟩, hTask, hRest⟩ := Attempt.test_iff.mp hRest
  obtain ⟨hTaskSome, hFree⟩ := Bool.and_eq_true_iff.mp hRest
  obtain ⟨hTaskSome, hBehind⟩ := of_decide_eq_true hTaskSome
  have hInOrder := Storage.kzalloc_inOrder hHeap _ _ hProcess
  have hInOrder := Storage.kzalloc_inOrder hInOrder _ _ hRecord
  obtain ⟨hAligned, hEnd, _⟩ := elf.bufferPages hInOrder (by decide)
  have hInOrder := Storage.kzalloc_inOrder (elf.inOrder hInOrder) _ _ hStack
  have hInOrder := Storage.kzalloc_inOrder hInOrder _ _ hTask
  obtain ⟨hPhoff, hPhnum, _⟩ := wildExecutable_headers
  exact ⟨
    { process := process
      afterProcess := m₁
      elfFile := elfFile
      afterRecord := m₂
      processGranted := ⟨hProcess, of_decide_eq_true hProcessSome⟩
      recordGranted := ⟨hRecord, of_decide_eq_true hRecordSome⟩
      elf := elf
      accepted := of_decide_eq_true hAccepted
      stack := stack
      afterStack := m₃
      task := task
      afterTask := m₄
      stackGranted := ⟨hStack, of_decide_eq_true hStackSome⟩
      taskGranted := ⟨hTask, hTaskSome⟩
      directoryGranted := roomForDirectory_granted hInOrder hFree
      header := by decide
      table := fun x hLow hHigh => by
        rw [hPhoff] at hLow hHigh
        rw [hPhnum] at hHigh
        omega
      headers := fun k hk => by
        rw [hPhnum] at hk
        obtain rfl : k = 0 := by omega
        obtain ⟨hFirst, hLast⟩ := wildExecutable_segment hAligned (by omega)
        rw [Phdr.Refused, hFirst, hLast]
        omega }, hBehind⟩

/-- The pages of the segment show the file and the page behind it. -/
theorem ElfLoad.wild {m : Storage} (l : ElfLoad wildFiles m missingFile 84 wildExecutable)
    (h : HeapInOrder m.files.heap) :
    pagingGet (l.start h).finish.mem (l.start h).directory 0x5FF000 =
        l.elf.buffer ||| userFlags true ∧
      pagingGet (l.start h).finish.mem (l.start h).directory 0x600000 =
        (l.elf.buffer + 4096) ||| userFlags true := by
  obtain ⟨hAligned, hEnd, _⟩ := l.elf.bufferPages (l.inOrder h).1 (by decide)
  obtain ⟨_, hPhnum, hHeader⟩ := wildExecutable_headers
  obtain ⟨hFirst, hLast⟩ := wildExecutable_segment hAligned (by omega)
  have hPages : (fileHeader wildExecutable 0).pages l.elf.buffer = 2 := by
    rw [Phdr.pages, hFirst, hLast]
    omega
  have hVirt : (fileHeader wildExecutable 0).virtPage = 0x5FF000 := by
    rw [hHeader]
    rfl
  have hFlags : (fileHeader wildExecutable 0).pageFlags = userFlags true := by
    rw [hHeader]
    rfl
  have hEntry : ∀ w < 4294967296, w % 4096 = 0 → 0x5FF000 ≤ w → w < 0x601000 →
      pagingGet (l.start h).finish.mem (l.start h).directory w =
        (l.elf.buffer + (w - 0x5FF000)) ||| userFlags true := fun w hw hPage hLow hHigh => by
    have hOffset : offsetFrom 0x5FF000 w = w - 0x5FF000 := by
      unfold offsetFrom toWord
      omega
    rw [l.maps h hw hPage (by rw [InUserStack.iff]; omega), hPhnum]
    refine ((Phdr.map_eq (loadWord_lt _ _) _ hw hPage).1 ?_).trans ?_
    · rw [Phdr.Covers, hPages, hVirt, hOffset]
      omega
    · rw [hFirst, hVirt, hOffset, hFlags, behind_of_lt (by omega)]
  exact ⟨hEntry _ (by decide) (by decide) (by decide) (by decide),
    hEntry _ (by decide) (by decide) (by decide) (by decide)⟩

theorem startSystem_loadWild :
    ∃ l : ElfLoad wildFiles (startSystem fun _ => 0).storage missingFile 84 wildExecutable,
      l.task = l.elf.buffer + 4096 :=
  loadWild_load (startSystem_heap _) (by decide +kernel)

end LiebeOS
