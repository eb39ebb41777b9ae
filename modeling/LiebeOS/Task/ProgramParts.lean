import LiebeOS.Task.Isolation

/-! What a process has for its own when it has been loaded. Its allocations are requested
one after the other, each from blocks that are not in use. -/
namespace LiebeOS

open Attempts MachineInt Bytes

/-- The file of that name has `L` bytes, and it is read as `content`. -/
def ReadsFile (d : DiskFiles) (filename : List UInt8) (content : Nat → UInt8) (L : Nat) : Prop :=
  ∃ (m m' : Storage) (fd : Int) (entry : FatDirectoryItem) (a : FileAnswers),
    m.fopen d filename = .returned (fd, m') ∧ fstatFile m'.files fd = .returned (.ok entry) ∧
      readAnswers d fd entry = .returned a ∧ a.content = content ∧ a.filesize = L

/-- What is left of reading a program: the record of an ELF file, and the image. `before`
is the heap when the image is requested. -/
structure ProgramPlaced (d : DiskFiles) (m : Storage) (filename : List UInt8) (program : Program)
    (m' : Storage) (before : Heap) (content : Nat → UInt8) (L : Nat) : Prop where
  file : ReadsFile d filename content L
  keeps : ∀ {r n}, Keeps r n m.files.heap → Keeps r n before
  record : program.data.record ≠ 0 →
    entryTaken (m.files.heap.table.entries (blockOf program.data.record)) = false ∧
      AllottedAt before program.data.record 1 ∧ AllottedAt m'.files.heap program.data.record 1
  free : entryTaken (before.table.entries (blockOf program.data.image)) = false
  image : AllottedAt m'.files.heap program.data.image (blocksOf L)
  some : 1 ≤ L
  elf : ∀ elfFile file, program.data = .elf elfFile file →
    HoldsFile m'.mem file.elfMemory L content ∧ (ePhoff m'.mem file.elfMemory).value ≠ 0
  flat : ∀ ptr, program.data = .binary ptr → program.size = L

section Read

theorem Granted.first_free {k k' : KernelMemory} {size ptr : Nat} (h : Granted k size ptr k') :
    entryTaken (k.heap.table.entries (blockOf ptr)) = false := by
  have hPositive := blocksOf_pos size
  exact h.free _ (Int.le_refl _) (by omega)

variable {d : DiskFiles} {m m' : Storage} {filename : List UInt8} {program : Program}

theorem ProgramRead.placed (h : ProgramRead d m filename program m')
    (hHeap : HeapInOrder m.files.heap) :
    ∃ before content L, ProgramPlaced d m filename program m' before content L := by
  cases h with
  | @elf elfFile elfMemory fd res entry a m₁ m₂ m₃ mem image hRecord hSome hOpen hFd hStat hBuffer
      hFull hRead hLoad hAccepted =>
      have hWhole : ¬ a.Unread := fun hUnread => by
        have hError := (@elfLoad_unread m₃.mem elfMemory a hUnread).1
        rw [hLoad] at hError
        omega
      have hValue := @elfLoad_value m₃.mem elfMemory a hWhole
      have hStored : (elfLoad m₃.mem elfMemory a).value.2.1 = a.stored m₃.mem elfMemory := by
        rw [elfLoad_read hWhole]
        rfl
      rw [hLoad] at hStored
      dsimp only at hStored
      subst hStored
      rw [hLoad] at hValue
      obtain ⟨hChecked, hMemory⟩ := hValue
      obtain rfl : image.elfMemory = elfMemory := hMemory
      have hSize := readAnswers_size a hRead
      have hBytes : 1 ≤ entry.filesize := by
        unfold FileAnswers.Unread at hWhole
        omega
      have hInOrder := m.kzalloc_inOrder hHeap _ _ hRecord
      have hGranted := Storage.kzalloc_granted hHeap (by decide) hRecord hSome
      obtain ⟨hImage, hKept⟩ := Storage.buffer_keeps hInOrder hOpen hStat hBuffer (by omega) hBytes
        (a.stored m₃.mem image.elfMemory)
      have hEnd : image.elfMemory + entry.filesize ≤ 0x07400000 := by
        have hOpened := (Storage.fopen_inOrder hInOrder _ hOpen).1
        exact (Storage.kzalloc_page hOpened.kernel hBuffer (by omega)).2
      have hAccepts : ElfAccepts (bytesFrom (a.stored m₃.mem image.elfMemory) image.elfMemory) := by
        rcases hChecked with hYes | hNo
        · exact hYes.1
        · have hError : res = -einformat := hNo.2
          rw [hError] at hAccepted
          exact absurd hAccepted (by decide)
      have hBlock : blocksOf sizeOfElfFile = 1 := by decide
      have hFront : Keeps (blockOf elfFile) 1 m₁.files.heap := by
        rw [← hBlock]
        exact hGranted.keeps
      have hOpened := Storage.fopen_keeps hFront _ hOpen
      have hBuffered := m₂.kzalloc_keeps hOpened.1 _ _ hBuffer
      have hFree := hGranted.first_free
      refine ⟨m₂.files.heap, a.content, entry.filesize, ⟨m₁, m₂, fd, entry, a, hOpen, hStat, hRead,
        rfl, hSize⟩, fun hKeeps => ?_, fun _ => ⟨hFree, ⟨hGranted.address, hOpened.1.block⟩,
          hGranted.address, ?_⟩, ?_, ⟨hImage.address, hKept.block⟩, hBytes,
        fun elfFile' file hData => ?_, fun ptr hData => by cases hData⟩
      · exact (Storage.fopen_keeps (m.kzalloc_keeps hKeeps _ _ hRecord).1 _ hOpen).1
      · exact (Storage.fclose_keeps (m := { m₃ with mem := _ }) hBuffered.1
          (hBuffered.2.2 fd hOpened.2)).block
      · exact hImage.first_free
      · obtain ⟨_, rfl⟩ := ProgramData.elf.inj hData
        refine ⟨?_, ?_⟩
        · rw [← hSize]
          exact a.stored_holdsFile m₃.mem image.elfMemory (by omega)
        · rw [ePhoff_value]
          exact hAccepts.2.2.2
  | @flat ptr fd entry a m₁ m₂ m₃ hElf hOpen hFd hStat hBuffer hSome hRead hAll =>
      have hSize := readAnswers_size a hRead
      have hBytes : 1 ≤ entry.filesize := by
        rw [fread] at hAll
        split_ifs at hAll with hEmpty
        · cases hAll
        · omega
      have hRefused := elfLoadFile_inOrder hHeap _ hElf
      obtain ⟨hImage, hKept⟩ := Storage.buffer_keeps hRefused hOpen hStat hBuffer hSome hBytes
        (fread m₃.mem ptr fd a).2
      refine ⟨m₂.files.heap, a.content, entry.filesize, ⟨m₁, m₂, fd, entry, a, hOpen, hStat, hRead,
        rfl, hSize⟩, fun hKeeps => ?_, fun hSome => absurd rfl hSome, ?_,
        ⟨hImage.address, hKept.block⟩, hBytes, fun _ _ hData => (by cases hData),
        fun _ _ => rfl⟩
      · have hElfKept := (elfLoadFile_untouched hKeeps.untouched _ hElf).toKeeps
        exact (Storage.fopen_keeps hElfKept _ hOpen).1
      · exact hImage.first_free

end Read

/-! ### One request after the other -/

/-- Whose turn it is among the requests of a load. -/
def Part.turn : Part → Nat
  | .process => 0
  | .record => 1
  | .image => 2
  | .stack => 3
  | .task => 4
  | _ => 5

/-- Only the pages of the directory are requested at the same turn. -/
theorem Part.turn_inj {r r' : Part} (h : r.turn = r'.turn) : r = r' ∨ r.turn = 5 := by
  cases r <;> cases r' <;> simp_all [turn]

theorem Part.turn_le (r : Part) : r.turn ≤ 5 := by
  cases r <;> simp [turn]

/-- `ptr` has been requested at its turn, and is in use from then on. `stage j` is the
heap in front of turn `j`. -/
structure InTurn (stage : Nat → Heap) (turn ptr : Nat) : Prop where
  free : entryTaken ((stage turn).table.entries (blockOf ptr)) = false
  allotted : ∃ n, ∀ j, turn < j → AllottedAt (stage j) ptr n

theorem InTurn.ne {stage : Nat → Heap} {turn ptr ptr' n : Nat} (h : InTurn stage turn ptr)
    (hOld : AllottedAt (stage turn) ptr' n) : ptr ≠ ptr' := fun hSame => by
  have hTaken := hOld.allotted.protected.taken
  rw [← hSame, h.free] at hTaken
  cases hTaken

section Start

variable {d : DiskFiles} {m : Storage} {filename : List UInt8}

/-- A process that has just been loaded. -/
def ProgramStart.live (p : ProgramStart d m filename) : LiveProcess where
  process := p.process
  task := p.task
  chunk := (taskDirectory p.afterTask).1
  loaded := newProcess p.loaded p.directory

/-- The heap in front of each turn. -/
def ProgramStart.stage (p : ProgramStart d m filename) (before : Heap) : Nat → Heap
  | 0 => m.files.heap
  | 1 => p.afterProcess.files.heap
  | 2 => before
  | 3 => p.afterProgram.files.heap
  | 4 => p.afterStack.files.heap
  | 5 => p.afterTask.files.heap
  | _ => p.finish.files.heap

section Stage

variable {p : ProgramStart d m filename} {before : Heap} {content : Nat → UInt8} {L : Nat} {r : Int}
  {n : Nat}

theorem ProgramStart.keeps_late {i j : Nat} (h : Keeps r n (p.stage before i)) (hi : 3 ≤ i)
    (hj : i ≤ j) : Keeps r n (p.stage before j) := by
  induction j, hj using Nat.le_induction with
  | base => exact h
  | succ j hij ih =>
      match j, (show 3 ≤ j by omega) with
      | 3, _ => exact (p.afterProgram.kzalloc_keeps ih _ _ p.stackGranted.1).1
      | 4, _ => exact (p.afterStack.kzalloc_keeps ih _ _ p.taskGranted.1).1
      | 5, _ =>
          change Keeps r n p.finish.files.heap
          rw [p.finish_heap]
          exact taskDirectory_keeps ih
      | j + 6, _ => exact ih

theorem ProgramStart.keeps_early
    (hPlaced : ProgramPlaced d p.afterProcess filename p.program p.afterProgram before content L)
    (h : Keeps r n p.afterProcess.files.heap) {j : Nat} (hj : 0 < j) :
    Keeps r n (p.stage before j) := by
  match j, hj with
  | 1, _ => exact h
  | 2, _ => exact hPlaced.keeps h
  | j + 3, _ =>
      exact ProgramStart.keeps_late (i := 3) (p.programRead.keeps h) (by decide) (by omega)

/-- What is a page of the new directory was not in use in front of it. -/
theorem ProgramStart.Mapped.page_turn {table : Nat → Nat} (h : p.Mapped table)
    (hHeap : HeapInOrder m.files.heap) {q : Nat}
    (hPage : q = (taskDirectory p.afterTask).1 ∨ q = p.directory ∨ ∃ d < 1024, q = table d) :
    InTurn (p.stage before) 5 q := by
  obtain ⟨_, hTask⟩ := p.inOrder hHeap
  obtain ⟨hAllotted, hAddress⟩ := taskDirectory_allotted hTask p.directoryGranted h.record hPage
  have hFresh : ¬ Held p.afterTask.files.heap q := by
    rcases hPage with rfl | rfl | ⟨d, hd, rfl⟩
    · exact h.record.record.2
    · exact h.record.built.page.2
    · exact (h.record.built.tables d hd).2.1
  obtain ⟨hLow, hHigh⟩ := hAllotted.inside
  have hTotal := hTask.kernel.total_eq
  have hTotal' := (taskDirectory_inOrder hTask).kernel.total_eq
  have hIn : InHeap p.afterTask.files.heap (blockOf q) := ⟨hLow, by omega⟩
  refine ⟨?_, 1, fun j hj => ?_⟩
  · change entryTaken (p.afterTask.files.heap.table.entries (blockOf q)) = false
    by_contra hTaken
    have hPlace := hTask.kernel.address hIn
    exact hFresh ⟨blockOf q, hIn, by omega, by simpa using hTaken⟩
  · match j, hj with
    | j + 6, _ =>
        change AllottedAt p.finish.files.heap q 1
        rw [p.finish_heap]
        exact ⟨hAddress, hAllotted⟩

/-- Every part has been requested at its turn. -/
theorem ProgramStart.inTurn
    (hPlaced : ProgramPlaced d p.afterProcess filename p.program p.afterProgram before content L)
    (hHeap : HeapInOrder m.files.heap) {table : Nat → Nat} (hMapped : p.Mapped table) (r : Part)
    (hSome : p.live.part p.finish.mem r ≠ 0) :
    InTurn (p.stage before) r.turn (p.live.part p.finish.mem r) := by
  obtain ⟨hProgram, hTask⟩ := p.inOrder hHeap
  have hStack := Storage.kzalloc_inOrder hProgram _ _ p.stackGranted.1
  cases r with
  | process =>
      have hGranted := Storage.kzalloc_granted hHeap (by decide) p.processGranted.1
        p.processGranted.2
      exact ⟨hGranted.first_free, _, fun j hj =>
        ⟨hGranted.address, (ProgramStart.keeps_early hPlaced hGranted.keeps hj).block⟩⟩
  | record =>
      obtain ⟨hFree, hBefore, hAfter⟩ := hPlaced.record hSome
      refine ⟨hFree, 1, fun j hj => ?_⟩
      match j, hj with
      | 2, _ => exact hBefore
      | j + 3, _ =>
          have hKeeps : Keeps (blockOf p.program.data.record) 1 (p.stage before 3) :=
            ⟨hProgram.kernel, hAfter.allotted⟩
          exact ⟨hAfter.address, (ProgramStart.keeps_late hKeeps (by decide) (by omega)).block⟩
  | image =>
      refine ⟨hPlaced.free, blocksOf L, fun j hj => ?_⟩
      have hKeeps : Keeps (blockOf p.program.data.image) (blocksOf L) (p.stage before 3) :=
        ⟨hProgram.kernel, hPlaced.image.allotted⟩
      exact ⟨hPlaced.image.address, (ProgramStart.keeps_late hKeeps (by decide) hj).block⟩
  | stack =>
      have hGranted := Storage.kzalloc_granted hProgram (by decide) p.stackGranted.1
        p.stackGranted.2
      have hKeeps : Keeps (blockOf p.stack) (blocksOf liebeOsUserProgramStackSize)
        (p.stage before 4) := hGranted.keeps
      exact ⟨hGranted.first_free, _, fun j hj =>
        ⟨hGranted.address, (ProgramStart.keeps_late hKeeps (by decide) hj).block⟩⟩
  | task =>
      have hGranted := Storage.kzalloc_granted hStack (by decide) p.taskGranted.1 p.taskGranted.2
      have hKeeps : Keeps (blockOf p.task) (blocksOf sizeOfTask) (p.stage before 5) :=
        hGranted.keeps
      exact ⟨hGranted.first_free, _, fun j hj =>
        ⟨hGranted.address, (ProgramStart.keeps_late hKeeps (by decide) hj).block⟩⟩
  | chunk => exact hMapped.page_turn hHeap (Or.inl rfl)
  | directory => exact hMapped.page_turn hHeap (Or.inr (Or.inl rfl))
  | table i =>
      by_cases hi : i < 1024
      · have hTable : p.live.part p.finish.mem (.table i) = table i :=
          (p.live.part_table _ hi).trans (hMapped.maps.entry i hi)
        rw [hTable]
        exact hMapped.page_turn hHeap (Or.inr (Or.inr ⟨i, hi, rfl⟩))
      · exact absurd (if_neg hi) hSome
  | slot n =>
      refine absurd ?_ hSome
      rw [LiveProcess.part]
      split_ifs
      · rfl
      · rfl

/-- The parts that are requested last are the pages of the directory. -/
theorem ProgramStart.Mapped.pages {table : Nat → Nat} (h : p.Mapped table) {r : Part}
    (hTurn : r.turn = 5) (hSome : p.live.part p.finish.mem r ≠ 0) :
    (r = .chunk ∧ p.live.part p.finish.mem r = (taskDirectory p.afterTask).1) ∨
      (r = .directory ∧ p.live.part p.finish.mem r = p.directory) ∨
      ∃ d < 1024, r = .table d ∧ p.live.part p.finish.mem r = table d := by
  cases r with
  | chunk => exact Or.inl ⟨rfl, rfl⟩
  | directory => exact Or.inr (Or.inl ⟨rfl, rfl⟩)
  | table i =>
      have hi : i < 1024 := by
        by_contra hi
        exact hSome (if_neg hi)
      exact Or.inr (Or.inr ⟨i, hi, rfl, (p.live.part_table _ hi).trans (h.maps.entry i hi)⟩)
  | slot n =>
      refine absurd ?_ hSome
      rw [LiveProcess.part]
      split_ifs
      · rfl
      · rfl
  | _ => exact absurd hTurn (by decide)

/-- No two parts are the same. -/
theorem ProgramStart.parts_apart
    (hPlaced : ProgramPlaced d p.afterProcess filename p.program p.afterProgram before content L)
    (hHeap : HeapInOrder m.files.heap) {table : Nat → Nat} (hMapped : p.Mapped table) {r r' : Part}
    (hSome : p.live.part p.finish.mem r ≠ 0)
    (hSame : p.live.part p.finish.mem r = p.live.part p.finish.mem r') : r = r' := by
  have hTurns : ∀ {r r'}, p.live.part p.finish.mem r ≠ 0 →
      p.live.part p.finish.mem r = p.live.part p.finish.mem r' → r'.turn ≤ r.turn :=
    fun {r r'} hSome hSame => by
      by_contra hEarlier
      have hFirst := ProgramStart.inTurn hPlaced hHeap hMapped r hSome
      have hSecond := ProgramStart.inTurn hPlaced hHeap hMapped r' (hSame ▸ hSome)
      obtain ⟨n, hAllotted⟩ := hFirst.allotted
      exact hSecond.ne (hAllotted _ (by omega)) hSame.symm
  have hTurn : r.turn = r'.turn :=
    Nat.le_antisymm (hTurns (hSame ▸ hSome) hSame.symm) (hTurns hSome hSame)
  rcases Part.turn_inj hTurn with hEqual | hLast
  · exact hEqual
  obtain ⟨hDirectory, hTables⟩ := hMapped.record.recordApart
  rcases hMapped.pages hLast hSome with ⟨rfl, hFirst⟩ | ⟨rfl, hFirst⟩ | ⟨i, hi, rfl, hFirst⟩
  · rcases hMapped.pages (hTurn ▸ hLast) (hSame ▸ hSome) with
      ⟨rfl, _⟩ | ⟨rfl, hSecond⟩ | ⟨i', hi', rfl, hSecond⟩
    · rfl
    · exact absurd (hFirst.symm.trans (hSame.trans hSecond)) hDirectory
    · exact absurd (hFirst.symm.trans (hSame.trans hSecond)) (hTables i' hi')
  · rcases hMapped.pages (hTurn ▸ hLast) (hSame ▸ hSome) with
      ⟨rfl, hSecond⟩ | ⟨rfl, _⟩ | ⟨i', hi', rfl, hSecond⟩
    · exact absurd (hSecond.symm.trans (hSame.symm.trans hFirst)) hDirectory
    · rfl
    · exact absurd (hSecond.symm.trans (hSame.symm.trans hFirst)) (hMapped.maps.apart i' hi')
  · rcases hMapped.pages (hTurn ▸ hLast) (hSame ▸ hSome) with
      ⟨rfl, hSecond⟩ | ⟨rfl, hSecond⟩ | ⟨i', hi', rfl, hSecond⟩
    · exact absurd (hSecond.symm.trans (hSame.symm.trans hFirst)) (hTables i hi)
    · exact absurd (hFirst.symm.trans (hSame.trans hSecond)) (hMapped.maps.apart i hi)
    · exact congrArg Part.table
        (hMapped.maps.distinct i hi i' hi' (hFirst.symm.trans (hSame.trans hSecond)))

end Stage

end Start

/-! ### The entries of the directory -/

/-- A program header of a file. -/
def fileHeader (content : Nat → UInt8) (k : Nat) : Phdr := readPhdr content (phdrAt content k)

/-- The number of pages that hold the segment, wherever the file is put. -/
def Phdr.filePages (h : Phdr) : Nat := ((h.offset % 4096).toNat + h.memsz + 4095) / 4096

/-- The headers are in the file. A segment that is to be written to is in the pages of
the file, and no segment is put over the window. -/
structure ElfFits (window : Window) (task : Nat) (content : Nat → UInt8) (L : Nat) : Prop where
  header : 52 ≤ L
  table : RangeInside (filePhoff content) (32 * filePhnum content) L
  writable : ∀ k < filePhnum content, (fileHeader content k).flags &&& pfW ≠ 0 →
    0 ≤ (fileHeader content k).offset ∧
      (fileHeader content k).offset + (fileHeader content k).memsz ≤ 4096 * blocksOf L
  window : ∀ k < filePhnum content, ∀ w, window.touched task w →
    4096 * (fileHeader content k).filePages ≤ offsetFrom (fileHeader content k).virtPage w

/-- The program can be put where the file says. -/
def ProgramStart.Fits {d : DiskFiles} {m : Storage} {filename : List UInt8} (window : Window)
    (p : ProgramStart d m filename) : Prop :=
  match p.program.data with
  | .binary _ => ∀ w, window.touched p.task w →
      4096 * blocksOf p.program.size ≤ offsetFrom liebeOsProgramVirtualAddress w
  | .elf _ _ => ∀ content L, ReadsFile d filename content L → ElfFits window p.task content L

section Segments

variable {buffer n w : Nat} {headers : Nat → Phdr} {map : PageMap} {h : Phdr}

/-- A page is as before, or in one of the segments. -/
theorem mapSegments_cases (hVaddr : ∀ k, (headers k).vaddr < 4294967296) (hw : w < 4294967296)
    (hPage : w % 4096 = 0) :
    mapSegments buffer headers n map w = map w ∨
      ∃ k < n, (headers k).Covers buffer w ∧ mapSegments buffer headers n map w =
        behind ((headers k).firstPage buffer) (offsetFrom (headers k).virtPage w) |||
          (headers k).pageFlags := by
  induction n with
  | zero => exact Or.inl rfl
  | succ n ih =>
      obtain ⟨hIn, hOut⟩ := @Phdr.map_eq buffer _ (hVaddr n)
        (mapSegments buffer headers n map) w hw hPage
      by_cases hCovers : (headers n).Covers buffer w
      · exact Or.inr ⟨n, Nat.lt_succ_self n, hCovers, hIn hCovers⟩
      · refine ih.imp (fun hSame => (hOut hCovers).trans hSame) fun ⟨k, hk, hPart⟩ => ?_
        exact ⟨k, by omega, hPart.1, (hOut hCovers).trans hPart.2⟩

theorem Phdr.pages_file (hBuffer : buffer % 4096 = 0) (hMemsz : h.memsz < 4294967296) :
    h.pages buffer ≤ h.filePages := by
  have hStartLt : h.start buffer < 4294967296 := toWord_lt _
  have hStart : h.start buffer % 4096 = (h.offset % 4096).toNat := by
    unfold start toWord
    omega
  unfold pages filePages firstPage endPage
  rw [pagingAlignToLowerPage_eq]
  unfold pagingAlignAddress pageSize behind
  split <;> omega

/-- A segment of the file is in the pages of its buffer. -/
theorem Phdr.inside {L : Nat} (hBuffer : buffer % 4096 = 0)
    (hEnd : buffer + 4096 * blocksOf L ≤ 0x07400000) (hLow : 0 ≤ h.offset)
    (hHigh : h.offset + h.memsz ≤ 4096 * blocksOf L) {x : Nat}
    (hOffset : x < 4096 * h.pages buffer) :
    buffer ≤ behind (h.firstPage buffer) x ∧
      behind (h.firstPage buffer) x < buffer + 4096 * blocksOf L := by
  have hStart : h.start buffer = buffer + h.offset.toNat := by
    unfold start toWord
    omega
  unfold pages firstPage endPage at hOffset
  unfold firstPage
  rw [hStart, behind_of_lt (by omega), pagingAlignAddress_eq (by omega),
    pagingAlignToLowerPage_eq] at hOffset
  rw [hStart, pagingAlignToLowerPage_eq, behind_of_lt (by omega)]
  omega

end Segments

section Image

variable {d : DiskFiles} {m : Storage} {filename : List UInt8} {p : ProgramStart d m filename}
  {before : Heap} {content : Nat → UInt8} {L : Nat} {table : Nat → Nat} {window : Window}

/-- The headers that are mapped are those of the file. -/
theorem HoldsFile.phdrs {mem : Memory} {buffer : Nat} (h : HoldsFile mem buffer L content)
    (hL : L < 4294967296) (hHeader : 52 ≤ L)
    (hTable : RangeInside (filePhoff content) (32 * filePhnum content) L)
    (hSome : (ePhoff mem buffer).value ≠ 0) {k : Nat} (hk : k < filePhnum content) :
    (elfPheader mem buffer).value = behind buffer (filePhoff content).toNat ∧
      phdrAt content k + 32 ≤ L ∧ phdrs mem buffer k = fileHeader content k := by
  rw [h.phoff hL hHeader] at hSome
  have hFirst := hTable (filePhoff content) (by omega) (by omega)
  have hLast := hTable (filePhoff content + 32 * filePhnum content - 1) (by omega) (by omega)
  have hFront := h.pheader hL hHeader (by omega)
  have hIn : phdrAt content k + 32 ≤ L := by
    unfold phdrAt
    omega
  have hWord : ∀ f, f + 4 ≤ 32 →
      loadWord mem (behind (elfPheader mem buffer).value (32 * k) + f) =
        loadWord content (phdrAt content k + f) := fun f hf => by
    refine loadWord_congr fun i hi => ?_
    have hPlace : behind (phdrAt content k + f) i = phdrAt content k + f + i :=
      behind_of_lt (by omega)
    rw [hFront, behind_add, behind_behind, behind_behind, hPlace]
    rw [show (filePhoff content).toNat + (32 * k + (f + i)) = phdrAt content k + f + i by
      unfold phdrAt
      omega]
    exact h _ (by omega)
  have hType := hWord 0 (by decide)
  rw [Nat.add_zero] at hType
  refine ⟨hFront, hIn, ?_⟩
  rw [LiebeOS.phdrs, fileHeader, readPhdr, readPhdr, hType, hWord 4 (by decide),
    hWord 8 (by decide), hWord 16 (by decide), hWord 20 (by decide), hWord 24 (by decide)]
  rfl

/-- The file is still in its buffer when the program is mapped, and none of the new page
tables is there. -/
theorem DirectoryRecord.elfTask {afterProgram afterStack afterTask : Storage}
    {buffer stack task chunk directory : Nat}
    (hRecord : DirectoryRecord afterTask.memory (taskDirectory afterTask).2 chunk directory
      (pagingIsPresent ||| pagingAccessFromAll) table)
    (hProgram : HeapInOrder afterProgram.files.heap)
    (hImage : AllottedAt afterProgram.files.heap buffer (blocksOf L))
    (hContent : HoldsFile afterProgram.mem buffer L content)
    (hPhoff : (ePhoff afterProgram.mem buffer).value ≠ 0)
    (hStack : afterProgram.kzalloc liebeOsUserProgramStackSize = .returned (stack, afterStack))
    (hStackSome : stack ≠ 0) (hTask : afterStack.kzalloc sizeOfTask = .returned (task, afterTask))
    (hHeader : 52 ≤ L) (hTable : RangeInside (filePhoff content) (32 * filePhnum content) L) :
    ElfTask (taskDirectory afterTask).2.mem buffer directory stack table ⟨1, 0, L, 1, content⟩ ∧
      loadHalf (taskDirectory afterTask).2.mem (buffer + 44) = filePhnum content ∧
      ∀ k < filePhnum content,
        phdrs (taskDirectory afterTask).2.mem buffer k = fileHeader content k := by
  obtain ⟨hPage, hLow, hHigh⟩ := hImage.page hProgram.kernel
  have hUntouched : Untouched (blockOf buffer) (blocksOf L) afterProgram.mem afterTask :=
    (Storage.kzalloc_untouched (Storage.kzalloc_untouched (Keeps.untouched
      ⟨hProgram.kernel, hImage.allotted⟩) _ _ hStack).1 _ _ hTask).1
  obtain ⟨hFirst, hLast⟩ := hImage.allotted.inside
  have hTotal := hProgram.kernel.total_eq
  have hAddress := hImage.address
  have hCovers := blocksOf_covers L
  have hIn : ∀ i < 4096 * blocksOf L, InBlocks (blockOf buffer) (blocksOf L) (behind buffer i) :=
    fun i hi => by
      rw [behind_of_lt (by omega)]
      exact ⟨by omega, by omega⟩
  have hHeld : ∀ i < 4096 * blocksOf L, Held afterTask.files.heap (behind buffer i / 4096 * 4096) :=
    fun i hi => hUntouched.toKeeps.inBlocks (hIn i hi)
  have hApart : ∀ i < 4096 * blocksOf L, ¬ InTables table (behind buffer i) :=
    fun i hi ⟨t, ht, hTable⟩ => (hRecord.built.tables t ht).2.1 (hTable ▸ hHeld i hi)
  have hSame : ∀ i < 4096 * blocksOf L,
      (taskDirectory afterTask).2.mem (behind buffer i) = afterProgram.mem (behind buffer i) :=
    fun i hi => (hRecord.built.grows.held (behind_lt _ _) (hHeld i hi)).trans
      (hUntouched.same _ (behind_lt _ _) (hIn i hi))
  have hHolds : HoldsFile (taskDirectory afterTask).2.mem buffer L content := fun i hi =>
    (hSame i (by omega)).trans (hContent i hi)
  have hTables := (hRecord.built.maps (by decide)).toPageTables
  obtain ⟨hStackPage, hStackEnd⟩ := Storage.kzalloc_page hProgram.kernel hStack hStackSome
  have hStackHigh : stack + 16384 ≤ 0x07400000 := hStackEnd
  have hMany := blocksOf_pos L
  generalize (taskDirectory afterTask).2.mem = mem at hSame hHolds hTables ⊢
  have hPhoff' : (ePhoff mem buffer).value ≠ 0 := by
    have hWord : loadWord mem (buffer + 28) = loadWord afterProgram.mem (buffer + 28) :=
      loadWord_congr fun i hi => by
        rw [behind_add]
        exact hSame _ (by omega)
    rw [ePhoff, Fetch.bind_value, Fetch.pure_value, Fetch.word_value] at hPhoff ⊢
    rwa [hWord]
  have hSize : L < 4294967296 := by omega
  have hPhnum : loadHalf mem (buffer + 44) = filePhnum content := hHolds.phnum hSize hHeader
  have hPhdrs := fun k (hk : k < filePhnum content) =>
    HoldsFile.phdrs hHolds hSize hHeader hTable hPhoff' hk
  refine ⟨?_, hPhnum, fun k hk => (hPhdrs k hk).2.2⟩
  exact
    { bufferPage := ⟨hPage, by omega⟩
      stackPage := ⟨hStackPage, by omega⟩
      size := hSize
      holds := hHolds
      tables := hTables
      apart := fun i hi => hApart i (Nat.lt_of_lt_of_le hi hCovers)
      headers := ⟨fun i hi => hApart i (by omega), fun k hk i hi => by
        rw [hPhnum] at hk
        obtain ⟨hFront, hInside, _⟩ := hPhdrs k hk
        rw [hFront, behind_behind]
        refine hApart _ ?_
        unfold phdrAt at hInside
        omega⟩ }

/-- The segments of the file, in the order of their headers, and the stack over them. -/
theorem ProgramStart.Mapped.maps_elf (h : p.Mapped table) (hHeap : HeapInOrder m.files.heap)
    {elfFile : Nat} {file : ElfFile} (hData : p.program.data = .elf elfFile file)
    (hImage : AllottedAt p.afterProgram.files.heap file.elfMemory (blocksOf L))
    (hContent : HoldsFile p.afterProgram.mem file.elfMemory L content)
    (hPhoff : (ePhoff p.afterProgram.mem file.elfMemory).value ≠ 0) (hHeader : 52 ≤ L)
    (hTable : RangeInside (filePhoff content) (32 * filePhnum content) L) :
    Maps p.finish.mem p.directory table (mapStack p.stack (mapSegments file.elfMemory
      (fileHeader content) (filePhnum content) (pagingGet (taskDirectory p.afterTask).2.mem
        p.directory))) := by
  obtain ⟨hElfTask, hPhnum, hPhdrs⟩ := h.record.elfTask (p.inOrder hHeap).1 hImage hContent hPhoff
    p.stackGranted.1 p.stackGranted.2 p.taskGranted.1 hHeader hTable
  obtain ⟨_, _, _, _, hDone, _⟩ := p.maps hHeap
  have hLoaded : p.loaded = ⟨.elf elfFile file, p.stack, p.program.size⟩ := by
    rw [ProgramStart.loaded, hData]
  have hMapping : p.mapping = processMapMemory (taskDirectory p.afterTask).2.mem p.directory
      ⟨.elf elfFile file, p.stack, p.program.size⟩ := by
    rw [ProgramStart.mapping, hLoaded]
  have hMem : p.finish.mem = p.mapping.2 := rfl
  rw [hMapping] at hDone hMem
  obtain ⟨hMaps, _, _⟩ := hElfTask.mapped rfl elfFile hDone
  rw [hMem]
  rw [programMap, hPhnum, mapSegments_congr hPhdrs] at hMaps
  exact hMaps

/-- A page that is mapped to itself, not to be written to. -/
theorem LiveProcess.Entry.itself {q : LiveProcess} {heap : Heap} {w : Nat} (hPage : w % 4096 = 0) :
    q.Entry window heap w (w ||| userFlags false) where
  writable hWritable := by
    rw [or_flags hPage (userFlags_lt false), and_pagingIsWriteable,
      show userFlags false = 5 by decide] at hWritable
    omega
  window _ := rfl

/-- A page of the program, outside of the window. -/
theorem LiveProcess.Entry.mapped {q : LiveProcess} {heap : Heap} {w phys : Nat} {writeable : Bool}
    (hPhys : phys % 4096 = 0) (hLt : phys < 4294967296)
    (hIn : writeable = true → InAllocation heap q.loaded.program.data.image phys ∨
      InAllocation heap q.loaded.program.stack phys)
    (hOut : ¬ window.touched q.task w) : q.Entry window heap w (phys ||| userFlags writeable) where
  writable hWritable := by
    rw [entryAddress_or_flags hPhys hLt (userFlags_lt writeable)]
    cases writeable with
    | true => exact hIn rfl
    | false =>
        rw [or_flags hPhys (userFlags_lt false), and_pagingIsWriteable,
          show userFlags false = 5 by decide] at hWritable
        omega
  window hTouched := absurd hTouched hOut

theorem ProgramStart.image_kept
    (hPlaced : ProgramPlaced d p.afterProcess filename p.program p.afterProgram before content L)
    (hHeap : HeapInOrder m.files.heap) :
    AllottedAt p.finish.files.heap p.program.data.image (blocksOf L) := by
  have hKeeps : Keeps (blockOf p.program.data.image) (blocksOf L) (p.stage before 3) :=
    ⟨(p.inOrder hHeap).1.kernel, hPlaced.image.allotted⟩
  exact ⟨hPlaced.image.address,
    (ProgramStart.keeps_late (j := 6) hKeeps (by decide) (by decide)).block⟩

theorem ProgramStart.stack_kept (p : ProgramStart d m filename) (hHeap : HeapInOrder m.files.heap) :
    AllottedAt p.finish.files.heap p.stack 4 := by
  have hFour : blocksOf liebeOsUserProgramStackSize = 4 := by decide
  have hGranted := Storage.kzalloc_granted (p.inOrder hHeap).1 (by decide) p.stackGranted.1
    p.stackGranted.2
  have hKeeps : Keeps (blockOf p.stack) 4 (p.stage p.finish.files.heap 4) := by
    rw [← hFour]
    exact hGranted.keeps
  exact ⟨hGranted.address,
    (ProgramStart.keeps_late (j := 6) hKeeps (by decide) (by decide)).block⟩

theorem ProgramStart.task_kept (p : ProgramStart d m filename) (hHeap : HeapInOrder m.files.heap) :
    AllottedAt p.finish.files.heap p.task 1 := by
  have hOne : blocksOf sizeOfTask = 1 := by decide
  have hProgram := (p.inOrder hHeap).1
  have hGranted := Storage.kzalloc_granted (Storage.kzalloc_inOrder hProgram _ _ p.stackGranted.1)
    (by decide) p.taskGranted.1 p.taskGranted.2
  have hKeeps : Keeps (blockOf p.task) 1 (p.stage p.finish.files.heap 5) := by
    rw [← hOne]
    exact hGranted.keeps
  exact ⟨hGranted.address,
    (ProgramStart.keeps_late (j := 6) hKeeps (by decide) (by decide)).block⟩

theorem ProgramStart.Mapped.entry_stack (h : p.Mapped table) (hHeap : HeapInOrder m.files.heap)
    {w : Nat} (hw : w < 4294967296) (hPage : w % 4096 = 0) (hIn : InUserStack w) :
    p.live.Entry window p.finish.files.heap w (pagingGet p.finish.mem p.directory w) := by
  obtain ⟨hStack, hStackEnd⟩ := h.stack
  have hHigh : p.stack + 16384 ≤ 0x07400000 := hStackEnd
  have hAllotted := p.stack_kept hHeap
  have hAddress := hAllotted.address
  have hEntry := (h.maps.entries w hw hPage).trans (mapStack_in hStack (by omega) hw hPage hIn)
  have hPlace := InUserStack.iff.mp hIn
  have hEnd : liebeOsProgramVirtualStackAddressEnd = 0x3FB000 := rfl
  rw [hEnd] at hEntry
  rw [hEntry]
  have hBlocks : InBlocks (blockOf p.stack) 4 (p.stack + (w - 0x3FB000)) := ⟨by omega, by omega⟩
  exact LiveProcess.Entry.mapped (by omega) (by omega) (fun _ => Or.inr ⟨4, hAllotted, hBlocks⟩)
    fun hTouched => (window.outside _ _ hTouched).1 hIn

/-- What the image is mapped to stays behind when the stack is mapped. -/
theorem ProgramStart.Mapped.entry_data (h : p.Mapped table) {w : Nat} (hw : w < 4294967296)
    (hPage : w % 4096 = 0) (hOut : ¬ InUserStack w) :
    pagingGet p.finish.mem p.directory w = pagingGet
      (mapData (taskDirectory p.afterTask).2.mem p.directory p.loaded).2 p.directory w := by
  obtain ⟨hStack, hStackEnd⟩ := h.stack
  have hHigh : p.stack + 16384 ≤ 0x07400000 := hStackEnd
  exact (h.maps.entries w hw hPage).trans (mapStack_eq hStack (by omega) hw hPage hOut)

theorem ProgramStart.Mapped.entry_flat (h : p.Mapped table)
    (hPlaced : ProgramPlaced d p.afterProcess filename p.program p.afterProgram before content L)
    (hHeap : HeapInOrder m.files.heap) {ptr : Nat} (hData : p.program.data = .binary ptr)
    (hFits : p.Fits window) {w : Nat} (hw : w < 4294967296) (hPage : w % 4096 = 0)
    (hOut : ¬ InUserStack w) :
    p.live.Entry window p.finish.files.heap w (pagingGet p.finish.mem p.directory w) := by
  have hAllotted := ProgramStart.image_kept hPlaced hHeap
  have hSize := hPlaced.flat ptr hData
  have hSome := hPlaced.some
  obtain ⟨hAligned, hLow, _⟩ := hPlaced.image.page (p.inOrder hHeap).1.kernel
  have hAddress := hPlaced.image.address
  obtain ⟨_, hEnd⟩ := hPlaced.image.allotted.inside
  have hTotal := (p.inOrder hHeap).1.kernel.total_eq
  have hCovers := blocksOf_covers L
  rw [ProgramStart.Fits, hData] at hFits
  dsimp only at hFits
  have hLoaded : mapData (taskDirectory p.afterTask).2.mem p.directory p.loaded =
      processMapBinary (taskDirectory p.afterTask).2.mem p.directory ptr L := by
    rw [mapData, show p.loaded.data = .binary ptr from hData, show p.loaded.size = L from hSize]
  have hImage : p.live.loaded.program.data.image = ptr := by
    rw [show p.live.loaded.program.data = .binary ptr from hData]
    rfl
  have hPtr : p.program.data.image = ptr := hImage
  rw [hPtr] at hAllotted hAligned hLow hAddress hEnd
  obtain ⟨mem, hRun, hMaps, _⟩ := processMapBinary_maps (n := L) (h.record.built.maps (by decide))
    hAligned (by omega) hSome
  rw [h.entry_data hw hPage hOut, hLoaded, hRun, hMaps.entries w hw hPage, flatMap,
    mapRange_eq _ (by omega) (by decide) (by decide) (by omega) hw hPage]
  split_ifs with hIn
  · have hOffset : offsetFrom liebeOsProgramVirtualAddress w % 4096 = 0 := by
      unfold offsetFrom toWord liebeOsProgramVirtualAddress
      omega
    rw [behind_of_lt (by omega)]
    have hBlocks : InBlocks (blockOf ptr) (blocksOf L)
        (ptr + offsetFrom liebeOsProgramVirtualAddress w) := ⟨by omega, by omega⟩
    refine LiveProcess.Entry.mapped (by omega) (by omega) (fun _ => Or.inl ?_) fun hTouched => ?_
    · rw [hImage]
      exact ⟨_, hAllotted, hBlocks⟩
    · have hFar := hFits w hTouched
      rw [hSize] at hFar
      omega
  · exact LiveProcess.Entry.itself hPage

theorem ProgramStart.Mapped.entry_elf (h : p.Mapped table)
    (hPlaced : ProgramPlaced d p.afterProcess filename p.program p.afterProgram before content L)
    (hHeap : HeapInOrder m.files.heap) {elfFile : Nat} {file : ElfFile}
    (hData : p.program.data = .elf elfFile file) (hFits : p.Fits window) {w : Nat}
    (hw : w < 4294967296) (hPage : w % 4096 = 0) (hOut : ¬ InUserStack w) :
    p.live.Entry window p.finish.files.heap w (pagingGet p.finish.mem p.directory w) := by
  have hAllotted := ProgramStart.image_kept hPlaced hHeap
  have hImage : p.live.loaded.program.data.image = file.elfMemory := by
    rw [show p.live.loaded.program.data = .elf elfFile file from hData]
    rfl
  have hPtr : p.program.data.image = file.elfMemory := hImage
  obtain ⟨hAligned, _, _⟩ := hPlaced.image.page (p.inOrder hHeap).1.kernel
  have hAddress := hPlaced.image.address
  obtain ⟨hLow, hEnd⟩ := hPlaced.image.allotted.inside
  have hTotal := (p.inOrder hHeap).1.kernel.total_eq
  rw [hPtr] at hAllotted hAligned hAddress hLow hEnd
  rw [ProgramStart.Fits, hData] at hFits
  have hElf := hFits content L hPlaced.file
  have hImageAt := hPlaced.image
  rw [hPtr] at hImageAt
  obtain ⟨hContent, hPhoff⟩ := hPlaced.elf _ _ hData
  have hMaps := h.maps_elf hHeap hData hImageAt hContent hPhoff hElf.header hElf.table
  have hItself := (h.record.built.maps (by decide)).entries w hw hPage
  obtain ⟨hStack, hStackEnd⟩ := h.stack
  have hStackHigh : p.stack + 16384 ≤ 0x07400000 := hStackEnd
  rw [hMaps.entries w hw hPage, mapStack_eq hStack (by omega) hw hPage hOut]
  rcases @mapSegments_cases file.elfMemory (filePhnum content) w (fileHeader content)
      (pagingGet (taskDirectory p.afterTask).2.mem p.directory) (fun _ => loadWord_lt _ _) hw
      hPage with
    hSame | ⟨k, hk, hCovers, hPart⟩
  · rw [hSame, hItself]
    exact LiveProcess.Entry.itself hPage
  · rw [hPart]
    have hMemsz : (fileHeader content k).memsz < 4294967296 := loadWord_lt _ _
    have hVaddr : (fileHeader content k).vaddr < 4294967296 := loadWord_lt _ _
    have hPages := @Phdr.pages_file file.elfMemory (fileHeader content k) hAligned hMemsz
    have hFlags := hElf.writable k hk
    have hWindow := hElf.window k hk w
    generalize fileHeader content k = header at hCovers hMemsz hVaddr hPages hFlags hWindow ⊢
    obtain ⟨hFirst, _⟩ := header.firstPage_aligned file.elfMemory
    obtain ⟨hVirt, _⟩ := Phdr.virtPage_aligned hVaddr
    refine LiveProcess.Entry.mapped ?_ (behind_lt _ _) (fun hWriteable => Or.inl ?_)
      fun hTouched => ?_
    · unfold behind offsetFrom toWord
      omega
    · obtain ⟨hFront, hBack⟩ := hFlags (by simpa using hWriteable)
      have hInside := Phdr.inside hAligned (by omega) hFront hBack hCovers
      rw [hImage]
      exact ⟨_, hAllotted, by omega, by omega⟩
    · have hFar := hWindow hTouched
      unfold Phdr.Covers at hCovers
      omega

theorem ProgramStart.Mapped.entry_fits (h : p.Mapped table)
    (hPlaced : ProgramPlaced d p.afterProcess filename p.program p.afterProgram before content L)
    (hHeap : HeapInOrder m.files.heap) (hFits : p.Fits window) {w : Nat} (hw : w < 4294967296)
    (hPage : w % 4096 = 0) :
    p.live.Entry window p.finish.files.heap w (pagingGet p.finish.mem p.directory w) := by
  by_cases hIn : InUserStack w
  · exact h.entry_stack hHeap hw hPage hIn
  · cases hData : p.program.data with
    | elf elfFile file => exact h.entry_elf hPlaced hHeap hData hFits hw hPage hIn
    | binary ptr => exact h.entry_flat hPlaced hHeap hData hFits hw hPage hIn

theorem ProgramStart.alive
    (hPlaced : ProgramPlaced d p.afterProcess filename p.program p.afterProgram before content L)
    (hHeap : HeapInOrder m.files.heap) (hMapped : p.Mapped table) (hFits : p.Fits window) :
    p.live.Alive window p.finish.memory := by
  obtain ⟨hChunk, hLow, hHigh⟩ := hMapped.record.record.1.page hMapped.record.built.grows.heap
  have hPage : ∀ y, p.live.Page p.finish.mem y → y ≠ 0 := fun y hPage hNull => by
    have hTurn : InTurn (p.stage before) 5 y := hMapped.page_turn hHeap (by
      rcases hPage with hSame | hSame | ⟨i, hi, hSame⟩
      · exact Or.inl hSame
      · exact Or.inr (Or.inl hSame)
      · exact Or.inr (Or.inr ⟨i, hi, hSame.trans (hMapped.maps.entry i hi)⟩))
    obtain ⟨n, hAllotted⟩ := hTurn.allotted
    have hInside := (hAllotted 6 (by decide)).allotted.inside.1
    rw [hNull, blockOf_null] at hInside
    omega
  have hEmpty : ∀ n, p.live.memory.allocations n = ⟨0, 0⟩ := fun _ => rfl
  have hChunkLt : p.live.chunk < 4294967296 := show (taskDirectory p.afterTask).1 < _ by omega
  refine ⟨hMapped.maps.toPageTables.own, hMapped.record.points_kept hMapped.only,
    ⟨hChunk, hChunkLt⟩, ⟨p.taskGranted.2, hPage⟩, fun n _ hSome => ?_, fun n _ _ => ?_,
    fun w hw hAligned => Or.inl (hMapped.entry_fits hPlaced hHeap hFits hw hAligned)⟩
  · rw [hEmpty] at hSome
    exact absurd rfl hSome
  · rw [hEmpty]

/-- A process that has been loaded has allocations of its own, and none that was there
before is one of them. -/
theorem ProgramStart.housed (p : ProgramStart d m filename) (hHeap : HeapInOrder m.files.heap)
    (hFits : p.Fits window) :
    p.live.Housed window p.finish.memory ∧
      ∀ {ptr n}, AllottedAt m.files.heap ptr n → ∀ r, p.live.part p.finish.mem r ≠ ptr := by
  have hProcess := Storage.kzalloc_inOrder hHeap _ _ p.processGranted.1
  obtain ⟨before, content, L, hPlaced⟩ := p.programRead.placed hProcess
  obtain ⟨table, hMapped⟩ := p.mappedTask hHeap
  have hTurn := ProgramStart.inTurn hPlaced hHeap hMapped
  refine ⟨⟨ProgramStart.alive hPlaced hHeap hMapped hFits, fun r hSome => ?_,
    fun r r' hSome hSame => ProgramStart.parts_apart hPlaced hHeap hMapped hSome hSame⟩,
    fun {ptr n} hOld r hSame => ?_⟩
  · obtain ⟨n, hAllotted⟩ := (hTurn r hSome).allotted
    have hLast := r.turn_le
    exact ⟨n, hAllotted 6 (by omega)⟩
  · obtain ⟨_, hLow, _⟩ := hOld.page hHeap.kernel
    have hKeeps : Keeps (blockOf ptr) n p.afterProcess.files.heap :=
      (m.kzalloc_keeps ⟨hHeap.kernel, hOld.allotted⟩ _ _ p.processGranted.1).1
    have hStage : AllottedAt (p.stage before r.turn) ptr n := by
      rcases Nat.eq_zero_or_pos r.turn with hFirst | hLater
      · rw [hFirst]
        exact hOld
      · exact ⟨hOld.address, (ProgramStart.keeps_early hPlaced hKeeps hLater).block⟩
    exact (hTurn r (by omega)).ne hStage hSame

end Image

end LiebeOS
