import LiebeOS.Task.ProcessLoad

/-! A `process_load` in which nothing fails, told by the answers that it meets. A
load that comes to its end is one of these. -/
namespace LiebeOS

open Attempts MachineInt Bytes

/-- The file is read into memory, as an ELF file, or as it is when the ELF loader does
not recognise it. -/
inductive ProgramRead (d : DiskFiles) (m : Storage) (filename : List UInt8) :
    Program → Storage → Prop where
  | elf {elfFile elfMemory : Nat} {fd res : Int} {entry : FatDirectoryItem} {a : FileAnswers}
      {m₁ m₂ m₃ : Storage} {mem : Memory} {file : ElfFile}
      (hRecord : m.kzalloc sizeOfElfFile = .returned (elfFile, m₁)) (hSome : elfFile ≠ 0)
      (hOpen : m₁.fopen d filename = .returned (fd, m₂)) (hFd : 0 < fd)
      (hStat : fstatFile m₂.files fd = .returned (.ok entry))
      (hBuffer : m₂.kzalloc entry.filesize = .returned (elfMemory, m₃))
      (hFull : ¬ (elfMemory = 0 ∧ 0 < entry.filesize))
      (hRead : readAnswers d fd entry = .returned a)
      (hLoad : (elfLoad m₃.mem elfMemory a).value = (res, mem, file)) (hAccepted : 0 ≤ res) :
      ProgramRead d m filename ⟨.elf elfFile file, 0, 0⟩ ({ m₃ with mem := mem }.fclose fd)
  | flat {ptr : Nat} {fd : Int} {entry : FatDirectoryItem} {a : FileAnswers} {m₁ m₂ m₃ : Storage}
      (hElf : elfLoadFile d m filename = .returned (.error (-einformat), m₁))
      (hOpen : m₁.fopen d filename = .returned (fd, m₂)) (hFd : fd ≠ 0)
      (hStat : fstatFile m₂.files fd = .returned (.ok entry))
      (hBuffer : m₂.kzalloc entry.filesize = .returned (ptr, m₃)) (hSome : ptr ≠ 0)
      (hRead : readAnswers d fd entry = .returned a) (hAll : (fread m₃.mem ptr fd a).1 = 1) :
      ProgramRead d m filename ⟨.binary ptr, 0, entry.filesize⟩
        ({ m₃ with mem := (fread m₃.mem ptr fd a).2 }.fclose fd)

/-- A load in which nothing fails: every request is granted, the program is read, and
its memory can be mapped. -/
structure ProgramStart (d : DiskFiles) (m : Storage) (filename : List UInt8) where
  process : Nat
  afterProcess : Storage
  program : Program
  afterProgram : Storage
  stack : Nat
  afterStack : Storage
  task : Nat
  afterTask : Storage
  processGranted : m.kzalloc sizeOfProcess = .returned (process, afterProcess) ∧ process ≠ 0
  programRead : ProgramRead d afterProcess filename program afterProgram
  stackGranted : afterProgram.kzalloc liebeOsUserProgramStackSize = .returned (stack, afterStack) ∧
    stack ≠ 0
  taskGranted : afterStack.kzalloc sizeOfTask = .returned (task, afterTask) ∧ task ≠ 0
  directoryGranted : (taskDirectory afterTask).1 ≠ 0
  mapped : 0 ≤ (processMapMemory (taskDirectory afterTask).2.mem
    (getPageDirectoryEntry (taskDirectory afterTask).2.mem (taskDirectory afterTask).1)
    { program with stack := stack }).1

section Read

variable {d : DiskFiles} {m m' : Storage} {filename : List UInt8} {program : Program}

theorem elfReadFile_ok_iff {fd : Int} {entry : FatDirectoryItem} {elfFile : Nat}
    {data : ProgramData} :
    elfReadFile d m fd entry elfFile = .returned (.ok data, m') ↔
      ∃ (elfMemory : Nat) (m₃ : Storage) (a : FileAnswers),
        m.kzalloc entry.filesize = .returned (elfMemory, m₃) ∧
        ¬ (elfMemory = 0 ∧ 0 < entry.filesize) ∧ readAnswers d fd entry = .returned a ∧
        0 ≤ (elfLoad m₃.mem elfMemory a).value.1 ∧
        data = .elf elfFile (elfLoad m₃.mem elfMemory a).value.2.2 ∧
        m' = { m₃ with mem := (elfLoad m₃.mem elfMemory a).value.2.1 }.fclose fd := by
  rw [elfReadFile, Attempt.bind_returned_iff]
  constructor
  · rintro ⟨⟨elfMemory, m₃⟩, hBuffer, hRest⟩
    obtain ⟨hFull, hRest⟩ := Attempt.guard_returned_iff.mp hRest
    obtain ⟨a, hRead, hDone⟩ := Attempt.bind_returned_iff.mp hRest
    have hPair := Prod.mk.inj (Attempt.returned.inj hDone)
    refine ⟨elfMemory, m₃, a, hBuffer, hFull, hRead, ?_⟩
    by_cases hError : (elfLoad m₃.mem elfMemory a).value.1 < 0
    · rw [if_pos hError] at hPair
      cases hPair.1
    · rw [if_neg hError] at hPair
      exact ⟨by omega, (Except.ok.inj hPair.1).symm, hPair.2.symm⟩
  · rintro ⟨elfMemory, m₃, a, hBuffer, hFull, hRead, hAccepted, rfl, rfl⟩
    refine ⟨(elfMemory, m₃), hBuffer, Attempt.guard_returned_iff.mpr ⟨hFull,
      Attempt.bind_returned_iff.mpr ⟨a, hRead, ?_⟩⟩⟩
    exact congrArg (fun result => Attempt.returned (result, _)) (if_neg (Int.not_lt.mpr hAccepted))

theorem elfLoadFile_ok_iff {data : ProgramData} :
    elfLoadFile d m filename = .returned (.ok data, m') ↔
      ∃ (elfFile : Nat) (fd : Int) (entry : FatDirectoryItem) (m₁ m₂ : Storage),
        m.kzalloc sizeOfElfFile = .returned (elfFile, m₁) ∧
        m₁.fopen d filename = .returned (fd, m₂) ∧ 0 < fd ∧
        fstatFile m₂.files fd = .returned (.ok entry) ∧ elfFile ≠ 0 ∧
        elfReadFile d m₂ fd entry elfFile = .returned (.ok data, m') := by
  rw [elfLoadFile, Attempt.bind_returned_iff]
  constructor
  · rintro ⟨⟨elfFile, m₁⟩, hRecord, hRest⟩
    obtain ⟨⟨fd, m₂⟩, hOpen, hRest⟩ := Attempt.bind_returned_iff.mp hRest
    dsimp only at hRest
    by_cases hFd : fd ≤ 0
    · rw [if_pos hFd] at hRest
      cases (Prod.mk.inj (Attempt.returned.inj hRest)).1
    rw [if_neg hFd] at hRest
    obtain ⟨stat, hStat, hRest⟩ := Attempt.bind_returned_iff.mp hRest
    cases stat with
    | error res => cases (Prod.mk.inj (Attempt.returned.inj hRest)).1
    | ok entry =>
        obtain ⟨hSome, hRead⟩ := Attempt.guard_returned_iff.mp hRest
        exact ⟨elfFile, fd, entry, m₁, m₂, hRecord, hOpen, by omega, hStat, hSome, hRead⟩
  · rintro ⟨elfFile, fd, entry, m₁, m₂, hRecord, hOpen, hFd, hStat, hSome, hRead⟩
    refine ⟨(elfFile, m₁), hRecord, Attempt.bind_returned_iff.mpr ⟨(fd, m₂), hOpen, ?_⟩⟩
    dsimp only
    rw [if_neg (by omega)]
    exact Attempt.bind_returned_iff.mpr ⟨.ok entry, hStat,
      Attempt.guard_returned_iff.mpr ⟨hSome, hRead⟩⟩

theorem processLoadBinary_ok_iff :
    processLoadBinary d m filename = .returned (.ok program, m') ↔
      ∃ (ptr : Nat) (fd : Int) (entry : FatDirectoryItem) (a : FileAnswers) (m₂ m₃ : Storage),
        m.fopen d filename = .returned (fd, m₂) ∧ fd ≠ 0 ∧
        fstatFile m₂.files fd = .returned (.ok entry) ∧
        m₂.kzalloc entry.filesize = .returned (ptr, m₃) ∧ ptr ≠ 0 ∧
        readAnswers d fd entry = .returned a ∧ (fread m₃.mem ptr fd a).1 = 1 ∧
        program = ⟨.binary ptr, 0, entry.filesize⟩ ∧
        m' = { m₃ with mem := (fread m₃.mem ptr fd a).2 }.fclose fd := by
  rw [processLoadBinary, Attempt.bind_returned_iff]
  constructor
  · rintro ⟨⟨fd, m₂⟩, hOpen, hRest⟩
    dsimp only at hRest
    by_cases hFd : fd = 0
    · rw [if_pos hFd] at hRest
      cases (Prod.mk.inj (Attempt.returned.inj hRest)).1
    rw [if_neg hFd] at hRest
    obtain ⟨stat, hStat, hRest⟩ := Attempt.bind_returned_iff.mp hRest
    cases stat with
    | error res => cases (Prod.mk.inj (Attempt.returned.inj hRest)).1
    | ok entry =>
        obtain ⟨⟨ptr, m₃⟩, hBuffer, hRest⟩ := Attempt.bind_returned_iff.mp hRest
        dsimp only at hRest
        by_cases hNull : ptr = 0
        · rw [if_pos hNull] at hRest
          cases (Prod.mk.inj (Attempt.returned.inj hRest)).1
        rw [if_neg hNull] at hRest
        obtain ⟨a, hRead, hDone⟩ := Attempt.bind_returned_iff.mp hRest
        have hPair := Prod.mk.inj (Attempt.returned.inj hDone)
        by_cases hShort : (fread m₃.mem ptr fd a).1 ≠ 1
        · rw [if_pos hShort] at hPair
          cases hPair.1
        · rw [if_neg hShort] at hPair
          exact ⟨ptr, fd, entry, a, m₂, m₃, hOpen, hFd, hStat, hBuffer, hNull, hRead,
            not_not.mp hShort, (Except.ok.inj hPair.1).symm, hPair.2.symm⟩
  · rintro ⟨ptr, fd, entry, a, m₂, m₃, hOpen, hFd, hStat, hBuffer, hSome, hRead, hAll, rfl, rfl⟩
    refine ⟨(fd, m₂), hOpen, ?_⟩
    dsimp only
    rw [if_neg hFd]
    refine Attempt.bind_returned_iff.mpr ⟨.ok entry, hStat,
      Attempt.bind_returned_iff.mpr ⟨(ptr, m₃), hBuffer, ?_⟩⟩
    dsimp only
    rw [if_neg hSome]
    exact Attempt.bind_returned_iff.mpr ⟨a, hRead,
      congrArg (fun result => Attempt.returned (result, _)) (if_neg (not_not.mpr hAll))⟩

theorem processLoadData_ok_iff :
    processLoadData d m filename = .returned (.ok program, m') ↔
      ProgramRead d m filename program m' := by
  rw [processLoadData, Attempt.bind_returned_iff]
  constructor
  · rintro ⟨⟨loaded, m₁⟩, hElf, hRest⟩
    cases loaded with
    | ok data =>
        obtain ⟨hProgram, rfl⟩ := Prod.mk.inj (Attempt.returned.inj hRest)
        obtain rfl := Except.ok.inj hProgram
        obtain ⟨elfFile, fd, entry, _, _, hRecord, hOpen, hFd, hStat, hSome, hFile⟩ :=
          elfLoadFile_ok_iff.mp hElf
        obtain ⟨elfMemory, m₃, a, hBuffer, hFull, hRead, hAccepted, rfl, rfl⟩ :=
          elfReadFile_ok_iff.mp hFile
        exact .elf hRecord hSome hOpen hFd hStat hBuffer hFull hRead rfl hAccepted
    | error res =>
        dsimp only at hRest
        by_cases hFormat : res = -einformat
        · rw [if_pos hFormat] at hRest
          obtain ⟨ptr, fd, entry, a, m₂, m₃, hOpen, hFd, hStat, hBuffer, hSome, hRead, hAll, rfl,
            rfl⟩ := processLoadBinary_ok_iff.mp hRest
          subst hFormat
          exact .flat hElf hOpen hFd hStat hBuffer hSome hRead hAll
        · rw [if_neg hFormat] at hRest
          cases (Prod.mk.inj (Attempt.returned.inj hRest)).1
  · intro hRead
    cases hRead with
    | @elf elfFile elfMemory fd res entry a m₁ m₂ m₃ mem file hRecord hSome hOpen hFd hStat hBuffer
        hFull hRead hLoad hAccepted =>
        have hFile := (@elfReadFile_ok_iff d m₂ _ fd entry elfFile _).mpr
          ⟨elfMemory, m₃, a, hBuffer, hFull, hRead, by rw [hLoad]; exact hAccepted, rfl, rfl⟩
        rw [hLoad] at hFile
        exact ⟨_, elfLoadFile_ok_iff.mpr
          ⟨_, _, _, _, _, hRecord, hOpen, hFd, hStat, hSome, hFile⟩, rfl⟩
    | flat hElf hOpen hFd hStat hBuffer hSome hRead hAll =>
        refine ⟨_, hElf, ?_⟩
        dsimp only
        rw [if_pos rfl]
        exact processLoadBinary_ok_iff.mpr
          ⟨_, _, _, _, _, _, hOpen, hFd, hStat, hBuffer, hSome, hRead, hAll, rfl, rfl⟩

end Read

section Start

variable {d : DiskFiles} {m m' : Storage} {filename : List UInt8} {program : Program}
  {a : LoadAnswers}

/-- The program with its stack. -/
def ProgramStart.loaded (s : ProgramStart d m filename) : Program :=
  { s.program with stack := s.stack }

def ProgramStart.directory (s : ProgramStart d m filename) : Nat :=
  getPageDirectoryEntry (taskDirectory s.afterTask).2.mem (taskDirectory s.afterTask).1

def ProgramStart.mapping (s : ProgramStart d m filename) : Int × Memory :=
  processMapMemory (taskDirectory s.afterTask).2.mem s.directory s.loaded

def ProgramStart.answers (s : ProgramStart d m filename) : LoadAnswers :=
  { process := s.process
    data := 0
    stack := s.stack
    task := s.task
    pageDirectory := (taskDirectory s.afterTask).1
    ip := entryPoint (taskDirectory s.afterTask).2.mem s.program.data
    map := s.mapping.1 }

/-- Memory and files when the program is about to run. -/
def ProgramStart.finish (s : ProgramStart d m filename) : Storage :=
  s.afterTask.setMemory ⟨(taskDirectory s.afterTask).2.heap, s.mapping.2⟩

theorem ProgramStart.finish_heap (s : ProgramStart d m filename) :
    s.finish.files.heap = (taskDirectory s.afterTask).2.heap := rfl

theorem ProgramStart.processLoadAnswers (s : ProgramStart d m filename) :
    processLoadAnswers d m filename = .returned (s.answers, s.loaded, s.finish) := by
  rw [LiebeOS.processLoadAnswers, Attempt.bind_returned_iff]
  refine ⟨_, s.processGranted.1, Attempt.guard_returned_iff.mpr ⟨s.processGranted.2,
    Attempt.bind_returned_iff.mpr ⟨_, processLoadData_ok_iff.mpr s.programRead,
      Attempt.bind_returned_iff.mpr ⟨_, s.stackGranted.1, ?_⟩⟩⟩⟩
  dsimp only
  rw [if_neg s.stackGranted.2, processLoadTask, Attempt.bind_returned_iff]
  refine ⟨_, s.taskGranted.1, Attempt.guard_returned_iff.mpr ⟨s.taskGranted.2,
    Attempt.guard_returned_iff.mpr ⟨s.directoryGranted, ?_⟩⟩⟩
  have hMapped : ¬ s.mapping.1 < 0 := Int.not_lt.mpr s.mapped
  have hStorage : (if s.mapping.1 < 0 then
        kfree (pagingFree4gb ⟨(taskDirectory s.afterTask).2.heap, s.mapping.2⟩
          (taskDirectory s.afterTask).1) s.task
      else (⟨(taskDirectory s.afterTask).2.heap, s.mapping.2⟩ : KernelMemory)) =
      ⟨(taskDirectory s.afterTask).2.heap, s.mapping.2⟩ := if_neg hMapped
  exact congrArg (fun k => Attempt.returned (s.answers, s.loaded, s.afterTask.setMemory k)) hStorage

/-- A load that comes as far as the end is one in which nothing has failed. -/
theorem processLoadAnswers_cases (h : processLoadAnswers d m filename = .returned (a, program, m')) :
    a.stack = 0 ∨ a.map < 0 ∨ Nonempty (ProgramStart d m filename) := by
  rw [processLoadAnswers, Attempt.bind_returned_iff] at h
  obtain ⟨⟨process, m₁⟩, hProcess, h⟩ := h
  obtain ⟨hProcessSome, h⟩ := Attempt.guard_returned_iff.mp h
  obtain ⟨⟨loaded, m₂⟩, hLoaded, h⟩ := Attempt.bind_returned_iff.mp h
  cases loaded with
  | error res =>
      obtain ⟨rfl, _⟩ := Prod.mk.inj (Attempt.returned.inj h)
      exact Or.inl rfl
  | ok program₀ =>
      obtain ⟨⟨stack, m₃⟩, hStack, h⟩ := Attempt.bind_returned_iff.mp h
      dsimp only at h
      by_cases hNull : stack = 0
      · rw [if_pos hNull] at h
        obtain ⟨rfl, _⟩ := Prod.mk.inj (Attempt.returned.inj h)
        exact Or.inl rfl
      rw [if_neg hNull, processLoadTask, Attempt.bind_returned_iff] at h
      obtain ⟨⟨task, m₄⟩, hTask, h⟩ := h
      obtain ⟨hTaskSome, h⟩ := Attempt.guard_returned_iff.mp h
      obtain ⟨hChunk, h⟩ := Attempt.guard_returned_iff.mp h
      obtain ⟨rfl, _⟩ := Prod.mk.inj (Attempt.returned.inj h)
      dsimp only at hProcessSome hTaskSome hChunk ⊢
      by_cases hMap : (processMapMemory (taskDirectory m₄).2.mem
          (getPageDirectoryEntry (taskDirectory m₄).2.mem (taskDirectory m₄).1)
          { program₀ with stack := stack }).1 < 0
      · exact Or.inr (Or.inl hMap)
      · exact Or.inr (Or.inr ⟨
          { process := process
            afterProcess := m₁
            program := program₀
            afterProgram := m₂
            stack := stack
            afterStack := m₃
            task := task
            afterTask := m₄
            processGranted := ⟨hProcess, hProcessSome⟩
            programRead := processLoadData_ok_iff.mp hLoaded
            stackGranted := ⟨hStack, hNull⟩
            taskGranted := ⟨hTask, hTaskSome⟩
            directoryGranted := hChunk
            mapped := Int.not_lt.mp hMap }⟩)

end Start

end LiebeOS
