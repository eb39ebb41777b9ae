import LiebeOS.Fs.OpenedFile
import LiebeOS.Memory.PageDirectory
import LiebeOS.Task.Process
import LiebeOS.Task.ProcessArguments
import LiebeOS.Task.ProcessMap

/-! Starting a program with all that it requests: `process_load` and `elf_load`
over the heap, the open files and memory. What becomes of the run queue and of the
process table is left to the model that is given the answers. -/
namespace LiebeOS

open Attempts MachineInt Bytes

def sizeOfProcess : Nat := 9364
def sizeOfTask : Nat := 64
def sizeOfElfFile : Nat := 132

/-- Memory and the open files, among them the heap. -/
structure Storage where
  files : FileSystem
  mem : Memory

def Storage.memory (m : Storage) : KernelMemory := ⟨m.files.heap, m.mem⟩

def Storage.setMemory (m : Storage) (k : KernelMemory) : Storage :=
  ⟨{ m.files with heap := k.heap }, k.mem⟩

/-- The mounted disk. Reading a whole file as one block has a result, and leaves
bytes behind in the buffer, unless it does not end. -/
structure DiskFiles where
  mounted : MountedDisk
  read : FatDirectoryItem → Attempt (Int × (Nat → UInt8))

def Storage.kzalloc (m : Storage) (size : Nat) : Attempt (Nat × Storage) := do
  let (ptr, k) ← kzallocWithin m.memory size
  .returned (ptr, m.setMemory k)

def Storage.fopen (m : Storage) (d : DiskFiles) (filename : List UInt8) :
    Attempt (Int × Storage) := do
  let (fd, files) ← fopenFile d.mounted m.files filename ['r']
  .returned (fd, { m with files := files })

def Storage.fclose (m : Storage) (fd : Int) : Storage :=
  { m with files := (fcloseFile m.files fd).2 }

/-- The entry that holds the size of an open file, or an error. An entry that
could not be copied is read through null. -/
def fstatFile (s : FileSystem) (fd : Int) : Attempt (Except Int FatDirectoryItem) :=
  match fstatCall s.table fd with
  | .error res => .returned (.error res)
  | .served desc =>
      match (s.pvts desc.file.pvt).item with
      | .directory _ _ => .returned (.error (-einvarg))
      | .file _ item entry => if item = 0 then .undefined else .returned (.ok entry)

/-- What is answered while the file is read. An empty file is not asked for. -/
def readAnswers (d : DiskFiles) (fd : Int) (entry : FatDirectoryItem) : Attempt FileAnswers := do
  let (read, content) ←
    if entry.filesize = 0 then .returned (0, fun _ => 0) else d.read entry
  .returned ⟨fd, 0, entry.filesize, read, content⟩

/-- `elf_load` from the buffer on. The buffer is not given back on an error. -/
def elfReadFile (d : DiskFiles) (m : Storage) (fd : Int) (entry : FatDirectoryItem)
    (elfFile : Nat) : Attempt (Except Int ProgramData × Storage) := do
  let (elfMemory, m) ← m.kzalloc entry.filesize
  if elfMemory = 0 ∧ 0 < entry.filesize then .undefined
  else do
    let a ← readAnswers d fd entry
    let (res, mem, file) := (elfLoad m.mem elfMemory a).value
    let m := { m with mem := mem }.fclose fd
    .returned (if res < 0 then .error res else .ok (.elf elfFile file), m)

/-- `elf_load` with its requests. Neither the record nor the buffer is checked
before it is written, and neither is given back on an error. -/
def elfLoadFile (d : DiskFiles) (m : Storage) (filename : List UInt8) :
    Attempt (Except Int ProgramData × Storage) := do
  let (elfFile, m) ← m.kzalloc sizeOfElfFile
  let (fd, m) ← m.fopen d filename
  if fd ≤ 0 then .returned (.error (-eio), m.fclose 0)
  else do
    let stat ← fstatFile m.files fd
    match stat with
    | .error res => .returned (.error res, m.fclose fd)
    | .ok entry => if elfFile = 0 then .undefined else elfReadFile d m fd entry elfFile

/-- A buffer into which the file could not be read is not given back. -/
def binaryReadFile (d : DiskFiles) (m : Storage) (fd : Int) (entry : FatDirectoryItem) :
    Attempt (Except Int Program × Storage) := do
  let (ptr, m) ← m.kzalloc entry.filesize
  if ptr = 0 then .returned (.error (-enomem), m.fclose fd)
  else do
    let a ← readAnswers d fd entry
    let (read, mem) := fread m.mem ptr fd a
    let m := { m with mem := mem }.fclose fd
    .returned (if read ≠ 1 then .error (-eio) else .ok ⟨.binary ptr, 0, entry.filesize⟩, m)

def processLoadBinary (d : DiskFiles) (m : Storage) (filename : List UInt8) :
    Attempt (Except Int Program × Storage) := do
  let (fd, m) ← m.fopen d filename
  if fd = 0 then .returned (.error (-eio), m.fclose fd)
  else do
    let stat ← fstatFile m.files fd
    match stat with
    | .error res => .returned (.error res, m.fclose fd)
    | .ok entry => binaryReadFile d m fd entry

/-- What the ELF loader does not recognise is loaded as it is. -/
def processLoadData (d : DiskFiles) (m : Storage) (filename : List UInt8) :
    Attempt (Except Int Program × Storage) := do
  let (loaded, m) ← elfLoadFile d m filename
  match loaded with
  | .ok data => .returned (.ok ⟨data, 0, 0⟩, m)
  | .error res =>
      if res = -einformat then processLoadBinary d m filename else .returned (.error res, m)

/-- Where the program starts. -/
def entryPoint (mem : Memory) : ProgramData → Nat
  | .elf _ file => (eEntry mem file.elfMemory).value
  | .binary _ => liebeOsProgramVirtualAddress

/-- The directory that a task is given, by the address of its record. -/
@[irreducible] def taskDirectory (m : Storage) : Nat × KernelMemory :=
  createNewPageDirectory m.memory (pagingIsPresent ||| pagingAccessFromAll)

/-- The task of a loaded program, up to the end of `process_load_for_slot`. When
the memory cannot be mapped the task is released, and nothing else. -/
def processLoadTask (m : Storage) (process : Nat) (program : Program) :
    Attempt (LoadAnswers × Program × Storage) := do
  let (task, m) ← m.kzalloc sizeOfTask
  if task = 0 then .undefined
  else
    let (chunk, k) := taskDirectory m
    if chunk = 0 then .undefined
    else
      let ip := entryPoint k.mem program.data
      let (map, mem) := processMapMemory k.mem (getPageDirectoryEntry k.mem chunk) program
      let k : KernelMemory := { k with mem := mem }
      let k := if map < 0 then kfree (pagingFree4gb k chunk) task else k
      .returned (⟨process, 0, program.stack, task, chunk, ip, map⟩, program, m.setMemory k)

/-- A program for which nothing has been loaded. -/
def noProgram : Program := ⟨.binary 0, 0, 0⟩

/-- The answers met by `process_load_for_slot`, and what is left of memory and
files. A record that was refused is written through null. -/
def processLoadAnswers (d : DiskFiles) (m : Storage) (filename : List UInt8) :
    Attempt (LoadAnswers × Program × Storage) := do
  let (process, m) ← m.kzalloc sizeOfProcess
  if process = 0 then .undefined
  else do
    let (loaded, m) ← processLoadData d m filename
    match loaded with
    | .error res => .returned (⟨process, res, 0, 0, 0, 0, 0⟩, noProgram, m)
    | .ok program => do
        let (stack, m) ← m.kzalloc liebeOsUserProgramStackSize
        if stack = 0 then .returned (⟨process, 0, 0, 0, 0, 0, 0⟩, noProgram, m)
        else processLoadTask m process { program with stack := stack }

/-! ### The whole system -/

/-- What a process has of its own: the program, and memory that it requested. -/
structure LoadedProcess where
  program : Program
  arguments : ArgumentsProcess

structure System where
  storage : Storage
  kernel : Kernel
  loaded : Nat → LoadedProcess

/-- A process that has not requested anything. -/
def newProcess (program : Program) (directory : Nat) : LoadedProcess :=
  ⟨program, ⟨directory, fun _ => ⟨0, 0⟩⟩, 0, 0⟩

/-- `process_load` with the address of the new process. -/
def systemProcessLoad (d : DiskFiles) (s : System) (filename : List UInt8) :
    Attempt (Int × Nat × System) :=
  match processGetFreeSlot s.kernel with
  | none => .returned (-eistkn, 0, s)
  | some slot => do
      let (a, program, m) ← processLoadAnswers d s.storage filename
      match processLoadForSlot s.kernel a slot with
      | .returned (res, process, k) =>
          .returned (res, process, ⟨m, k, Function.update s.loaded a.process
            (newProcess program (getPageDirectoryEntry m.mem a.pageDirectory))⟩)
      | .halted => .undefined
      | .undefined => .undefined

end LiebeOS
