import LiebeOS.Loader.Elf
import LiebeOS.Memory.Paging

/-! The part of `process.c` that maps a loaded program into the directory of
its task. The segments of an ELF file are not copied: the pages of the file
buffer itself are mapped. -/
namespace LiebeOS

open MachineInt Bytes

def liebeOsUserProgramStackSize : Nat := 16384
def liebeOsProgramVirtualStackAddressEnd : Nat := 0x3FF000 - liebeOsUserProgramStackSize

/-- What the union in `struct process` points to, by the type of the file. For
an ELF file this is the address of the record and the record. -/
inductive ProgramData where
  | elf (elfFile : Nat) (file : ElfFile)
  | binary (ptr : Nat)

/-- The part of `struct process` that is mapped when a program starts. -/
structure Program where
  data : ProgramData
  stack : Nat
  size : Nat

def userFlags (writeable : Bool) : Nat :=
  let flags := pagingIsPresent ||| pagingAccessFromAll
  if writeable then flags ||| pagingIsWriteable else flags

/-- The body of the loop of `process_map_elf`. Every header is mapped, whatever
its type, from the page that its file offset falls into. -/
def mapPhdr (mem : Memory) (directory elfMemory phdr : Nat) : Fetch (Int × Memory) := do
  let phdrPhysAddress ← elfPhdrPhysAddress mem elfMemory phdr
  let segmentFlags ← pFlags mem phdr
  let vaddr ← pVaddr mem phdr
  let memsz ← pMemsz mem phdr
  pure (pagingMapTo mem directory (pagingAlignToLowerPage vaddr)
    (pagingAlignToLowerPage phdrPhysAddress) (pagingAlignAddress (behind phdrPhysAddress memsz))
    (userFlags (segmentFlags &&& pfW != 0)))

/-- The loop of `process_map_elf` at header `i`, with rounds counted as in
`elf_process_pheaders`. -/
def mapElfLoop (directory header phdrs : Nat) : Nat → Nat → Int → Memory → Fetch (Int × Memory)
  | 0, _, res, mem => do
      let _ ← ePhnum mem header
      pure (res, mem)
  | left + 1, i, res, mem => do
      let phnum ← ePhnum mem header
      if i < phnum then do
        let (res, mem) ← mapPhdr mem directory header (behind phdrs (32 * i))
        if res < 0 then pure (res, mem) else mapElfLoop directory header phdrs left (i + 1) res mem
      else pure (res, mem)

def processMapElf (mem : Memory) (directory : Nat) (file : ElfFile) : Fetch (Int × Memory) := do
  let phdrs ← elfPheader mem file.elfMemory
  mapElfLoop directory file.elfMemory phdrs 65535 0 0 mem

def processMapBinary (mem : Memory) (directory ptr size : Nat) : Int × Memory :=
  pagingMapTo mem directory liebeOsProgramVirtualAddress ptr
    (pagingAlignAddress (behind ptr size)) (userFlags true)

/-- The result of mapping the stack is not looked at. -/
def processMapMemory (mem : Memory) (directory : Nat) (p : Program) : Int × Memory :=
  let (res, mem) :=
    match p.data with
    | .elf _ file => (processMapElf mem directory file).value
    | .binary ptr => processMapBinary mem directory ptr p.size
  if res < 0 then (res, mem)
  else
    (res, (pagingMapTo mem directory liebeOsProgramVirtualStackAddressEnd p.stack
      (pagingAlignAddress (behind p.stack liebeOsUserProgramStackSize)) (userFlags true)).2)

theorem mapPhdr_value (mem : Memory) (directory elfMemory phdr : Nat) :
    (mapPhdr mem directory elfMemory phdr).value =
      pagingMapTo mem directory (pagingAlignToLowerPage (loadWord mem (phdr + 8)))
        (pagingAlignToLowerPage (toWord (elfMemory + signed (loadWord mem (phdr + 4)))))
        (pagingAlignAddress (behind (toWord (elfMemory + signed (loadWord mem (phdr + 4))))
          (loadWord mem (phdr + 20))))
        (userFlags (loadWord mem (phdr + 24) &&& pfW != 0)) := rfl

end LiebeOS
