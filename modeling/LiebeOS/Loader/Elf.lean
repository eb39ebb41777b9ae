import LiebeOS.Status
import LiebeOS.Lib.Fetch

/-! The ELF loader of `elfloader.c`. A file is read into a buffer, and the
header structures are overlaid on it: a field is read where its pointer says,
inside the file or not. Every such read is recorded. -/
namespace LiebeOS

open MachineInt Bytes

def elfSignature : List UInt8 := [0x7f, 0x45, 0x4c, 0x46]

def eiClass : Nat := 4
def eiData : Nat := 5

def elfClassNone : UInt8 := 0
def elfClass32 : UInt8 := 1
def elfDataNone : UInt8 := 0
def elfData2Lsb : UInt8 := 1

def etExec : Nat := 2
def ptLoad : Nat := 1
def pfW : Nat := 2

def liebeOsProgramVirtualAddress : Nat := 0x400000

/-! ### The fields of `struct elf_header` and `struct elf32_phdr` -/

def eIdent (mem : Memory) (header i : Nat) : Fetch UInt8 := Fetch.byte mem (header + i)
def eEntry (mem : Memory) (header : Nat) : Fetch Nat := Fetch.word mem (header + 24)
def ePhnum (mem : Memory) (header : Nat) : Fetch Nat := Fetch.half mem (header + 44)

/-- A signed offset. -/
def ePhoff (mem : Memory) (header : Nat) : Fetch Int := do
  let word ← Fetch.word mem (header + 28)
  pure (signed word)

def pType (mem : Memory) (phdr : Nat) : Fetch Nat := Fetch.word mem phdr
def pVaddr (mem : Memory) (phdr : Nat) : Fetch Nat := Fetch.word mem (phdr + 8)
def pFilesz (mem : Memory) (phdr : Nat) : Fetch Nat := Fetch.word mem (phdr + 16)
def pMemsz (mem : Memory) (phdr : Nat) : Fetch Nat := Fetch.word mem (phdr + 20)
def pFlags (mem : Memory) (phdr : Nat) : Fetch Nat := Fetch.word mem (phdr + 24)

/-- A signed offset. -/
def pOffset (mem : Memory) (phdr : Nat) : Fetch Int := do
  let word ← Fetch.word mem (phdr + 4)
  pure (signed word)

/-! ### The checks -/

/-- `memcmp` of the memory at `s1` with the bytes `s2`, which stops at the
first difference. Characters are signed. -/
def memcmp (mem : Memory) : Nat → List UInt8 → Fetch Int
  | _, [] => pure 0
  | s1, c2 :: s2 => do
      let c1 ← Fetch.byte mem s1
      if c1 ≠ c2 then pure (if c1.toInt8 < c2.toInt8 then -1 else 1)
      else memcmp mem (s1 + 1) s2

def elfValidSignature (mem : Memory) (buffer : Nat) : Fetch Bool := do
  let res ← memcmp mem buffer elfSignature
  pure (res = 0)

def elfValidClass (mem : Memory) (header : Nat) : Fetch Bool := do
  let c ← eIdent mem header eiClass
  pure (c = elfClassNone || c = elfClass32)

def elfValidEncoding (mem : Memory) (header : Nat) : Fetch Bool := do
  let c ← eIdent mem header eiData
  pure (c = elfDataNone || c = elfData2Lsb)

def elfHasProgramHeader (mem : Memory) (header : Nat) : Fetch Bool := do
  let phoff ← ePhoff mem header
  pure (phoff ≠ 0)

def elfValidateLoaded (mem : Memory) (header : Nat) : Fetch Int :=
  ((elfValidSignature mem header).and <| (elfValidClass mem header).and <|
    (elfValidEncoding mem header).and (elfHasProgramHeader mem header)).select 0 (-einformat)

/-! ### The program headers -/

def elfPheader (mem : Memory) (header : Nat) : Fetch Nat := do
  let phoff ← ePhoff mem header
  if phoff = 0 then pure 0 else pure (toWord (header + phoff))

/-- `&elf_pheader(header)[index]` -/
def elfProgramHeader (mem : Memory) (header index : Nat) : Fetch Nat := do
  let pheader ← elfPheader mem header
  pure (behind pheader (32 * index))

structure ElfFile where
  elfMemory : Nat
  virtualBaseAddress : Nat
  virtualEndAddress : Nat
  physicalBaseAddress : Nat
  physicalEndAddress : Nat

/-- The first half of `elf_process_phdr_pt_load`: the lowest segment. -/
def ptLoadBase (mem : Memory) (elfFile : ElfFile) (phdr vaddr : Nat) : Fetch ElfFile :=
  if elfFile.virtualBaseAddress ≥ vaddr ∨ elfFile.virtualBaseAddress = 0 then do
    let offset ← pOffset mem phdr
    pure { elfFile with
      virtualBaseAddress := vaddr
      physicalBaseAddress := toWord (elfFile.elfMemory + offset) }
  else pure elfFile

/-- The second half: the segment that ends last. -/
def ptLoadEnd (mem : Memory) (elfFile : ElfFile) (phdr vaddr filesz : Nat) : Fetch ElfFile :=
  let endVirtualAddress := behind vaddr filesz
  if elfFile.virtualEndAddress ≤ endVirtualAddress ∨ elfFile.virtualEndAddress = 0 then do
    let offset ← pOffset mem phdr
    pure { elfFile with
      virtualEndAddress := endVirtualAddress
      physicalEndAddress := toWord (elfFile.elfMemory + offset + filesz) }
  else pure elfFile

def elfProcessPhdrPtLoad (mem : Memory) (elfFile : ElfFile) (phdr : Nat) : Fetch (Int × ElfFile) := do
  let vaddr ← pVaddr mem phdr
  let elfFile ← ptLoadBase mem elfFile phdr vaddr
  let filesz ← pFilesz mem phdr
  let elfFile ← ptLoadEnd mem elfFile phdr vaddr filesz
  pure (0, elfFile)

def elfProcessPheader (mem : Memory) (elfFile : ElfFile) (phdr : Nat) : Fetch (Int × ElfFile) := do
  let type ← pType mem phdr
  if type = ptLoad then elfProcessPhdrPtLoad mem elfFile phdr else pure (0, elfFile)

/-- The loop of `elf_process_pheaders` at header `i`. The bound is read again
in every round; as a 16-bit number it is reached when `left` rounds remain of
65535. -/
def elfPheadersLoop (mem : Memory) (header : Nat) : Nat → Nat → ElfFile → Fetch (Int × ElfFile)
  | 0, _, elfFile => do
      let _ ← ePhnum mem header
      pure (0, elfFile)
  | left + 1, i, elfFile => do
      let phnum ← ePhnum mem header
      if i < phnum then do
        let phdr ← elfProgramHeader mem header i
        let (res, elfFile) ← elfProcessPheader mem elfFile phdr
        if res < 0 then pure (res, elfFile) else elfPheadersLoop mem header left (i + 1) elfFile
      else pure (0, elfFile)

def elfProcessPheaders (mem : Memory) (elfFile : ElfFile) : Fetch (Int × ElfFile) :=
  elfPheadersLoop mem elfFile.elfMemory 65535 0 elfFile

def elfProcessLoaded (mem : Memory) (elfFile : ElfFile) : Fetch (Int × ElfFile) := do
  let res ← elfValidateLoaded mem elfFile.elfMemory
  if res < 0 then pure (res, elfFile) else elfProcessPheaders mem elfFile

def elfPhdrPhysAddress (mem : Memory) (elfMemory phdr : Nat) : Fetch Nat := do
  let offset ← pOffset mem phdr
  pure (toWord (elfMemory + offset))

/-! ### Reading the file -/

/-- What the file system answers while a file is read whole: the results of
opening it, of `fstat` and of the read itself, its size and the bytes read. -/
structure FileAnswers where
  fopen : Int
  fstat : Int
  filesize : Nat
  read : Int
  content : Nat → UInt8

/-- `fread` of one block. The file system is not asked for an empty one. -/
def fread (mem : Memory) (ptr : Nat) (fd : Int) (a : FileAnswers) : Int × Memory :=
  if a.filesize = 0 ∨ fd < 1 then (-einvarg, mem)
  else (a.read, storeRange mem ptr a.filesize a.content)

/-- `elfMemory` is the answer of the allocator for the buffer. Neither it nor
the object that describes the file is checked. -/
def elfLoad (mem : Memory) (elfMemory : Nat) (a : FileAnswers) :
    Fetch (Int × Memory × ElfFile) := do
  let elfFile : ElfFile := ⟨elfMemory, 0, 0, 0, 0⟩
  if a.fopen ≤ 0 then pure (-eio, mem, elfFile)
  else if a.fstat < 0 then pure (a.fstat, mem, elfFile)
  else
    let (res, mem) := fread mem elfMemory a.fopen a
    if res < 0 then pure (res, mem, elfFile)
    else do
      let (res, elfFile) ← elfProcessLoaded mem elfFile
      pure (res, mem, elfFile)

end LiebeOS
