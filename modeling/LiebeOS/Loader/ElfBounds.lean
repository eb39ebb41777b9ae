import LiebeOS.Task.ProcessMap

/-! What `elf_load` demands of a file before it accepts it, and which bytes of
the file buffer are looked at while a file is loaded and mapped. -/
namespace LiebeOS

open MachineInt Bytes

/-- The bytes `content` of a file of `L` bytes lie in memory from `buffer` on. -/
def HoldsFile (mem : Memory) (buffer L : Nat) (content : Nat → UInt8) : Prop :=
  ∀ i < L, mem (behind buffer i) = content i

/-- An address among the first `L` bytes of the buffer. -/
def InFile (buffer L a : Nat) : Prop := offsetFrom buffer a < L

/-- The half-open range of `n` offsets from `start` on lies within `[0, L)`. -/
def RangeInside (start : Int) (n L : Nat) : Prop :=
  ∀ x : Int, start ≤ x → x < start + n → 0 ≤ x ∧ x < L

/-! ### The fields of a file -/

def filePhoff (content : Nat → UInt8) : Int := signed (loadWord content 28)
def filePhnum (content : Nat → UInt8) : Nat := loadHalf content 44

/-- The offset of program header `k`, for a table that is not in front of the
file. -/
def phdrAt (content : Nat → UInt8) (k : Nat) : Nat := (filePhoff content).toNat + 32 * k

def HasSignature (content : Nat → UInt8) : Prop :=
  content 0 = 0x7f ∧ content 1 = 0x45 ∧ content 2 = 0x4c ∧ content 3 = 0x46

def HasClass (content : Nat → UInt8) : Prop := content 4 = 0 ∨ content 4 = 1

def HasEncoding (content : Nat → UInt8) : Prop := content 5 = 0 ∨ content 5 = 1

/-- An executable of the kind that the loader supports. -/
structure ElfSupported (content : Nat → UInt8) : Prop where
  signature : HasSignature content
  fileClass : HasClass content
  encoding : HasEncoding content
  type : loadHalf content 16 = etExec
  entry : liebeOsProgramVirtualAddress ≤ loadWord content 24

/-- The header, the program header table and the file part of every loadable
segment are inside the file. -/
structure ElfInside (content : Nat → UInt8) (L : Nat) : Prop where
  header : 52 ≤ L
  table : RangeInside (filePhoff content) (32 * filePhnum content) L
  segments : ∀ k < filePhnum content, loadWord content (phdrAt content k) = ptLoad →
    RangeInside (signed (loadWord content (phdrAt content k + 4)))
      (loadWord content (phdrAt content k + 16)) L

/-- Every program header then lies inside the file, behind its front. -/
theorem ElfInside.phdrAt_le {content : Nat → UInt8} {L : Nat} (h : ElfInside content L) {k : Nat}
    (hk : k < filePhnum content) : 0 ≤ filePhoff content ∧ phdrAt content k + 32 ≤ L := by
  have hFirst := h.table (filePhoff content) (by omega) (by omega)
  have hLast := h.table (filePhoff content + 32 * filePhnum content - 1) (by omega) (by omega)
  unfold phdrAt
  omega

/-- What `elf_validate_loaded` does check. -/
def ElfAccepts (content : Nat → UInt8) : Prop :=
  HasSignature content ∧ HasClass content ∧ HasEncoding content ∧ filePhoff content ≠ 0

/-- How far into the header `elf_validate_loaded` looks: up to the byte that
decides. -/
def elfExamined (content : Nat → UInt8) : Nat :=
  if content 0 ≠ 0x7f then 1
  else if content 1 ≠ 0x45 then 2
  else if content 2 ≠ 0x4c then 3
  else if content 3 ≠ 0x46 then 4
  else if ¬ (content 4 = 0 ∨ content 4 = 1) then 5
  else if ¬ (content 5 = 0 ∨ content 5 = 1) then 6
  else 32

theorem elfExamined_le (content : Nat → UInt8) (L : Nat) :
    elfExamined content ≤ L ↔
      (0 < L ∧ (content 0 = 0x7f → 1 < L ∧ (content 1 = 0x45 → 2 < L ∧
        (content 2 = 0x4c → 3 < L)))) ∧
      (HasSignature content → 4 < L ∧ (HasClass content → 5 < L ∧
        (HasEncoding content → 32 ≤ L))) := by
  unfold elfExamined HasSignature HasClass HasEncoding
  split_ifs <;> grind

/-- Bytes that validation does not look at do not change its outcome. -/
theorem elfAccepts_congr {c c' : Nat → UInt8} {L : Nat} (hSame : ∀ i < L, c i = c' i)
    (hExamined : elfExamined c ≤ L) :
    elfExamined c' ≤ L ∧ (ElfAccepts c ↔ ElfAccepts c') := by
  have hPhoff : 32 ≤ L → filePhoff c = filePhoff c' := fun hL => by
    have hWord : loadWord c 28 = loadWord c' 28 := loadWord_congr fun i hi => by
      have hIndex : behind 28 i = 28 + i := behind_of_lt (by omega)
      rw [hIndex]
      exact hSame _ (by omega)
    rw [filePhoff, filePhoff, hWord]
  have h0 := hSame 0
  have h1 := hSame 1
  have h2 := hSame 2
  have h3 := hSame 3
  have h4 := hSame 4
  have h5 := hSame 5
  rw [elfExamined_le] at hExamined ⊢
  unfold ElfAccepts
  unfold HasSignature HasClass HasEncoding at *
  grind

theorem inFile_behind {buffer L i : Nat} (hi : i < 4294967296) :
    InFile buffer L (behind buffer i) ↔ i < L := by
  rw [InFile, offsetFrom_behind hi]

/-! ### Validation -/

/-- The memory behind a pointer, as if it were a file. -/
def bytesFrom (mem : Memory) (p : Nat) : Nat → UInt8 := fun i => mem (behind p i)

theorem loadWord_bytesFrom (mem : Memory) (p : Nat) {k : Nat} (hk : k + 3 < 4294967296) :
    loadWord (bytesFrom mem p) k = loadWord mem (p + k) := by
  have hByte : ∀ i < 4, bytesFrom mem p (behind k i) = mem (behind (p + k) i) := fun i hi => by
    have hIndex : behind k i = k + i := behind_of_lt (by omega)
    rw [bytesFrom, hIndex, behind_add]
  rw [loadWord, loadWord, hByte 0 (by decide), hByte 1 (by decide), hByte 2 (by decide),
    hByte 3 (by decide)]

@[simp] theorem memcmp_nil (mem : Memory) (s1 : Nat) : memcmp mem s1 [] = pure 0 := rfl

theorem memcmp_cons_value {mem : Memory} {s1 : Nat} {c2 : UInt8} {s2 : List UInt8} :
    (memcmp mem s1 (c2 :: s2)).value = 0 ↔
      mem (behind s1 0) = c2 ∧ (memcmp mem (s1 + 1) s2).value = 0 := by
  rw [memcmp, Fetch.bind_value, Fetch.byte_value]
  by_cases hSame : mem (behind s1 0) = c2
  · simp [hSame]
  · rw [if_pos hSame, Fetch.pure_value]
    split <;> simp [hSame]

/-- A byte is read only when those in front of it agree. -/
theorem memcmp_cons_within {mem : Memory} {s1 : Nat} {c2 : UInt8} {s2 : List UInt8}
    {P : Nat → Prop} :
    (memcmp mem s1 (c2 :: s2)).Within P ↔
      P (behind s1 0) ∧ (mem (behind s1 0) = c2 → (memcmp mem (s1 + 1) s2).Within P) := by
  rw [memcmp, Fetch.within_bind, Fetch.within_byte, Fetch.byte_value]
  by_cases hSame : mem (behind s1 0) = c2
  · simp [hSame]
  · simp [hSame]

section Validation

variable {mem : Memory} {header : Nat} {P : Nat → Prop}

theorem elfValidSignature_value :
    (elfValidSignature mem header).value = true ↔ HasSignature (bytesFrom mem header) := by
  simp [elfValidSignature, elfSignature, memcmp_cons_value, HasSignature, bytesFrom]

theorem elfValidSignature_within :
    (elfValidSignature mem header).Within P ↔
      P (behind header 0) ∧ (bytesFrom mem header 0 = 0x7f →
        P (behind header 1) ∧ (bytesFrom mem header 1 = 0x45 →
          P (behind header 2) ∧ (bytesFrom mem header 2 = 0x4c → P (behind header 3)))) := by
  simp [elfValidSignature, elfSignature, memcmp_cons_within, bytesFrom]

theorem elfValidClass_value :
    (elfValidClass mem header).value = true ↔ HasClass (bytesFrom mem header) := by
  simp [elfValidClass, eIdent, eiClass, elfClassNone, elfClass32, HasClass, bytesFrom]

theorem elfValidClass_within : (elfValidClass mem header).Within P ↔ P (behind header 4) := by
  simp [elfValidClass, eIdent, eiClass, Fetch.within_byte]

theorem elfValidEncoding_value :
    (elfValidEncoding mem header).value = true ↔ HasEncoding (bytesFrom mem header) := by
  simp [elfValidEncoding, eIdent, eiData, elfDataNone, elfData2Lsb, HasEncoding, bytesFrom]

theorem elfValidEncoding_within : (elfValidEncoding mem header).Within P ↔ P (behind header 5) := by
  simp [elfValidEncoding, eIdent, eiData, Fetch.within_byte]

theorem ePhoff_value : (ePhoff mem header).value = filePhoff (bytesFrom mem header) := by
  rw [filePhoff, loadWord_bytesFrom mem header (by decide)]
  rfl

theorem ePhoff_within : (ePhoff mem header).Within P ↔ ∀ i < 4, P (behind header (28 + i)) := by
  simp [ePhoff, Fetch.within_word]

theorem elfHasProgramHeader_value :
    (elfHasProgramHeader mem header).value = true ↔ filePhoff (bytesFrom mem header) ≠ 0 := by
  simp [elfHasProgramHeader, ePhoff_value]

theorem elfHasProgramHeader_within :
    (elfHasProgramHeader mem header).Within P ↔ ∀ i < 4, P (behind header (28 + i)) := by
  simp [elfHasProgramHeader, ePhoff_within]

/-- A file is accepted or refused as not an ELF file, and which of the two is
decided by the four checks. -/
theorem elfValidateLoaded_value :
    (ElfAccepts (bytesFrom mem header) ∧ (elfValidateLoaded mem header).value = 0) ∨
      (¬ ElfAccepts (bytesFrom mem header) ∧
        (elfValidateLoaded mem header).value = -einformat) := by
  rw [ElfAccepts, ← elfValidSignature_value, ← elfValidClass_value, ← elfValidEncoding_value,
    ← elfHasProgramHeader_value, ← Fetch.and_value, ← Fetch.and_value, ← Fetch.and_value]
  exact Fetch.select_cases _ _ _

/-- Validation reads exactly the bytes up to the one that decides. -/
theorem elfValidateLoaded_within (L : Nat) :
    (elfValidateLoaded mem header).Within (InFile header L) ↔
      elfExamined (bytesFrom mem header) ≤ L := by
  have hOffset : ∀ i < 4294967296, InFile header L (behind header i) ↔ i < L := fun i hi =>
    inFile_behind hi
  have hPhoff : (∀ i < 4, InFile header L (behind header (28 + i))) ↔ 32 ≤ L := by
    constructor
    · intro h
      have hLast := (hOffset 31 (by decide)).mp (h 3 (by decide))
      omega
    · intro hL i hi
      exact (hOffset (28 + i) (by omega)).mpr (by omega)
  rw [elfExamined_le, elfValidateLoaded, Fetch.select_within, Fetch.and_within, Fetch.and_within,
    Fetch.and_within, elfValidSignature_within, elfValidClass_within, elfValidEncoding_within,
    elfHasProgramHeader_within, elfValidSignature_value, elfValidClass_value,
    elfValidEncoding_value, hPhoff, hOffset 0 (by decide), hOffset 1 (by decide),
    hOffset 2 (by decide), hOffset 3 (by decide), hOffset 4 (by decide), hOffset 5 (by decide)]

end Validation

/-! ### The fields of a file in memory -/

section Fields

variable {mem : Memory} {header L : Nat} {content : Nat → UInt8}

theorem HoldsFile.half (h : HoldsFile mem header L content) (hL : L < 4294967296) {off : Nat}
    (hIn : off + 2 ≤ L) : loadHalf mem (header + off) = loadHalf content off :=
  loadHalf_congr fun i hi => by
    have hIndex : behind off i = off + i := behind_of_lt (by omega)
    rw [behind_add, hIndex]
    exact h (off + i) (by omega)

theorem HoldsFile.word (h : HoldsFile mem header L content) (hL : L < 4294967296) {off : Nat}
    (hIn : off + 4 ≤ L) : loadWord mem (header + off) = loadWord content off :=
  loadWord_congr fun i hi => by
    have hIndex : behind off i = off + i := behind_of_lt (by omega)
    rw [behind_add, hIndex]
    exact h (off + i) (by omega)

theorem HoldsFile.phoff (h : HoldsFile mem header L content) (hL : L < 4294967296)
    (hIn : 52 ≤ L) : (ePhoff mem header).value = filePhoff content := by
  rw [ePhoff, Fetch.bind_value, Fetch.pure_value, Fetch.word_value,
    h.word hL (show 28 + 4 ≤ L by omega), filePhoff]

theorem HoldsFile.phnum (h : HoldsFile mem header L content) (hL : L < 4294967296)
    (hIn : 52 ≤ L) : (ePhnum mem header).value = filePhnum content :=
  h.half hL (show 44 + 2 ≤ L by omega)

theorem HoldsFile.pheader (h : HoldsFile mem header L content) (hL : L < 4294967296)
    (hIn : 52 ≤ L) (hFront : 0 < filePhoff content) :
    (elfPheader mem header).value = behind header (filePhoff content).toNat := by
  have hTable : toWord ((header : Int) + filePhoff content) =
      behind header (filePhoff content).toNat := by
    unfold toWord behind
    omega
  rw [elfPheader, Fetch.bind_value, h.phoff hL hIn, if_neg (by omega), Fetch.pure_value, hTable]

/-- Program header `k` starts where the file says, counted from the buffer. -/
theorem HoldsFile.phdr (h : HoldsFile mem header L content) (hL : L < 4294967296)
    (hIn : 52 ≤ L) (hFront : 0 < filePhoff content) (k : Nat) :
    (elfProgramHeader mem header k).value = behind header (phdrAt content k) := by
  rw [elfProgramHeader, Fetch.bind_value, Fetch.pure_value, h.pheader hL hIn hFront,
    behind_behind, phdrAt]

/-- All fields of a program header that lies in the file do. -/
theorem phdr_inFile {off f : Nat} (hL : L < 4294967296) (hIn : off + 32 ≤ L) (hf : f + 4 ≤ 32) :
    (Fetch.word mem (behind header off + f)).Within (InFile header L) :=
  Fetch.within_word.mpr fun i hi => by
    rw [behind_add, behind_behind]
    exact (inFile_behind (by omega)).mpr (by omega)

theorem header_word_inFile {f : Nat} (hL : L < 4294967296) (hIn : f + 4 ≤ L) :
    (Fetch.word mem (header + f)).Within (InFile header L) :=
  Fetch.within_word.mpr fun i hi => by
    rw [behind_add]
    exact (inFile_behind (by omega)).mpr (by omega)

theorem ePhnum_inFile (hL : L < 4294967296) (hIn : 52 ≤ L) :
    (ePhnum mem header).Within (InFile header L) :=
  Fetch.within_half.mpr fun i hi => by
    rw [behind_add]
    exact (inFile_behind (by omega)).mpr (by omega)

theorem elfPheader_inFile (hL : L < 4294967296) (hIn : 52 ≤ L) :
    (elfPheader mem header).Within (InFile header L) := by
  rw [elfPheader, Fetch.within_bind, ePhoff, Fetch.within_bind]
  refine ⟨⟨header_word_inFile hL (by omega), Fetch.within_pure _⟩, ?_⟩
  exact Fetch.within_ite (fun _ => Fetch.within_pure _) fun _ => Fetch.within_pure _

theorem pOffset_inFile {off : Nat} (hL : L < 4294967296) (hIn : off + 32 ≤ L) :
    (pOffset mem (behind header off)).Within (InFile header L) := by
  rw [pOffset, Fetch.within_bind]
  exact ⟨phdr_inFile hL hIn (by decide), Fetch.within_pure _⟩

theorem ptLoadBase_inFile {off : Nat} (hL : L < 4294967296) (hIn : off + 32 ≤ L)
    (elfFile : ElfFile) (vaddr : Nat) :
    (ptLoadBase mem elfFile (behind header off) vaddr).Within (InFile header L) := by
  rw [ptLoadBase]
  apply Fetch.within_ite
  · exact fun _ => (Fetch.within_bind _ _).mpr ⟨pOffset_inFile hL hIn, Fetch.within_pure _⟩
  · exact fun _ => Fetch.within_pure _

theorem ptLoadEnd_inFile {off : Nat} (hL : L < 4294967296) (hIn : off + 32 ≤ L)
    (elfFile : ElfFile) (vaddr filesz : Nat) :
    (ptLoadEnd mem elfFile (behind header off) vaddr filesz).Within (InFile header L) := by
  rw [ptLoadEnd]
  apply Fetch.within_ite
  · exact fun _ => (Fetch.within_bind _ _).mpr ⟨pOffset_inFile hL hIn, Fetch.within_pure _⟩
  · exact fun _ => Fetch.within_pure _

theorem elfProcessPheader_inFile {off : Nat} (hL : L < 4294967296) (hIn : off + 32 ≤ L)
    (elfFile : ElfFile) :
    (elfProcessPheader mem elfFile (behind header off)).Within (InFile header L) := by
  have hType : (pType mem (behind header off)).Within (InFile header L) :=
    phdr_inFile (f := 0) hL hIn (by decide)
  have hVaddr : (pVaddr mem (behind header off)).Within (InFile header L) :=
    phdr_inFile (f := 8) hL hIn (by decide)
  have hFilesz : (pFilesz mem (behind header off)).Within (InFile header L) :=
    phdr_inFile (f := 16) hL hIn (by decide)
  rw [elfProcessPheader, Fetch.within_bind]
  refine ⟨hType, Fetch.within_ite (fun _ => ?_) fun _ => Fetch.within_pure _⟩
  rw [elfProcessPhdrPtLoad, Fetch.within_bind, Fetch.within_bind, Fetch.within_bind,
    Fetch.within_bind]
  exact ⟨hVaddr, ptLoadBase_inFile hL hIn _ _, hFilesz, ptLoadEnd_inFile hL hIn _ _ _,
    Fetch.within_pure _⟩

end Fields

/-! ### Processing the headers -/

/-- Processing a header never fails and keeps the buffer. -/
theorem elfProcessPheader_value (mem : Memory) (elfFile : ElfFile) (phdr : Nat) :
    (elfProcessPheader mem elfFile phdr).value.1 = 0 ∧
      (elfProcessPheader mem elfFile phdr).value.2.elfMemory = elfFile.elfMemory := by
  have hBase : ∀ file vaddr, (ptLoadBase mem file phdr vaddr).value.elfMemory = file.elfMemory := by
    intro file vaddr
    rw [ptLoadBase]
    split <;> rfl
  have hEnd : ∀ file vaddr filesz,
      (ptLoadEnd mem file phdr vaddr filesz).value.elfMemory = file.elfMemory := by
    intro file vaddr filesz
    rw [ptLoadEnd]
    split <;> rfl
  rw [elfProcessPheader, Fetch.bind_value]
  split
  · rw [elfProcessPhdrPtLoad, Fetch.bind_value, Fetch.bind_value, Fetch.bind_value,
      Fetch.bind_value, Fetch.pure_value]
    exact ⟨rfl, (hEnd _ _ _).trans (hBase _ _)⟩
  · exact ⟨rfl, rfl⟩

theorem elfPheadersLoop_value (mem : Memory) (header left i : Nat) (elfFile : ElfFile) :
    (elfPheadersLoop mem header left i elfFile).value.1 = 0 ∧
      (elfPheadersLoop mem header left i elfFile).value.2.elfMemory = elfFile.elfMemory := by
  induction left generalizing i elfFile with
  | zero => exact ⟨rfl, rfl⟩
  | succ left ih =>
      rw [elfPheadersLoop, Fetch.bind_value]
      split
      · rw [Fetch.bind_value, Fetch.bind_value]
        obtain ⟨hRes, hMemory⟩ := elfProcessPheader_value mem elfFile
          (elfProgramHeader mem header i).value
        generalize (elfProcessPheader mem elfFile (elfProgramHeader mem header i).value).value = r
          at hRes hMemory
        obtain ⟨res, file⟩ := r
        dsimp only at hRes hMemory ⊢
        rw [if_neg (by omega), ← hMemory]
        exact ih (i + 1) file
      · exact ⟨rfl, rfl⟩

/-- With a table inside the file, processing the headers stays inside. -/
theorem elfPheadersLoop_inFile {mem : Memory} {header L : Nat} {content : Nat → UInt8}
    (h : HoldsFile mem header L content) (hL : L < 4294967296) (hIn : ElfInside content L)
    (hSome : filePhoff content ≠ 0) (left i : Nat) (elfFile : ElfFile) :
    (elfPheadersLoop mem header left i elfFile).Within (InFile header L) := by
  induction left generalizing i elfFile with
  | zero =>
      rw [elfPheadersLoop, Fetch.within_bind]
      exact ⟨ePhnum_inFile hL hIn.header, Fetch.within_pure _⟩
  | succ left ih =>
      rw [elfPheadersLoop, Fetch.within_bind, h.phnum hL hIn.header]
      refine ⟨ePhnum_inFile hL hIn.header, Fetch.within_ite (fun hi => ?_) fun _ =>
        Fetch.within_pure _⟩
      obtain ⟨hFront, hPlace⟩ := hIn.phdrAt_le hi
      have hPointer : (elfProgramHeader mem header i).Within (InFile header L) := by
        rw [elfProgramHeader, Fetch.within_bind]
        exact ⟨elfPheader_inFile hL hIn.header, Fetch.within_pure _⟩
      rw [Fetch.within_bind, Fetch.within_bind, h.phdr hL hIn.header (by omega)]
      refine ⟨hPointer, elfProcessPheader_inFile hL hPlace elfFile, ?_⟩
      exact Fetch.within_ite (fun _ => Fetch.within_pure _) fun _ => ih (i + 1) _

/-! ### Mapping the segments -/

theorem userFlags_lt (writeable : Bool) : userFlags writeable < 4096 := by
  cases writeable <;> decide

/-- Whatever a header asks for, mapping it changes page tables only. -/
theorem PageTables.mapPhdr {mem : Memory} {directory : Nat} {table : Nat → Nat}
    (h : PageTables mem directory table) (elfMemory phdr : Nat) :
    TablesOnly table mem (mapPhdr mem directory elfMemory phdr).value.2 ∧
      PageTables (mapPhdr mem directory elfMemory phdr).value.2 directory table := by
  have hMaps := h.maps
  have hVaddr := loadWord_lt mem (phdr + 8)
  have hPhys := toWord_lt (elfMemory + signed (loadWord mem (phdr + 4)))
  have hCases := hMaps.mapTo (userFlags_lt (loadWord mem (phdr + 24) &&& pfW != 0))
    (pagingAlignToLowerPage_aligned (loadWord mem (phdr + 8)))
    (Nat.lt_of_le_of_lt (pagingAlignToLowerPage_le _) hVaddr)
    (pagingAlignToLowerPage_aligned (toWord (elfMemory + signed (loadWord mem (phdr + 4)))))
    (Nat.lt_of_le_of_lt (pagingAlignToLowerPage_le _) hPhys)
    (pagingAlignAddress_aligned
      (behind (toWord (elfMemory + signed (loadWord mem (phdr + 4)))) (loadWord mem (phdr + 20))))
  have hValue := mapPhdr_value mem directory elfMemory phdr
  rw [hValue]
  rcases hCases with ⟨_, hRefused⟩ | ⟨_, mem', hMapped, hMaps', hOnly⟩
  · rw [hRefused]
    exact ⟨TablesOnly.refl table mem, h⟩
  · rw [hMapped]
    exact ⟨hOnly, hMaps'.toPageTables⟩

theorem HoldsFile.of_tablesOnly {mem mem' : Memory} {buffer L : Nat} {content : Nat → UInt8}
    {table : Nat → Nat} (h : HoldsFile mem buffer L content) (hOnly : TablesOnly table mem mem')
    (hApart : ∀ i < L, ¬ InTables table (behind buffer i)) : HoldsFile mem' buffer L content :=
  fun i hi => (hOnly _ (behind_lt _ _) (hApart i hi)).trans (h i hi)

theorem mapPhdr_inFile {mem : Memory} {header L off : Nat} (hL : L < 4294967296)
    (hIn : off + 32 ≤ L) (directory : Nat) :
    (mapPhdr mem directory header (behind header off)).Within (InFile header L) := by
  have hPhys : (elfPhdrPhysAddress mem header (behind header off)).Within (InFile header L) := by
    rw [elfPhdrPhysAddress, Fetch.within_bind]
    exact ⟨pOffset_inFile hL hIn, Fetch.within_pure _⟩
  have hFlags : (pFlags mem (behind header off)).Within (InFile header L) :=
    phdr_inFile (f := 24) hL hIn (by decide)
  have hVaddr : (pVaddr mem (behind header off)).Within (InFile header L) :=
    phdr_inFile (f := 8) hL hIn (by decide)
  have hMemsz : (pMemsz mem (behind header off)).Within (InFile header L) :=
    phdr_inFile (f := 20) hL hIn (by decide)
  rw [mapPhdr, Fetch.within_bind, Fetch.within_bind, Fetch.within_bind, Fetch.within_bind]
  exact ⟨hPhys, hFlags, hVaddr, hMemsz, Fetch.within_pure _⟩

/-- Mapping a file whose table is inside it reads only the file, as long as
the page tables that are written lie elsewhere. -/
theorem mapElfLoop_inFile {mem : Memory} {directory header L : Nat} {table : Nat → Nat}
    {content : Nat → UInt8} (h : HoldsFile mem header L content)
    (hTables : PageTables mem directory table)
    (hApart : ∀ i < L, ¬ InTables table (behind header i)) (hL : L < 4294967296)
    (hIn : ElfInside content L) {phdrs : Nat}
    (hPhdrs : 0 < filePhnum content → phdrs = behind header (filePhoff content).toNat)
    (left i : Nat) (res : Int) :
    (mapElfLoop directory header phdrs left i res mem).Within (InFile header L) := by
  induction left generalizing i res mem with
  | zero =>
      rw [mapElfLoop, Fetch.within_bind]
      exact ⟨ePhnum_inFile hL hIn.header, Fetch.within_pure _⟩
  | succ left ih =>
      rw [mapElfLoop, Fetch.within_bind, h.phnum hL hIn.header]
      refine ⟨ePhnum_inFile hL hIn.header, Fetch.within_ite (fun hi => ?_) fun _ =>
        Fetch.within_pure _⟩
      obtain ⟨hOnly, hTables'⟩ := hTables.mapPhdr header (behind header (phdrAt content i))
      rw [Fetch.within_bind, hPhdrs (by omega), behind_behind]
      rw [hPhdrs (by omega)] at ih
      refine ⟨mapPhdr_inFile hL (hIn.phdrAt_le hi).2 directory, ?_⟩
      exact Fetch.within_ite (fun _ => Fetch.within_pure _) fun _ =>
        ih (h.of_tablesOnly hOnly hApart) hTables' (i + 1) _

/-! ### The whole load -/

/-- What acceptance of the file in `a` should mean, and where the loader may
look. Mapping starts from any directory whose page tables lie outside the file
buffer, in a memory that still holds the file. -/
structure ElfLoadBounded (mem : Memory) (elfMemory : Nat) (a : FileAnswers) : Prop where
  accepted : (elfLoad mem elfMemory a).value.1 = 0 →
    ElfSupported a.content ∧ ElfInside a.content a.filesize
  loaded : (elfLoad mem elfMemory a).Within (InFile elfMemory a.filesize)
  mapped : (elfLoad mem elfMemory a).value.1 = 0 →
    ∀ (mem' : Memory) (directory : Nat) (table : Nat → Nat),
      HoldsFile mem' elfMemory a.filesize a.content → PageTables mem' directory table →
      (∀ i < a.filesize, ¬ InTables table (behind elfMemory i)) →
      (processMapElf mem' directory (elfLoad mem elfMemory a).value.2.2).Within
        (InFile elfMemory a.filesize)

section Load

variable {mem : Memory} {elfMemory : Nat} {a : FileAnswers}

/-- The loader gives up before it has a file to look at. -/
def FileAnswers.Unread (a : FileAnswers) : Prop :=
  a.fopen ≤ 0 ∨ a.fstat < 0 ∨ a.filesize = 0 ∨ a.read < 0

theorem elfLoad_unread (h : a.Unread) :
    (elfLoad mem elfMemory a).value.1 < 0 ∧ (elfLoad mem elfMemory a).reads = [] := by
  rw [elfLoad]
  dsimp only
  by_cases hOpen : a.fopen ≤ 0
  · rw [if_pos hOpen]
    exact ⟨show -eio < 0 by decide, rfl⟩
  · rw [if_neg hOpen]
    by_cases hStat : a.fstat < 0
    · rw [if_pos hStat]
      exact ⟨hStat, rfl⟩
    · have hRead : (fread mem elfMemory a.fopen a).1 < 0 := by
        rw [fread]
        split
        · exact show -einvarg < 0 by decide
        · rcases h with h | h | h | h
          · exact absurd h hOpen
          · exact absurd h hStat
          · omega
          · exact h
      rw [if_neg hStat, if_pos hRead]
      exact ⟨hRead, rfl⟩

/-- The memory once the file has been read into the buffer. -/
def FileAnswers.stored (a : FileAnswers) (mem : Memory) (elfMemory : Nat) : Memory :=
  storeRange mem elfMemory a.filesize a.content

theorem FileAnswers.stored_holdsFile (a : FileAnswers) (mem : Memory) (elfMemory : Nat)
    (hSize : a.filesize < 4294967296) :
    HoldsFile (a.stored mem elfMemory) elfMemory a.filesize a.content :=
  fun _ hi => storeRange_at hi (by omega)

/-- Reading a file changes nothing but its buffer. -/
theorem fread_outside {ptr x : Nat} {fd : Int} (hx : x < 4294967296)
    (hOut : x < ptr ∨ ptr + a.filesize ≤ x) (hFit : ptr + a.filesize ≤ 4294967296) :
    (fread mem ptr fd a).2 x = mem x := by
  rw [fread]
  split_ifs
  · rfl
  · apply storeRange_outside
    unfold offsetFrom toWord
    omega

theorem elfLoad_outside {x : Nat} (hx : x < 4294967296)
    (hOut : x < elfMemory ∨ elfMemory + a.filesize ≤ x)
    (hFit : elfMemory + a.filesize ≤ 4294967296) :
    (elfLoad mem elfMemory a).value.2.1 x = mem x := by
  have hFread := @fread_outside mem a elfMemory x a.fopen hx hOut hFit
  rw [elfLoad]
  dsimp only
  split_ifs
  · rfl
  · rfl
  · exact hFread
  · rw [Fetch.bind_value]
    exact hFread

/-- Otherwise the file is in the buffer when it is processed. -/
theorem elfLoad_read (h : ¬ a.Unread) :
    elfLoad mem elfMemory a =
      elfProcessLoaded (a.stored mem elfMemory) ⟨elfMemory, 0, 0, 0, 0⟩ >>=
        fun r => pure (r.1, a.stored mem elfMemory, r.2) := by
  unfold FileAnswers.Unread at h
  have hFread : fread mem elfMemory a.fopen a = (a.read, a.stored mem elfMemory) := by
    rw [fread, if_neg (by omega), FileAnswers.stored]
  rw [elfLoad]
  dsimp only
  rw [if_neg (by omega), if_neg (by omega), hFread]
  dsimp only
  rw [if_neg (by omega)]

/-- A file that is read is accepted when the four checks pass, and refused as
not an ELF file otherwise. -/
theorem elfLoad_value (h : ¬ a.Unread) :
    ((ElfAccepts (bytesFrom (a.stored mem elfMemory) elfMemory) ∧
          (elfLoad mem elfMemory a).value.1 = 0) ∨
        (¬ ElfAccepts (bytesFrom (a.stored mem elfMemory) elfMemory) ∧
          (elfLoad mem elfMemory a).value.1 = -einformat)) ∧
      (elfLoad mem elfMemory a).value.2.2.elfMemory = elfMemory := by
  obtain ⟨hRes, hMemory⟩ := elfPheadersLoop_value (a.stored mem elfMemory) elfMemory 65535 0
    ⟨elfMemory, 0, 0, 0, 0⟩
  have hValidated := @elfValidateLoaded_value (a.stored mem elfMemory) elfMemory
  rw [elfLoad_read h, Fetch.bind_value, Fetch.pure_value, elfProcessLoaded, Fetch.bind_value]
  dsimp only
  rcases hValidated with ⟨hAccepts, hValue⟩ | ⟨hRefuses, hValue⟩
  · rw [hValue, if_neg (by decide)]
    exact ⟨Or.inl ⟨hAccepts, hRes⟩, hMemory⟩
  · rw [hValue, if_pos (by decide)]
    exact ⟨Or.inr ⟨hRefuses, rfl⟩, rfl⟩

/-- Validation looks at the start of the header, and what it accepts is
processed. -/
theorem elfLoad_within (h : ¬ a.Unread) :
    (elfLoad mem elfMemory a).Within (InFile elfMemory a.filesize) ↔
      elfExamined (bytesFrom (a.stored mem elfMemory) elfMemory) ≤ a.filesize ∧
        (ElfAccepts (bytesFrom (a.stored mem elfMemory) elfMemory) →
          (elfProcessPheaders (a.stored mem elfMemory) ⟨elfMemory, 0, 0, 0, 0⟩).Within
            (InFile elfMemory a.filesize)) := by
  have hValidated := @elfValidateLoaded_value (a.stored mem elfMemory) elfMemory
  rw [elfLoad_read h, Fetch.within_bind, elfProcessLoaded, Fetch.within_bind,
    elfValidateLoaded_within]
  rcases hValidated with ⟨hAccepts, hValue⟩ | ⟨hRefuses, hValue⟩
  · rw [hValue, if_neg (by decide)]
    simp [hAccepts]
  · rw [hValue, if_pos (by decide)]
    simp [hRefuses]

/-- Loading keeps the bounds exactly for files that are never read, files that
are refused before the header ends inside the file, and well-formed
executables. Neither the size of the file nor its kind is ever checked. -/
theorem elfLoad_bounded_iff (mem : Memory) (elfMemory : Nat) (a : FileAnswers)
    (hSize : a.filesize < 4294967296) :
    ElfLoadBounded mem elfMemory a ↔
      a.Unread ∨ (¬ ElfAccepts a.content ∧ elfExamined a.content ≤ a.filesize) ∨
        (ElfSupported a.content ∧ ElfInside a.content a.filesize) := by
  by_cases hUnread : a.Unread
  · obtain ⟨hRes, hReads⟩ := @elfLoad_unread mem elfMemory a hUnread
    refine ⟨fun _ => Or.inl hUnread, fun _ => ⟨fun h => ?_, ?_, fun h => ?_⟩⟩
    · omega
    · rw [Fetch.Within, hReads]
      exact fun _ hMem => absurd hMem (by simp)
    · omega
  · have hHolds := a.stored_holdsFile mem elfMemory hSize
    have hLoaded := @elfLoad_value mem elfMemory a hUnread
    have hWithin := @elfLoad_within mem elfMemory a hUnread
    generalize a.stored mem elfMemory = stored at hHolds hLoaded hWithin
    obtain ⟨hCases, hMemory⟩ := hLoaded
    have hSame : ∀ i < a.filesize, bytesFrom stored elfMemory i = a.content i := hHolds
    constructor
    · intro h
      have hExamined := (hWithin.mp h.loaded).1
      obtain ⟨hExamined', hAccepts⟩ := elfAccepts_congr hSame hExamined
      rcases hCases with ⟨hAccepted, hZero⟩ | ⟨hRefused, _⟩
      · exact Or.inr (Or.inr (h.accepted hZero))
      · exact Or.inr (Or.inl ⟨fun hc => hRefused (hAccepts.mpr hc), hExamined'⟩)
    · rintro (h | ⟨hRefused, hExamined⟩ | ⟨hSupported, hInside⟩)
      · exact absurd h hUnread
      · obtain ⟨hExamined', hAccepts⟩ :=
          elfAccepts_congr (fun i hi => (hSame i hi).symm) hExamined
        have hRefused' : ¬ ElfAccepts (bytesFrom stored elfMemory) :=
          fun hc => hRefused (hAccepts.mpr hc)
        have hNotZero : (elfLoad mem elfMemory a).value.1 ≠ 0 := by
          rcases hCases with ⟨hAccepted, _⟩ | ⟨_, hRes⟩
          · exact absurd hAccepted hRefused'
          · rw [hRes]
            decide
        exact ⟨fun hc => absurd hc hNotZero,
          hWithin.mpr ⟨hExamined', fun hc => absurd hc hRefused'⟩,
          fun hc => absurd hc hNotZero⟩
      · have hExamined : elfExamined (bytesFrom stored elfMemory) ≤ a.filesize := by
          have hHeader := hInside.header
          rw [elfExamined_le]
          omega
        obtain ⟨_, hAccepts⟩ := elfAccepts_congr hSame hExamined
        refine ⟨fun _ => ⟨hSupported, hInside⟩, hWithin.mpr ⟨hExamined, fun hc => ?_⟩,
          fun hZero mem' directory table hHolds' hTables hApart => ?_⟩
        · exact elfPheadersLoop_inFile hHolds hSize hInside (hAccepts.mp hc).2.2.2 _ _ _
        · have hAccepted : ElfAccepts (bytesFrom stored elfMemory) := by
            rcases hCases with ⟨hAccepted, _⟩ | ⟨_, hRes⟩
            · exact hAccepted
            · rw [hRes] at hZero
              exact absurd hZero (by decide)
          have hSome := (hAccepts.mp hAccepted).2.2.2
          rw [processMapElf, Fetch.within_bind, hMemory]
          refine ⟨elfPheader_inFile hSize hInside.header,
            mapElfLoop_inFile hHolds' hTables hApart hSize hInside (fun hPhnum => ?_) _ _ _⟩
          have hFront := (hInside.phdrAt_le hPhnum).1
          exact hHolds'.pheader hSize hInside.header (by omega)

end Load

/-- An executable of 84 bytes: the header and one segment that spans the file. -/
def smallExecutable : Nat → UInt8 := fun i =>
  ([0x7f, 0x45, 0x4c, 0x46, 1, 1, 1, 0, 0, 0, 0, 0, 0, 0, 0, 0, 2, 0, 3, 0, 1, 0, 0, 0,
    0, 0, 0x40, 0, 52, 0, 0, 0, 0, 0, 0, 0, 0, 0, 0, 0, 52, 0, 32, 0, 1, 0, 0, 0, 0, 0, 0, 0,
    1, 0, 0, 0, 0, 0, 0, 0, 0, 0, 0x40, 0, 0, 0, 0x40, 0, 84, 0, 0, 0, 84, 0, 0, 0,
    5, 0, 0, 0, 0, 0x10, 0, 0] : List UInt8).getD i 0

theorem elfLoad_bounded_smallExecutable :
    ElfLoadBounded (fun _ => 0) 0x01000000 ⟨1, 0, 84, 1, smallExecutable⟩ := by
  have hPhoff : filePhoff smallExecutable = 52 := by decide
  have hPhnum : filePhnum smallExecutable = 1 := by decide
  refine (elfLoad_bounded_iff _ _ _ (by decide)).mpr (Or.inr (Or.inr ⟨?_, ?_⟩))
  · exact ⟨by unfold HasSignature; decide, by unfold HasClass; decide,
      by unfold HasEncoding; decide, by decide, by decide⟩
  · refine ⟨by decide, fun x hLow hHigh => ?_, fun k hk hType x hLow hHigh => ?_⟩
    · rw [hPhoff] at hLow hHigh
      rw [hPhnum] at hHigh
      dsimp only
      omega
    · change k < filePhnum smallExecutable at hk
      obtain rfl : k = 0 := by omega
      have hOffset : signed (loadWord smallExecutable (phdrAt smallExecutable 0 + 4)) = 0 := by
        decide
      have hFilesz : loadWord smallExecutable (phdrAt smallExecutable 0 + 16) = 84 := by decide
      dsimp only at hLow hHigh ⊢
      rw [hOffset] at hLow hHigh
      rw [hFilesz] at hHigh
      omega

/-- A shared object without program headers, cut off behind its header, is
accepted as if it were an executable. -/
theorem elfLoad_unbounded :
    ¬ ∀ (mem : Memory) (elfMemory : Nat) (a : FileAnswers), a.filesize < 4294967296 →
      ElfLoadBounded mem elfMemory a := by
  intro hClaim
  have hBounded := hClaim (fun _ => 0) 0x01000000
    ⟨1, 0, 52, 1, Function.update (Function.update smallExecutable 16 3) 44 0⟩ (by decide)
  have hSupported := (hBounded.accepted (by decide +kernel)).1
  exact absurd hSupported.type (by decide)

end LiebeOS
