import LiebeOS.Task.SegmentMap

/-! What a program finds in its address space once `process_map_memory` is
done. The segments are pages of the file buffer, so behind the file part of a
segment the program sees what follows in the buffer. -/
namespace LiebeOS

open MachineInt Bytes

/-! ### What the program should see -/

/-- The virtual page that byte `i` of a segment falls into. -/
def Phdr.pageAt (h : Phdr) (i : Nat) : Nat := pagingAlignToLowerPage (behind h.vaddr i)

/-- Byte `i` of a segment: the bytes of the file, then zeros. -/
def Phdr.expected (h : Phdr) (content : Nat → UInt8) (i : Nat) : UInt8 :=
  if i < h.filesz then content (h.offset + i).toNat else 0

/-- A page of the user stack. -/
def InUserStack (w : Nat) : Prop :=
  liebeOsProgramVirtualStackAddressEnd ≤ w ∧
    w < liebeOsProgramVirtualStackAddressEnd + liebeOsUserProgramStackSize

/-- The program headers of a file of `L` bytes describe an image: the loadable
segments are apart, and nothing else asks for memory. -/
structure SegmentsWellFormed (L n : Nat) (headers : Nat → Phdr) : Prop where
  others : ∀ k < n, (headers k).type ≠ ptLoad → (headers k).memsz = 0
  disjoint : ∀ j < n, ∀ k < n, j ≠ k → (headers j).type = ptLoad → (headers k).type = ptLoad →
    ∀ i < (headers j).memsz, ∀ i' < (headers k).memsz, (headers j).pageAt i ≠ (headers k).pageAt i'
  stack : ∀ k < n, (headers k).type = ptLoad →
    ∀ i < (headers k).memsz, ¬ InUserStack ((headers k).pageAt i)
  filesz : ∀ k < n, (headers k).type = ptLoad → (headers k).filesz ≤ (headers k).memsz
  inside : ∀ k < n, (headers k).type = ptLoad →
    RangeInside (headers k).offset (headers k).filesz L
  congruent : ∀ k < n, (headers k).type = ptLoad →
    ((headers k).vaddr : Int) % 4096 = (headers k).offset % 4096

/-- Through its page directory the program sees every loadable segment. -/
def ImageShown (mem : Memory) (directory : Nat) (content : Nat → UInt8) (n : Nat)
    (headers : Nat → Phdr) : Prop :=
  ∀ k < n, (headers k).type = ptLoad → ∀ i < (headers k).memsz,
    mem (pagingGetPhysicalAddress mem directory (behind (headers k).vaddr i)) =
      (headers k).expected content i

/-! ### What the mapping depends on -/

/-- The map after the stack is mapped. Its result is ignored, so a refused
stack leaves the map as it is. -/
def mapStack (stack : Nat) (m : PageMap) : PageMap :=
  let stackEnd := pagingAlignAddress (behind stack liebeOsUserProgramStackSize)
  if stackEnd < stack then m
  else mapRange (userFlags true) ((stackEnd - stack) / 4096) m liebeOsProgramVirtualStackAddressEnd
    stack

/-- The memory `mem` with the page tables rewritten to the map `m`. -/
def tablesWritten (mem : Memory) (table : Nat → Nat) (m : PageMap) : Memory := fun x =>
  match (List.range 1024).find? fun d => x / 4096 * 4096 = table d with
  | some d => wordByte (m (4194304 * d + x % 4096 / 4 * 4096)) (x % 4)
  | none => mem x

/-- The bytes that the mapping does not provide by itself. `view` is memory
when all entries are written: the bytes behind the file part of a segment have
to be zero there, and where the last header on a page is an empty one, with an
offset inside its page, this other page has to show the same byte. -/
structure ImageComplete (view : Memory) (buffer : Nat) (content : Nat → UInt8) (n : Nat)
    (headers : Nat → Phdr) : Prop where
  zeros : ∀ k < n, (headers k).type = ptLoad →
    ∀ i, (headers k).filesz ≤ i → i < (headers k).memsz →
      (∀ j, k < j → j < n → ¬ (headers j).Covers buffer ((headers k).pageAt i)) →
        view (behind ((headers k).start buffer) i) = 0
  overlaid : ∀ k < n, (headers k).type = ptLoad → ∀ i < (headers k).memsz,
    ∀ j, k < j → j < n → (headers j).memsz = 0 →
      (headers j).Covers buffer ((headers k).pageAt i) →
      (∀ l, j < l → l < n → ¬ (headers l).Covers buffer ((headers k).pageAt i)) →
        view ((headers j).firstPage buffer + behind (headers k).vaddr i % 4096) =
          (headers k).expected content i

/-- The file as `elf_load` leaves it and the directory of the new task, before
the program is mapped. The page tables lie neither in the pages of the buffer
that hold the file nor in the program header table. -/
structure ElfTask (mem : Memory) (buffer directory stack : Nat) (table : Nat → Nat)
    (a : FileAnswers) : Prop where
  bufferPage : buffer % 4096 = 0 ∧ buffer < 4294967296
  stackPage : stack % 4096 = 0 ∧ stack < 4294967296
  size : a.filesize < 4294967296
  holds : HoldsFile mem buffer a.filesize a.content
  tables : PageTables mem directory table
  apart : ∀ i < a.filesize, ¬ InTables table (behind buffer i)
  headers : HeadersApart mem buffer table

/-! ### The pages of one segment -/

section Segment

variable {buffer : Nat} {h : Phdr}

theorem Phdr.start_congruent (hBuffer : buffer % 4096 = 0)
    (hCongruent : (h.vaddr : Int) % 4096 = h.offset % 4096) :
    h.start buffer % 4096 = h.vaddr % 4096 := by
  unfold start toWord
  omega

theorem InUserStack.iff {w : Nat} : InUserStack w ↔ 0x3FB000 ≤ w ∧ w < 0x3FF000 := Iff.rfl

theorem Phdr.pageAt_eq (h : Phdr) (i : Nat) : h.pageAt i = behind h.vaddr i / 4096 * 4096 :=
  pagingAlignToLowerPage_eq _

/-- A segment that leaves the stack alone does not go around the address space. -/
theorem Phdr.memsz_le (hVaddr : h.vaddr < 4294967296)
    (hStack : ∀ i < h.memsz, ¬ InUserStack (h.pageAt i)) :
    h.vaddr % 4096 + h.memsz ≤ 4294963200 := by
  by_contra hLong
  have hLow := hStack (offsetFrom h.vaddr 0x3FC000)
  have hHigh := hStack (offsetFrom h.vaddr 0x3FE000)
  rw [pageAt_eq, behind_offsetFrom (by decide), InUserStack.iff] at hLow hHigh
  have hShort : ¬ offsetFrom h.vaddr 0x3FC000 < h.memsz := fun hi => hLow hi (by decide)
  have hShort' : ¬ offsetFrom h.vaddr 0x3FE000 < h.memsz := fun hi => hHigh hi (by decide)
  unfold offsetFrom toWord at hShort hShort'
  omega

/-- Where the pages of a segment end, when its range is not refused. -/
theorem Phdr.endPage_eq (hStart : h.start buffer % 4096 = h.vaddr % 4096)
    (hMemsz : h.vaddr % 4096 + h.memsz ≤ 4294963200) (hAccepted : ¬ h.Refused buffer)
    (hSome : 0 < h.memsz) :
    h.start buffer + h.memsz ≤ 4294963200 ∧
      h.endPage buffer = (h.start buffer + h.memsz + 4095) / 4096 * 4096 := by
  have hStartLt : h.start buffer < 4294967296 := toWord_lt _
  have hShort : h.start buffer + h.memsz ≤ 4294963200 := by
    by_contra hLong
    unfold Refused firstPage endPage at hAccepted
    rw [pagingAlignToLowerPage_eq] at hAccepted
    by_cases hWrap : h.start buffer + h.memsz < 4294967296
    · rw [behind_of_lt hWrap, pagingAlignAddress_wraps (by omega) hWrap] at hAccepted
      omega
    · have hEnd : behind (h.start buffer) h.memsz = h.start buffer + h.memsz - 4294967296 := by
        unfold behind
        omega
      rw [hEnd, pagingAlignAddress_eq (by omega)] at hAccepted
      omega
  refine ⟨hShort, ?_⟩
  rw [endPage, behind_of_lt (by omega), pagingAlignAddress_eq hShort]

/-- Such a segment covers the pages of its bytes, -/
theorem Phdr.covers_pageAt (hStart : h.start buffer % 4096 = h.vaddr % 4096) (hMemsz : h.vaddr % 4096 + h.memsz ≤ 4294963200) (hAccepted : ¬ h.Refused buffer) {i : Nat}
    (hi : i < h.memsz) : h.Covers buffer (h.pageAt i) := by
  obtain ⟨hShort, hEnd⟩ := endPage_eq hStart hMemsz hAccepted (by omega)
  unfold Covers virtPage pages firstPage
  rw [hEnd, pageAt_eq, pagingAlignToLowerPage_eq, pagingAlignToLowerPage_eq]
  unfold offsetFrom toWord behind
  omega

/-- and no others. -/
theorem Phdr.pageAt_of_covers (hVaddr : h.vaddr < 4294967296)
    (hStart : h.start buffer % 4096 = h.vaddr % 4096)
    (hMemsz : h.vaddr % 4096 + h.memsz ≤ 4294963200) (hAccepted : ¬ h.Refused buffer)
    (hSome : 0 < h.memsz) {w : Nat} (hw : w < 4294967296) (hPage : w % 4096 = 0)
    (hCovers : h.Covers buffer w) : ∃ i < h.memsz, h.pageAt i = w := by
  obtain ⟨hShort, hEnd⟩ := endPage_eq hStart hMemsz hAccepted hSome
  unfold Covers virtPage pages firstPage at hCovers
  rw [hEnd, pagingAlignToLowerPage_eq, pagingAlignToLowerPage_eq] at hCovers
  by_cases hFirst : w = h.vaddr / 4096 * 4096
  · refine ⟨0, hSome, ?_⟩
    rw [pageAt_eq, behind_of_lt (by omega), hFirst, Nat.add_zero]
  · refine ⟨offsetFrom h.vaddr w, ?_, ?_⟩
    · unfold offsetFrom toWord at hCovers ⊢
      omega
    · rw [pageAt_eq, behind_offsetFrom hw]
      omega

/-- A header of size zero covers at most the page of its address. -/
theorem Phdr.covers_empty (hVaddr : h.vaddr < 4294967296) (hEmpty : h.memsz = 0) {w : Nat}
    (hw : w < 4294967296) (hPage : w % 4096 = 0) (hCovers : h.Covers buffer w) :
    w = h.virtPage ∧ offsetFrom h.virtPage w = 0 := by
  have hStartLt : h.start buffer < 4294967296 := toWord_lt _
  obtain ⟨hVirt, hVirtLt⟩ := virtPage_aligned hVaddr
  unfold Covers pages firstPage endPage at hCovers
  rw [hEmpty, pagingAlignToLowerPage_eq, behind_of_lt (by omega), Nat.add_zero] at hCovers
  by_cases hHigh : h.start buffer ≤ 4294963200
  · rw [pagingAlignAddress_eq hHigh] at hCovers
    unfold offsetFrom toWord at hCovers ⊢
    omega
  · rw [pagingAlignAddress_wraps (by omega) hStartLt] at hCovers
    omega

/-- Byte `i` of the segment lies `i` bytes behind its start. -/
theorem Phdr.shown_at (hStart : h.start buffer % 4096 = h.vaddr % 4096)
    (hVaddr : h.vaddr < 4294967296) (i : Nat) :
    behind (h.firstPage buffer) (offsetFrom h.virtPage (h.pageAt i)) +
        behind h.vaddr i % 4096 = behind (h.start buffer) i := by
  have hStartLt : h.start buffer < 4294967296 := toWord_lt _
  unfold firstPage virtPage
  rw [pageAt_eq, pagingAlignToLowerPage_eq, pagingAlignToLowerPage_eq]
  unfold offsetFrom toWord behind
  omega

end Segment

/-! ### The whole map -/

/-- Some header is the last one to cover a page that is covered at all. -/
theorem exists_last_covers {buffer n k w : Nat} {headers : Nat → Phdr} (hk : k < n)
    (hCovers : (headers k).Covers buffer w) :
    ∃ l, k ≤ l ∧ l < n ∧ (headers l).Covers buffer w ∧
      ∀ j, l < j → j < n → ¬ (headers j).Covers buffer w := by
  induction n with
  | zero => omega
  | succ n ih =>
      by_cases hLast : (headers n).Covers buffer w
      · exact ⟨n, by omega, by omega, hLast, fun j hj hjn => by omega⟩
      · have hne : k ≠ n := fun hSame => hLast (hSame ▸ hCovers)
        obtain ⟨l, hkl, hln, hCoversL, hAfter⟩ := ih (by omega)
        refine ⟨l, hkl, by omega, hCoversL, fun j hj hjn => ?_⟩
        by_cases hEnd : j = n
        · rw [hEnd]
          exact hLast
        · exact hAfter j hj (by omega)

section Map

variable {mem mem' : Memory} {directory : Nat} {table : Nat → Nat} {m : PageMap}

/-- Memory behind the mapping: outside the tables it is as before, and inside
each entry is that of the map. -/
theorem Maps.tablesWritten_eq (h : Maps mem' directory table m) (hOnly : TablesOnly table mem mem')
    {x : Nat} (hx : x < 4294967296) : mem' x = tablesWritten mem table m x := by
  unfold tablesWritten
  generalize hFind : ((List.range 1024).find? fun d => x / 4096 * 4096 = table d) = found
  cases found with
  | none =>
      apply hOnly x hx
      rintro ⟨d, hd, hPage⟩
      rw [List.find?_eq_none] at hFind
      exact hFind d (List.mem_range.mpr hd) (decide_eq_true hPage)
  | some d =>
      have hd := List.mem_of_find?_eq_some hFind
      rw [List.mem_range] at hd
      have hPage := List.find?_some hFind
      rw [decide_eq_true_eq] at hPage
      have hEntry := h.entries (4194304 * d + x % 4096 / 4 * 4096) (by omega) (by omega)
      have hDirectory : (4194304 * d + x % 4096 / 4 * 4096) / 4194304 = d := by omega
      have hIndex : (4194304 * d + x % 4096 / 4 * 4096) % 4194304 / 4096 = x % 4096 / 4 := by omega
      have hAddress : behind (table d + 4 * (x % 4096 / 4)) (x % 4) = x := by
        unfold behind
        omega
      rw [h.toPageTables.get (by omega) (by omega), entryPointer, hDirectory, hIndex] at hEntry
      dsimp only
      rw [← hEntry, wordByte_loadWord (Nat.mod_lt _ (by decide)), hAddress]

theorem mapStack_eq {stack w : Nat} (hStack : stack % 4096 = 0) (hStackLt : stack < 4294967296)
    (hw : w < 4294967296) (hPage : w % 4096 = 0) (hOut : ¬ InUserStack w) :
    mapStack stack m w = m w := by
  have hCount : (pagingAlignAddress (behind stack liebeOsUserProgramStackSize) - stack) / 4096 ≤ 4 := by
    unfold pagingAlignAddress pageSize liebeOsUserProgramStackSize behind
    split <;> omega
  rw [InUserStack.iff] at hOut
  unfold mapStack
  split
  · rfl
  · have hFar : 16384 ≤ offsetFrom liebeOsProgramVirtualStackAddressEnd w := by
      unfold offsetFrom toWord liebeOsProgramVirtualStackAddressEnd liebeOsUserProgramStackSize
      omega
    rw [mapRange_eq m (by omega) (by decide) (by decide) hStackLt hw hPage, if_neg (by omega)]

theorem Maps.stack (h : Maps mem directory table m) {stack : Nat} (hStack : stack % 4096 = 0)
    (hStackLt : stack < 4294967296) :
    Maps (pagingMapTo mem directory liebeOsProgramVirtualStackAddressEnd stack
        (pagingAlignAddress (behind stack liebeOsUserProgramStackSize)) (userFlags true)).2
      directory table (mapStack stack m) ∧
    TablesOnly table mem (pagingMapTo mem directory liebeOsProgramVirtualStackAddressEnd stack
        (pagingAlignAddress (behind stack liebeOsUserProgramStackSize)) (userFlags true)).2 := by
  unfold mapStack
  dsimp only
  rcases h.mapTo (userFlags_lt true) (show liebeOsProgramVirtualStackAddressEnd % 4096 = 0 by decide)
    (by decide) hStack hStackLt
    (pagingAlignAddress_aligned (behind stack liebeOsUserProgramStackSize)) with
    ⟨hOrder, hRefused⟩ | ⟨hOrder, mem', hMapped, hMaps, hOnly⟩
  · rw [if_pos hOrder, hRefused]
    exact ⟨h, TablesOnly.refl table mem⟩
  · rw [if_neg (by omega), hMapped]
    exact ⟨hMaps, hOnly⟩

end Map

section Task

variable {mem : Memory} {buffer directory stack size : Nat} {table : Nat → Nat}
    {a : FileAnswers} {file : ElfFile}

/-- The map when the program starts. -/
def programMap (mem : Memory) (buffer directory stack : Nat) : PageMap :=
  mapStack stack (mapSegments buffer (phdrs mem buffer) (loadHalf mem (buffer + 44))
    (pagingGet mem directory))

theorem processMapMemory_elf (mem : Memory) (directory elfFile stack size : Nat) (file : ElfFile) :
    processMapMemory mem directory ⟨.elf elfFile file, stack, size⟩ =
      if (processMapElf mem directory file).value.1 < 0 then (processMapElf mem directory file).value
      else ((processMapElf mem directory file).value.1,
        (pagingMapTo (processMapElf mem directory file).value.2 directory
          liebeOsProgramVirtualStackAddressEnd stack
          (pagingAlignAddress (behind stack liebeOsUserProgramStackSize)) (userFlags true)).2) := rfl

/-- A successful `process_map_memory` has mapped every header. -/
theorem ElfTask.mapped (h : ElfTask mem buffer directory stack table a)
    (hFile : file.elfMemory = buffer) (elfFile : Nat)
    (hMapped : (processMapMemory mem directory ⟨.elf elfFile file, stack, size⟩).1 = 0) :
    Maps (processMapMemory mem directory ⟨.elf elfFile file, stack, size⟩).2 directory table
        (programMap mem buffer directory stack) ∧
      TablesOnly table mem (processMapMemory mem directory ⟨.elf elfFile file, stack, size⟩).2 ∧
      ∀ k < loadHalf mem (buffer + 44), ¬ (phdrs mem buffer k).Refused buffer := by
  subst hFile
  have hTurn : ∀ k < loadHalf mem (file.elfMemory + 44),
      turnPhdr mem directory file.elfMemory k = phdrs mem file.elfMemory k := fun k hk =>
    h.headers.turnPhdr h.tables hk
  have hLoop := processMapElf_turns h.tables h.headers.header
  rw [mapSegments_congr hTurn] at hLoop
  rw [processMapMemory_elf] at hMapped ⊢
  generalize (processMapElf mem directory file).value = r at hLoop hMapped ⊢
  obtain ⟨res, mem'⟩ := r
  dsimp only at hLoop hMapped ⊢
  by_cases hFail : res < 0
  · rw [if_pos hFail] at hMapped
    exact absurd hMapped (by dsimp only; omega)
  · rw [if_neg hFail]
    rcases hLoop with ⟨hNegative, _⟩ | ⟨hDone, hOnly, hRest, _⟩
    · exact absurd hNegative hFail
    · obtain ⟨hStack, hOnly'⟩ := hDone.stack h.stackPage.1 h.stackPage.2
      exact ⟨hStack, hOnly.trans hOnly', fun k hk => hTurn k hk ▸ hRest k hk⟩

theorem phdrs_vaddr_lt (mem : Memory) (buffer k : Nat) :
    (phdrs mem buffer k).vaddr < 4294967296 := loadWord_lt mem _

/-- What the program sees at an address outside its stack: the page of the last
header that covers it. -/
theorem Maps.shown {mem' : Memory}
    (hMaps : Maps mem' directory table (programMap mem buffer directory stack))
    (hStack : stack % 4096 = 0) (hStackLt : stack < 4294967296) {l v : Nat}
    (hl : l < loadHalf mem (buffer + 44)) (hv : v < 4294967296)
    (hOut : ¬ InUserStack (pagingAlignToLowerPage v))
    (hCovers : (phdrs mem buffer l).Covers buffer (pagingAlignToLowerPage v))
    (hLast : ∀ j, l < j → j < loadHalf mem (buffer + 44) →
      ¬ (phdrs mem buffer j).Covers buffer (pagingAlignToLowerPage v)) :
    pagingGetPhysicalAddress mem' directory v =
      behind ((phdrs mem buffer l).firstPage buffer)
        (offsetFrom (phdrs mem buffer l).virtPage (pagingAlignToLowerPage v)) + v % 4096 := by
  obtain ⟨hFirst, hFirstLt⟩ := (phdrs mem buffer l).firstPage_aligned buffer
  obtain ⟨hVirt, hVirtLt⟩ := Phdr.virtPage_aligned (phdrs_vaddr_lt mem buffer l)
  have hPage : pagingAlignToLowerPage v = v / 4096 * 4096 := pagingAlignToLowerPage_eq v
  have hAligned : behind ((phdrs mem buffer l).firstPage buffer)
      (offsetFrom (phdrs mem buffer l).virtPage (pagingAlignToLowerPage v)) % 4096 = 0 := by
    rw [hPage]
    unfold behind offsetFrom toWord
    omega
  have hEntry := mapSegments_last (m := pagingGet mem directory) (phdrs_vaddr_lt mem buffer)
    (by omega) (by omega) hl hCovers hLast
  rw [← mapStack_eq (m := mapSegments buffer (phdrs mem buffer) (loadHalf mem (buffer + 44))
    (pagingGet mem directory)) hStack hStackLt (by omega) (by omega) hOut] at hEntry
  rw [hMaps.translate hv hAligned (behind_lt _ _) (userFlags_lt _) (by rw [← hPage]; exact hEntry)]

/-- The program sees its image exactly when the bytes that the mapping does not
provide happen to be right. -/
theorem imageShown_iff (hTask : ElfTask mem buffer directory stack table a)
    (hFile : file.elfMemory = buffer) (elfFile : Nat)
    (hMapped : (processMapMemory mem directory ⟨.elf elfFile file, stack, size⟩).1 = 0)
    (hForm : SegmentsWellFormed a.filesize (loadHalf mem (buffer + 44)) (phdrs mem buffer)) :
    ImageShown (processMapMemory mem directory ⟨.elf elfFile file, stack, size⟩).2 directory
        a.content (loadHalf mem (buffer + 44)) (phdrs mem buffer) ↔
      ImageComplete (tablesWritten mem table (programMap mem buffer directory stack)) buffer
        a.content (loadHalf mem (buffer + 44)) (phdrs mem buffer) := by
  obtain ⟨hMaps, hOnly, hAccepted⟩ := hTask.mapped hFile elfFile hMapped
  obtain ⟨hBuffer, hBufferLt⟩ := hTask.bufferPage
  generalize (processMapMemory mem directory ⟨.elf elfFile file, stack, size⟩).2 = mem' at hMaps hOnly ⊢
  have hView : ∀ x < 4294967296, mem' x =
      tablesWritten mem table (programMap mem buffer directory stack) x := fun x hx =>
    hMaps.tablesWritten_eq hOnly hx
  generalize tablesWritten mem table (programMap mem buffer directory stack) = view at hView ⊢
  have hVaddr := phdrs_vaddr_lt mem buffer
  have hSeen := fun l v => @Maps.shown mem buffer directory stack table mem' hMaps
    hTask.stackPage.1 hTask.stackPage.2 l v
  generalize loadHalf mem (buffer + 44) = n at hForm hAccepted hSeen ⊢
  generalize phdrs mem buffer = headers at hForm hAccepted hSeen hVaddr ⊢
  have hStart : ∀ k < n, (headers k).type = ptLoad →
      (headers k).start buffer % 4096 = (headers k).vaddr % 4096 := fun k hk hLoad =>
    Phdr.start_congruent hBuffer (hForm.congruent k hk hLoad)
  have hMemsz : ∀ k < n, (headers k).type = ptLoad →
      (headers k).vaddr % 4096 + (headers k).memsz ≤ 4294963200 := fun k hk hLoad =>
    Phdr.memsz_le (hVaddr k) (hForm.stack k hk hLoad)
  have hOwn : ∀ k < n, (headers k).type = ptLoad → ∀ i < (headers k).memsz,
      (headers k).Covers buffer ((headers k).pageAt i) := fun k hk hLoad i hi =>
    Phdr.covers_pageAt (hStart k hk hLoad) (hMemsz k hk hLoad) (hAccepted k hk) hi
  have hNear : ∀ k < n, (headers k).type = ptLoad → ∀ i < (headers k).memsz,
      (∀ j, k < j → j < n → ¬ (headers j).Covers buffer ((headers k).pageAt i)) →
        mem' (pagingGetPhysicalAddress mem' directory (behind (headers k).vaddr i)) =
          view (behind ((headers k).start buffer) i) := fun k hk hLoad i hi hLast => by
    have hAddress := hSeen k (behind (headers k).vaddr i) hk (behind_lt _ _)
      (hForm.stack k hk hLoad i hi) (hOwn k hk hLoad i hi) hLast
    have hPlace := Phdr.shown_at (hStart k hk hLoad) (hVaddr k) i
    rw [hAddress, ← hView _ (behind_lt _ _), ← hPlace]
    rfl
  have hFar : ∀ k < n, (headers k).type = ptLoad → ∀ i < (headers k).memsz, ∀ l, k < l → l < n →
      (headers l).Covers buffer ((headers k).pageAt i) →
      (∀ j, l < j → j < n → ¬ (headers j).Covers buffer ((headers k).pageAt i)) →
        (headers l).memsz = 0 ∧
          mem' (pagingGetPhysicalAddress mem' directory (behind (headers k).vaddr i)) =
            view ((headers l).firstPage buffer + behind (headers k).vaddr i % 4096) :=
      fun k hk hLoad i hi l hkl hl hCovers hLast => by
    have hPageLt : (headers k).pageAt i < 4294967296 := by
      have hLt := behind_lt (headers k).vaddr i
      rw [Phdr.pageAt_eq]
      omega
    have hPage : (headers k).pageAt i % 4096 = 0 := pagingAlignToLowerPage_aligned _
    have hEmpty : (headers l).memsz = 0 := by
      by_contra hSome
      have hLoadL : (headers l).type = ptLoad := by
        by_contra hOther
        exact hSome (hForm.others l hl hOther)
      obtain ⟨i', hi', hSame⟩ := Phdr.pageAt_of_covers (hVaddr l) (hStart l hl hLoadL)
        (hMemsz l hl hLoadL) (hAccepted l hl) (by omega) hPageLt hPage hCovers
      exact hForm.disjoint l hl k hk (by omega) hLoadL hLoad i' hi' i hi hSame
    have hAddress := hSeen l (behind (headers k).vaddr i) hl (behind_lt _ _)
      (hForm.stack k hk hLoad i hi) hCovers hLast
    obtain ⟨_, hZero⟩ := Phdr.covers_empty (hVaddr l) hEmpty hPageLt hPage hCovers
    obtain ⟨hFirst, hFirstLt⟩ := (headers l).firstPage_aligned buffer
    refine ⟨hEmpty, ?_⟩
    have hOffset : offsetFrom (headers l).virtPage
        (pagingAlignToLowerPage (behind (headers k).vaddr i)) = 0 := hZero
    rw [hAddress, hOffset, behind_of_lt (by omega), Nat.add_zero]
    exact hView _ (by omega)
  have hFileByte : ∀ k < n, (headers k).type = ptLoad → ∀ i < (headers k).filesz,
      view (behind ((headers k).start buffer) i) = (headers k).expected a.content i :=
      fun k hk hLoad i hi => by
    obtain ⟨hLow, hHigh⟩ := hForm.inside k hk hLoad ((headers k).offset + i) (by omega) (by omega)
    have hPlace : behind ((headers k).start buffer) i =
        behind buffer ((headers k).offset + i).toNat := by
      unfold Phdr.start behind toWord
      omega
    rw [hPlace, ← hView _ (behind_lt _ _), hOnly _ (behind_lt _ _) (hTask.apart _ (by omega)),
      hTask.holds _ (by omega), Phdr.expected, if_pos hi]
  constructor
  · intro hShown
    refine ⟨fun k hk hLoad i hFrom hi hLast => ?_,
      fun k hk hLoad i hi l hkl hl _ hCovers hLast => ?_⟩
    · rw [← hNear k hk hLoad i hi hLast, hShown k hk hLoad i hi, Phdr.expected, if_neg (by omega)]
    · rw [← (hFar k hk hLoad i hi l hkl hl hCovers hLast).2]
      exact hShown k hk hLoad i hi
  · intro hComplete k hk hLoad i hi
    by_cases hLater : ∃ j, k < j ∧ j < n ∧ (headers j).Covers buffer ((headers k).pageAt i)
    · obtain ⟨j, hkj, hj, hCoversJ⟩ := hLater
      obtain ⟨l, hjl, hl, hCovers, hLast⟩ := exists_last_covers hj hCoversJ
      obtain ⟨hEmpty, hByte⟩ := hFar k hk hLoad i hi l (by omega) hl hCovers hLast
      rw [hByte]
      exact hComplete.overlaid k hk hLoad i hi l (by omega) hl hEmpty hCovers hLast
    · have hLast : ∀ j, k < j → j < n → ¬ (headers j).Covers buffer ((headers k).pageAt i) :=
        fun j hkj hj hCovers => hLater ⟨j, hkj, hj, hCovers⟩
      rw [hNear k hk hLoad i hi hLast]
      by_cases hInFile : i < (headers k).filesz
      · exact hFileByte k hk hLoad i hInFile
      · rw [Phdr.expected, if_neg hInFile]
        exact hComplete.zeros k hk hLoad i (by omega) hi hLast

/-- Mapping an accepted file shows its image exactly when the zeros behind the
file part of each segment are there already and no empty header lies on top. -/
theorem loadedImage_iff {loadMem : Memory} (hLoaded : (elfLoad loadMem buffer a).value.1 = 0)
    (hTask : ElfTask mem buffer directory stack table a) {elfFile : Nat}
    (hMapped : (processMapMemory mem directory
      ⟨.elf elfFile (elfLoad loadMem buffer a).value.2.2, stack, size⟩).1 = 0)
    (hForm : SegmentsWellFormed a.filesize (loadHalf mem (buffer + 44)) (phdrs mem buffer)) :
    ImageShown (processMapMemory mem directory
        ⟨.elf elfFile (elfLoad loadMem buffer a).value.2.2, stack, size⟩).2 directory
        a.content (loadHalf mem (buffer + 44)) (phdrs mem buffer) ↔
      ImageComplete (tablesWritten mem table (programMap mem buffer directory stack)) buffer
        a.content (loadHalf mem (buffer + 44)) (phdrs mem buffer) := by
  have hRead : ¬ a.Unread := fun hUnread => by
    have hRefused := (@elfLoad_unread loadMem buffer a hUnread).1
    omega
  exact imageShown_iff hTask (elfLoad_value hRead).2 elfFile hMapped hForm

end Task

/-! ### One segment in one page -/

/-- `smallExecutable` with `memsz` bytes of memory for its segment. -/
def paddedExecutable (memsz : UInt8) : Nat → UInt8 := Function.update smallExecutable 72 memsz

/-- The file in the buffer, a stale byte behind it, and a page directory. -/
def paddedMemory (memsz : UInt8) : Memory := fun x =>
  if 0x01000000 ≤ x ∧ x < 0x01000054 then paddedExecutable memsz (x - 0x01000000)
  else if x = 0x01000054 then 0xFF
  else if 0x02000000 ≤ x ∧ x < 0x02001000 then
    wordByte (0x02400000 + 4096 * ((x - 0x02000000) / 4)) (x % 4)
  else 0

def paddedAnswers (memsz : UInt8) : FileAnswers := ⟨1, 0, 84, 1, paddedExecutable memsz⟩

theorem paddedTask {memsz : UInt8}
    (hPhnum : loadHalf (paddedMemory memsz) (0x01000000 + 44) = 1)
    (hPheader : (elfPheader (paddedMemory memsz) 0x01000000).value = 0x01000034) :
    ElfTask (paddedMemory memsz) 0x01000000 0x02000000 0x01002000 (fun d => 0x02400000 + 4096 * d)
      (paddedAnswers memsz) := by
  have hApart : ∀ x < 0x01000054, ¬ InTables (fun d => 0x02400000 + 4096 * d) x := by
    rintro x hx ⟨d, hd, hPage⟩
    dsimp only at hPage
    omega
  refine
    { bufferPage := by decide
      stackPage := by decide
      size := show 84 < 4294967296 by decide
      holds := fun i hi => ?_
      tables :=
        { aligned := by decide
          lt := by decide
          entry := fun d hd => ?_
          apart := fun d hd => by omega
          distinct := fun d hd e he hSame => by omega }
      apart := fun i hi => ?_
      headers := ⟨fun i hi => ?_, fun k hk i hi => ?_⟩ }
  · change i < 84 at hi
    rw [behind_of_lt (by omega), paddedMemory, if_pos (by omega), Nat.add_sub_cancel_left]
    rfl
  · have hWord : loadWord (paddedMemory memsz) (0x02000000 + 4 * d) = 0x02400000 + 4096 * d := by
      refine loadWord_of_bytes (by omega) fun i hi => ?_
      have hIndex : (0x02000000 + 4 * d + i - 0x02000000) / 4 = d := by omega
      have hByte : (0x02000000 + 4 * d + i) % 4 = i := by omega
      rw [behind_of_lt (by omega), paddedMemory, if_neg (by omega), if_neg (by omega),
        if_pos (by omega), hIndex, hByte]
    rw [hWord, entryAddress_eq (by omega)]
    omega
  · change i < 84 at hi
    rw [behind_of_lt (by omega)]
    exact hApart _ (by omega)
  · rw [behind_of_lt (by omega)]
    exact hApart _ (by omega)
  · rw [hPhnum] at hk
    rw [hPheader, behind_of_lt (by omega)]
    exact hApart _ (by omega)

/-- The one segment of the file. -/
theorem paddedSegment {mem : Memory} {memsz : Nat} (hMemsz : 84 ≤ memsz) (hSmall : memsz < 256)
    (hPhdr : phdrs mem 0x01000000 0 = ⟨ptLoad, 0, 0x400000, 84, memsz, 5⟩) :
    SegmentsWellFormed 84 1 (phdrs mem 0x01000000) := by
  have hOne : ∀ k < 1, phdrs mem 0x01000000 k = ⟨ptLoad, 0, 0x400000, 84, memsz, 5⟩ := fun k hk => by
    obtain rfl : k = 0 := by omega
    exact hPhdr
  refine
    { others := fun k hk hOther => ?_
      disjoint := fun j hj k hk hne => by omega
      stack := fun k hk _ i hi => ?_
      filesz := fun k hk _ => ?_
      inside := fun k hk _ x hLow hHigh => ?_
      congruent := fun k hk _ => ?_ }
  · rw [hOne k hk] at hOther
    exact absurd rfl hOther
  · rw [hOne k hk] at hi ⊢
    dsimp only at hi
    rw [Phdr.pageAt_eq, InUserStack.iff, behind_of_lt (by dsimp only; omega)]
    dsimp only
    omega
  · rw [hOne k hk]
    exact hMemsz
  · rw [hOne k hk] at hLow hHigh
    dsimp only at hLow hHigh
    omega
  · rw [hOne k hk]
    exact show ((0x400000 : Nat) : Int) % 4096 = 0 % 4096 by decide

/-- Without zeros to provide, the program sees its image. -/
theorem loadedImage_exact :
    ImageShown (processMapMemory (paddedMemory 84) 0x02000000
        ⟨.elf 0x01001000 (elfLoad (fun _ => 0) 0x01000000 (paddedAnswers 84)).value.2.2,
          0x01002000, 0⟩).2 0x02000000 (paddedExecutable 84)
      (loadHalf (paddedMemory 84) (0x01000000 + 44)) (phdrs (paddedMemory 84) 0x01000000) := by
  have hPhnum : loadHalf (paddedMemory 84) (0x01000000 + 44) = 1 := by decide +kernel
  have hPheader : (elfPheader (paddedMemory 84) 0x01000000).value = 0x01000034 := by decide +kernel
  have hPhdr : phdrs (paddedMemory 84) 0x01000000 0 = ⟨ptLoad, 0, 0x400000, 84, 84, 5⟩ := by
    decide +kernel
  have hForm := paddedSegment (by decide) (by decide) hPhdr
  have hIff := @loadedImage_iff (paddedMemory 84) 0x01000000 0x02000000 0x01002000 0 _
    (paddedAnswers 84) (fun _ => 0) (by decide +kernel) (paddedTask hPhnum hPheader) 0x01001000
    (by decide +kernel) (by rw [hPhnum]; exact hForm)
  refine hIff.mpr ⟨fun k hk _ i hFrom hi => ?_, fun k hk _ i _ j hkj hj => ?_⟩
  · rw [hPhnum] at hk
    obtain rfl : k = 0 := by omega
    rw [hPhdr] at hFrom hi
    dsimp only at hFrom hi
    omega
  · omega

/-- One byte more than the file has: the program sees what was left behind the
file in the heap, where it should see zero. -/
theorem loadedImage_stale :
    ¬ ∀ (loadMem mem : Memory) (buffer directory stack size elfFile : Nat) (table : Nat → Nat)
      (a : FileAnswers), (elfLoad loadMem buffer a).value.1 = 0 →
      ElfTask mem buffer directory stack table a →
      (processMapMemory mem directory
        ⟨.elf elfFile (elfLoad loadMem buffer a).value.2.2, stack, size⟩).1 = 0 →
      SegmentsWellFormed a.filesize (loadHalf mem (buffer + 44)) (phdrs mem buffer) →
      ImageShown (processMapMemory mem directory
        ⟨.elf elfFile (elfLoad loadMem buffer a).value.2.2, stack, size⟩).2 directory
        a.content (loadHalf mem (buffer + 44)) (phdrs mem buffer) := by
  intro hClaim
  have hPhnum : loadHalf (paddedMemory 85) (0x01000000 + 44) = 1 := by decide +kernel
  have hPheader : (elfPheader (paddedMemory 85) 0x01000000).value = 0x01000034 := by decide +kernel
  have hPhdr : phdrs (paddedMemory 85) 0x01000000 0 = ⟨ptLoad, 0, 0x400000, 84, 85, 5⟩ := by
    decide +kernel
  have hForm := paddedSegment (by decide) (by decide) hPhdr
  have hShown := hClaim (fun _ => 0) (paddedMemory 85) 0x01000000 0x02000000 0x01002000 0 0x01001000
    _ (paddedAnswers 85) (by decide +kernel) (paddedTask hPhnum hPheader) (by decide +kernel)
    (by rw [hPhnum]; exact hForm)
  have hByte := hShown 0 (by rw [hPhnum]; decide) (by rw [hPhdr]) 84 (by rw [hPhdr]; decide)
  rw [hPhdr] at hByte
  exact absurd hByte (by decide +kernel)

end LiebeOS
