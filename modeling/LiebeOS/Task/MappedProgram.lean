import LiebeOS.Task.LoadedImage

/-! What `process_map_memory` does to a page directory, whatever the program headers
say: it changes page tables only, and when it succeeds the stack is mapped. -/
namespace LiebeOS

open MachineInt Bytes

section Elf

variable {mem : Memory} {directory : Nat} {table : Nat → Nat}

theorem mapPhdr_tables (h : PageTables mem directory table) (elfMemory phdr : Nat) :
    (mapPhdr mem directory elfMemory phdr).value.1 ≤ 0 ∧
      TablesOnly table mem (mapPhdr mem directory elfMemory phdr).value.2 := by
  have hVirt : (readPhdr mem phdr).virtPage < 4294967296 :=
    (Phdr.virtPage_aligned (h := readPhdr mem phdr) (loadWord_lt mem _)).2
  refine ⟨?_, h.mapTo_tablesOnly _ _ _ hVirt⟩
  rcases h.maps.phdr elfMemory phdr with ⟨_, hRefused⟩ | ⟨_, hMapped, _⟩
  · omega
  · omega

/-- Whatever is read while the headers are mapped. -/
theorem mapElfLoop_tables (h : PageTables mem directory table) (header pheader left i : Nat)
    {res : Int} (hRes : res ≤ 0) :
    (mapElfLoop directory header pheader left i res mem).value.1 ≤ 0 ∧
      TablesOnly table mem (mapElfLoop directory header pheader left i res mem).value.2 := by
  induction left generalizing i res mem with
  | zero => exact ⟨hRes, TablesOnly.refl table mem⟩
  | succ left ih =>
      rw [mapElfLoop, Fetch.bind_value]
      by_cases hMore : i < (ePhnum mem header).value
      · obtain ⟨hRound, hOnly⟩ := mapPhdr_tables h header (behind pheader (32 * i))
        rw [if_pos hMore, Fetch.bind_value]
        generalize (mapPhdr mem directory header (behind pheader (32 * i))).value = r at hRound hOnly ⊢
        obtain ⟨res', mem'⟩ := r
        dsimp only at hRound hOnly ⊢
        by_cases hStop : res' < 0
        · rw [if_pos hStop]
          exact ⟨hRound, hOnly⟩
        · rw [if_neg hStop]
          obtain ⟨hLoop, hRest⟩ := ih (h.of_tablesOnly hOnly) (i + 1) hRound
          exact ⟨hLoop, hOnly.trans hRest⟩
      · rw [if_neg hMore]
        exact ⟨hRes, TablesOnly.refl table mem⟩

theorem processMapElf_tables (h : PageTables mem directory table) (file : ElfFile) :
    (processMapElf mem directory file).value.1 ≤ 0 ∧
      TablesOnly table mem (processMapElf mem directory file).value.2 := by
  rw [processMapElf, Fetch.bind_value]
  exact mapElfLoop_tables h _ _ 65535 0 (Int.le_refl 0)

end Elf

/-! ### The result code -/

theorem pagingSet_le (mem : Memory) (directory virt val : Nat) :
    (pagingSet mem directory virt val).1 ≤ 0 := by
  have hError : -einvarg ≤ (0 : Int) := by decide
  unfold pagingSet
  dsimp only
  split_ifs
  · exact hError
  · exact hError
  · exact Int.le_refl 0

theorem pagingMapRange_le (directory flags count : Nat) (mem : Memory) (virt phys : Nat) :
    (pagingMapRange directory flags count mem virt phys).1 ≤ 0 := by
  induction count generalizing mem virt phys with
  | zero => exact Int.le_refl 0
  | succ count ih =>
      have hOne : (pagingMap mem directory virt phys flags).1 ≤ 0 := by
        unfold pagingMap
        split_ifs
        · exact show -einvarg ≤ (0 : Int) by decide
        · exact pagingSet_le mem directory virt _
      rw [pagingMapRange]
      dsimp only
      split_ifs
      · exact hOne
      · exact ih _ _ _

theorem pagingMapTo_le (mem : Memory) (directory virt phys physEnd flags : Nat) :
    (pagingMapTo mem directory virt phys physEnd flags).1 ≤ 0 := by
  have hError : -einvarg ≤ (0 : Int) := by decide
  unfold pagingMapTo
  split_ifs
  · exact hError
  · exact hError
  · exact hError
  · exact hError
  · exact pagingMapRange_le directory flags _ mem virt phys

/-! ### The whole program -/

/-- The pages of the stack show the stack. -/
theorem mapStack_in {stack w : Nat} {m : PageMap} (hStack : stack % 4096 = 0)
    (hEnd : stack + 16384 ≤ 4294963200) (hw : w < 4294967296) (hPage : w % 4096 = 0)
    (hIn : InUserStack w) :
    mapStack stack m w =
      (stack + (w - liebeOsProgramVirtualStackAddressEnd)) ||| userFlags true := by
  have hStackEnd : pagingAlignAddress (behind stack liebeOsUserProgramStackSize) = stack + 16384 := by
    unfold liebeOsUserProgramStackSize
    rw [behind_of_lt (by omega), pagingAlignAddress_eq (by omega)]
    omega
  rw [InUserStack.iff] at hIn
  have hOffset : offsetFrom liebeOsProgramVirtualStackAddressEnd w =
      w - liebeOsProgramVirtualStackAddressEnd := by
    unfold offsetFrom toWord liebeOsProgramVirtualStackAddressEnd liebeOsUserProgramStackSize
    omega
  have hNear : w - liebeOsProgramVirtualStackAddressEnd < 16384 := by
    unfold liebeOsProgramVirtualStackAddressEnd liebeOsUserProgramStackSize
    omega
  unfold mapStack
  rw [hStackEnd, if_neg (by omega), mapRange_eq m (by omega) (by decide) (by decide) (by omega) hw
    hPage, hOffset, if_pos (by omega), behind_of_lt (by omega)]

section Program

variable {mem : Memory} {directory : Nat} {table : Nat → Nat} {p : Program}

/-- The part of the program that is mapped before the stack. -/
def mapData (mem : Memory) (directory : Nat) (p : Program) : Int × Memory :=
  match p.data with
  | .elf _ file => (processMapElf mem directory file).value
  | .binary ptr => processMapBinary mem directory ptr p.size

theorem mapData_tables (h : PageTables mem directory table) (p : Program) :
    (mapData mem directory p).1 ≤ 0 ∧ TablesOnly table mem (mapData mem directory p).2 := by
  unfold mapData
  cases p.data with
  | elf elfFile file => exact processMapElf_tables h file
  | binary ptr =>
      exact ⟨pagingMapTo_le _ _ _ _ _ _, h.mapTo_tablesOnly _ _ _ (by decide)⟩

theorem processMapMemory_eq (mem : Memory) (directory : Nat) (p : Program) :
    processMapMemory mem directory p =
      if (mapData mem directory p).1 < 0 then mapData mem directory p
      else ((mapData mem directory p).1,
        (pagingMapTo (mapData mem directory p).2 directory liebeOsProgramVirtualStackAddressEnd
          p.stack (pagingAlignAddress (behind p.stack liebeOsUserProgramStackSize))
          (userFlags true)).2) := rfl

/-- Page tables are all that changes. -/
theorem processMapMemory_tables (h : PageTables mem directory table) (p : Program) :
    (processMapMemory mem directory p).1 ≤ 0 ∧
      TablesOnly table mem (processMapMemory mem directory p).2 := by
  obtain ⟨hRes, hData⟩ := mapData_tables h p
  rw [processMapMemory_eq]
  split_ifs
  · exact ⟨hRes, hData⟩
  · exact ⟨hRes, hData.trans ((h.of_tablesOnly hData).mapTo_tablesOnly _ _ _ (by decide))⟩

/-- On success the stack is mapped over what the program is mapped to. -/
theorem processMapMemory_maps (h : PageTables mem directory table) (hStack : p.stack % 4096 = 0)
    (hStackLt : p.stack < 4294967296) (hDone : 0 ≤ (processMapMemory mem directory p).1) :
    (mapData mem directory p).1 = 0 ∧
      Maps (processMapMemory mem directory p).2 directory table
        (mapStack p.stack (pagingGet (mapData mem directory p).2 directory)) := by
  obtain ⟨hRes, hData⟩ := mapData_tables h p
  rw [processMapMemory_eq] at hDone ⊢
  by_cases hFail : (mapData mem directory p).1 < 0
  · rw [if_pos hFail] at hDone
    omega
  · rw [if_neg hFail]
    exact ⟨by omega, ((h.of_tablesOnly hData).maps.stack hStack hStackLt).1⟩

end Program

/-- An ELF file can be mapped when none of its headers is refused. -/
theorem ElfTask.accepted {mem : Memory} {buffer directory stack size : Nat} {table : Nat → Nat}
    {a : FileAnswers} {file : ElfFile} (h : ElfTask mem buffer directory stack table a)
    (hFile : file.elfMemory = buffer) (elfFile : Nat)
    (hAll : ∀ k < loadHalf mem (buffer + 44), ¬ (phdrs mem buffer k).Refused buffer) :
    (processMapMemory mem directory ⟨.elf elfFile file, stack, size⟩).1 = 0 := by
  subst hFile
  have hRes := (processMapElf_tables h.tables file).1
  have hZero : ¬ (processMapElf mem directory file).value.1 < 0 := fun hFail => by
    rcases processMapElf_turns h.tables h.headers.header with ⟨_, k, hk, hRefused⟩ | ⟨_, _, _, hDone⟩
    · rw [h.headers.turnPhdr h.tables hk] at hRefused
      exact hAll k hk hRefused
    · omega
  rw [processMapMemory_elf, if_neg hZero]
  exact Int.le_antisymm hRes (Int.not_lt.mp hZero)

end LiebeOS
