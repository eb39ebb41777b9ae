import LiebeOS.Loader.ElfBounds
import LiebeOS.Memory.PageDirectory

/-! What `process_map_elf` does to a page directory, as a change of the page
map alone: each program header contributes one range of pages, and the last
header that covers a page decides what is seen there. -/
namespace LiebeOS

open MachineInt Bytes

/-- The fields of `struct elf32_phdr` that the loader uses. -/
structure Phdr where
  type : Nat
  offset : Int
  vaddr : Nat
  filesz : Nat
  memsz : Nat
  flags : Nat
  deriving DecidableEq

def readPhdr (mem : Memory) (phdr : Nat) : Phdr where
  type := loadWord mem phdr
  offset := signed (loadWord mem (phdr + 4))
  vaddr := loadWord mem (phdr + 8)
  filesz := loadWord mem (phdr + 16)
  memsz := loadWord mem (phdr + 20)
  flags := loadWord mem (phdr + 24)

/-- The program headers in memory, by index. -/
def phdrs (mem : Memory) (buffer : Nat) (k : Nat) : Phdr :=
  readPhdr mem (behind (elfPheader mem buffer).value (32 * k))

section Segment

variable (buffer : Nat) (h : Phdr)

/-- Where the segment lies in memory: `elf_phdr_phys_address`. -/
def Phdr.start : Nat := toWord (buffer + h.offset)

def Phdr.firstPage : Nat := pagingAlignToLowerPage (h.start buffer)

def Phdr.endPage : Nat := pagingAlignAddress (behind (h.start buffer) h.memsz)

/-- The number of pages that are mapped for the header. -/
def Phdr.pages : Nat := (h.endPage buffer - h.firstPage buffer) / 4096

def Phdr.virtPage : Nat := pagingAlignToLowerPage h.vaddr

def Phdr.pageFlags : Nat := userFlags (h.flags &&& pfW != 0)

/-- The range is refused: its end wraps to an address in front of its start. -/
def Phdr.Refused : Prop := h.endPage buffer < h.firstPage buffer

/-- The header maps the virtual page `w`. -/
def Phdr.Covers (w : Nat) : Prop := offsetFrom h.virtPage w < 4096 * h.pages buffer

def Phdr.map (m : PageMap) : PageMap :=
  mapRange h.pageFlags (h.pages buffer) m h.virtPage (h.firstPage buffer)

end Segment

/-- Memory when it is the turn of header `k`: the headers in front of it are
mapped. -/
def turnMemory (mem : Memory) (directory buffer : Nat) : Nat → Memory
  | 0 => mem
  | k + 1 =>
      (mapPhdr (turnMemory mem directory buffer k) directory buffer
        (behind (elfPheader mem buffer).value (32 * k))).value.2

/-- Header `k` as it is read when it is mapped. -/
def turnPhdr (mem : Memory) (directory buffer k : Nat) : Phdr :=
  readPhdr (turnMemory mem directory buffer k) (behind (elfPheader mem buffer).value (32 * k))

/-- The map once the first `n` headers are mapped. -/
def mapSegments (buffer : Nat) (headers : Nat → Phdr) : Nat → PageMap → PageMap
  | 0, m => m
  | n + 1, m => (headers n).map buffer (mapSegments buffer headers n m)

/-! ### One header -/

theorem Phdr.firstPage_aligned (buffer : Nat) (h : Phdr) :
    h.firstPage buffer % 4096 = 0 ∧ h.firstPage buffer < 4294967296 := by
  have hStart : h.start buffer < 4294967296 := toWord_lt _
  unfold firstPage
  rw [pagingAlignToLowerPage_eq]
  omega

theorem Phdr.virtPage_aligned {h : Phdr} (hVaddr : h.vaddr < 4294967296) :
    h.virtPage % 4096 = 0 ∧ h.virtPage < 4294967296 := by
  unfold virtPage
  rw [pagingAlignToLowerPage_eq]
  omega

theorem Phdr.endPage_lt (buffer : Nat) (h : Phdr) : h.endPage buffer < 4294967296 := by
  have hEnd := behind_lt (h.start buffer) h.memsz
  unfold endPage pagingAlignAddress pageSize
  split
  · exact behind_lt _ _
  · exact hEnd

theorem Phdr.pages_le (buffer : Nat) (h : Phdr) : h.pages buffer ≤ 1048576 := by
  have hEnd := h.endPage_lt buffer
  unfold pages
  omega

/-- A header decides about the pages that it covers. -/
theorem Phdr.map_eq {buffer : Nat} {h : Phdr} (hVaddr : h.vaddr < 4294967296) (m : PageMap)
    {w : Nat} (hw : w < 4294967296) (hAligned : w % 4096 = 0) :
    (h.Covers buffer w →
      h.map buffer m w = behind (h.firstPage buffer) (offsetFrom h.virtPage w) ||| h.pageFlags) ∧
    (¬ h.Covers buffer w → h.map buffer m w = m w) := by
  obtain ⟨hVirt, hVirtLt⟩ := virtPage_aligned hVaddr
  have hPhysLt := (h.firstPage_aligned buffer).2
  unfold map Covers
  rw [mapRange_eq m (h.pages_le buffer) hVirt hVirtLt hPhysLt hw hAligned]
  exact ⟨fun hIn => if_pos hIn, fun hOut => if_neg hOut⟩

/-- The last header that covers a page decides. -/
theorem mapSegments_last {buffer : Nat} {headers : Nat → Phdr} {m : PageMap} {n k w : Nat}
    (hVaddr : ∀ j, (headers j).vaddr < 4294967296) (hw : w < 4294967296) (hAligned : w % 4096 = 0)
    (hk : k < n) (hCovers : (headers k).Covers buffer w)
    (hLast : ∀ j, k < j → j < n → ¬ (headers j).Covers buffer w) :
    mapSegments buffer headers n m w =
      behind ((headers k).firstPage buffer) (offsetFrom (headers k).virtPage w) |||
        (headers k).pageFlags := by
  induction n with
  | zero => omega
  | succ n ih =>
      obtain ⟨hIn, hOut⟩ :=
        Phdr.map_eq (hVaddr n) (mapSegments buffer headers n m) hw hAligned
      rw [mapSegments]
      by_cases hSame : k = n
      · rw [hSame] at hCovers ⊢
        exact hIn hCovers
      · rw [hOut (hLast n (by omega) (by omega))]
        exact ih (by omega) fun j hj hjn => hLast j hj (by omega)

/-! ### The loop -/

/-- The page tables lie neither in the first page of the buffer nor in the
program header table, so mapping a segment does not change a header. -/
structure HeadersApart (mem : Memory) (buffer : Nat) (table : Nat → Nat) : Prop where
  header : ∀ i < 52, ¬ InTables table (behind buffer i)
  table : ∀ k < loadHalf mem (buffer + 44), ∀ i < 32,
    ¬ InTables table (behind (elfPheader mem buffer).value (32 * k + i))

section Loop

variable {mem mem' : Memory} {directory buffer : Nat} {table : Nat → Nat} {m : PageMap}

theorem TablesOnly.phnum (hOnly : TablesOnly table mem mem')
    (hHeader : ∀ i < 52, ¬ InTables table (behind buffer i)) :
    loadHalf mem' (buffer + 44) = loadHalf mem (buffer + 44) :=
  loadHalf_congr fun i hi => by
    rw [behind_add]
    exact hOnly _ (behind_lt _ _) (hHeader (44 + i) (by omega))

theorem HeadersApart.phdr (h : HeadersApart mem buffer table) (hOnly : TablesOnly table mem mem')
    {k : Nat} (hk : k < loadHalf mem (buffer + 44)) :
    readPhdr mem' (behind (elfPheader mem buffer).value (32 * k)) = phdrs mem buffer k := by
  have hWord : ∀ f, f + 4 ≤ 32 →
      loadWord mem' (behind (elfPheader mem buffer).value (32 * k) + f) =
        loadWord mem (behind (elfPheader mem buffer).value (32 * k) + f) := fun f hf =>
    loadWord_congr fun i hi => by
      rw [behind_add, behind_behind]
      exact hOnly _ (behind_lt _ _) (h.table k hk (f + i) (by omega))
  have hType := hWord 0 (by decide)
  rw [Nat.add_zero] at hType
  rw [phdrs, readPhdr, readPhdr, hType, hWord 4 (by decide), hWord 8 (by decide),
    hWord 16 (by decide), hWord 20 (by decide), hWord 24 (by decide)]

/-- One round: a header is refused, or its range becomes part of the map. -/
theorem Maps.phdr (hMaps : Maps mem directory table m) (buffer phdr : Nat) :
    ((readPhdr mem phdr).Refused buffer ∧ (mapPhdr mem directory buffer phdr).value.1 < 0) ∨
      (¬ (readPhdr mem phdr).Refused buffer ∧ (mapPhdr mem directory buffer phdr).value.1 = 0 ∧
        Maps (mapPhdr mem directory buffer phdr).value.2 directory table
          ((readPhdr mem phdr).map buffer m) ∧
        TablesOnly table mem (mapPhdr mem directory buffer phdr).value.2) := by
  obtain ⟨hVirt, hVirtLt⟩ : (readPhdr mem phdr).virtPage % 4096 = 0 ∧
      (readPhdr mem phdr).virtPage < 4294967296 := Phdr.virtPage_aligned (loadWord_lt mem _)
  obtain ⟨hPhys, hPhysLt⟩ := (readPhdr mem phdr).firstPage_aligned buffer
  have hEnd : (readPhdr mem phdr).endPage buffer % 4096 = 0 := pagingAlignAddress_aligned _
  have hFlags : (readPhdr mem phdr).pageFlags < 4096 := userFlags_lt _
  have hValue : (mapPhdr mem directory buffer phdr).value =
      pagingMapTo mem directory (readPhdr mem phdr).virtPage ((readPhdr mem phdr).firstPage buffer)
        ((readPhdr mem phdr).endPage buffer) (readPhdr mem phdr).pageFlags := rfl
  rcases hMaps.mapTo hFlags hVirt hVirtLt hPhys hPhysLt hEnd with
    ⟨hOrder, hRefused⟩ | ⟨hOrder, mem', hMapped, hMaps', hOnly⟩
  · rw [hValue, hRefused]
    exact Or.inl ⟨hOrder, show -einvarg < 0 by decide⟩
  · rw [hValue, hMapped]
    exact Or.inr ⟨Nat.not_lt.mpr hOrder, rfl, hMaps', hOnly⟩

/-- Mapping headers changes page tables and nothing else. -/
theorem PageTables.turnMemory_only (h : PageTables mem directory table) (buffer k : Nat) :
    TablesOnly table mem (turnMemory mem directory buffer k) := by
  induction k with
  | zero => exact TablesOnly.refl table mem
  | succ k ih =>
      refine ih.trans ((h.of_tablesOnly ih).mapTo_tablesOnly _ _ _ ?_)
      exact (Phdr.virtPage_aligned (h := turnPhdr mem directory buffer k) (loadWord_lt _ _)).2

/-- Headers that no page table is laid over are read as they were. -/
theorem HeadersApart.turnPhdr (h : HeadersApart mem buffer table)
    (hTables : PageTables mem directory table) {k : Nat} (hk : k < loadHalf mem (buffer + 44)) :
    turnPhdr mem directory buffer k = phdrs mem buffer k :=
  h.phdr (hTables.turnMemory_only buffer k) hk

theorem mapSegments_congr {headers headers' : Nat → Phdr} {n : Nat}
    (h : ∀ k < n, headers k = headers' k) (m : PageMap) :
    mapSegments buffer headers n m = mapSegments buffer headers' n m := by
  induction n with
  | zero => rfl
  | succ n ih => rw [mapSegments, mapSegments, h n (Nat.lt_succ_self n), ih fun k hk => h k (by omega)]

/-- The headers that are still to be mapped: one of them is refused and the
loop stops with an error, or all of them become part of the map. -/
theorem mapElfLoop_turns (hTables : PageTables mem directory table)
    (hHeader : ∀ i < 52, ¬ InTables table (behind buffer i)) (left i : Nat) (res : Int)
    (hRes : 0 ≤ res) (hi : i ≤ loadHalf mem (buffer + 44))
    (hLeft : loadHalf mem (buffer + 44) ≤ i + left)
    (hMaps : Maps (turnMemory mem directory buffer i) directory table
      (mapSegments buffer (turnPhdr mem directory buffer) i m)) :
    ((mapElfLoop directory buffer (elfPheader mem buffer).value left i res
        (turnMemory mem directory buffer i)).value.1 < 0 ∧
      ∃ k < loadHalf mem (buffer + 44), (turnPhdr mem directory buffer k).Refused buffer) ∨
      (Maps (mapElfLoop directory buffer (elfPheader mem buffer).value left i res
            (turnMemory mem directory buffer i)).value.2 directory table
          (mapSegments buffer (turnPhdr mem directory buffer) (loadHalf mem (buffer + 44)) m) ∧
        TablesOnly table mem (mapElfLoop directory buffer (elfPheader mem buffer).value left i res
          (turnMemory mem directory buffer i)).value.2 ∧
        (∀ k, i ≤ k → k < loadHalf mem (buffer + 44) →
          ¬ (turnPhdr mem directory buffer k).Refused buffer) ∧
        0 ≤ (mapElfLoop directory buffer (elfPheader mem buffer).value left i res
          (turnMemory mem directory buffer i)).value.1) := by
  induction left generalizing i res with
  | zero =>
      obtain rfl : i = loadHalf mem (buffer + 44) := by omega
      exact Or.inr ⟨hMaps, hTables.turnMemory_only buffer _, fun k hk hkn => by omega, hRes⟩
  | succ left ih =>
      have hPhnum : (ePhnum (turnMemory mem directory buffer i) buffer).value =
          loadHalf mem (buffer + 44) := (hTables.turnMemory_only buffer i).phnum hHeader
      rw [mapElfLoop, Fetch.bind_value, hPhnum]
      by_cases hMore : i < loadHalf mem (buffer + 44)
      · have hRound := hMaps.phdr buffer (behind (elfPheader mem buffer).value (32 * i))
        have hNext : (mapPhdr (turnMemory mem directory buffer i) directory buffer
            (behind (elfPheader mem buffer).value (32 * i))).value.2 =
              turnMemory mem directory buffer (i + 1) := rfl
        rw [if_pos hMore, Fetch.bind_value]
        generalize (mapPhdr (turnMemory mem directory buffer i) directory buffer
          (behind (elfPheader mem buffer).value (32 * i))).value = r at hRound hNext ⊢
        obtain ⟨res', cur'⟩ := r
        dsimp only at hRound hNext ⊢
        subst hNext
        rcases hRound with ⟨hRefused, hNegative⟩ | ⟨hAccepted, hZero, hMaps', _⟩
        · rw [if_pos hNegative]
          exact Or.inl ⟨hNegative, i, hMore, hRefused⟩
        · rw [if_neg (by omega)]
          rcases ih (i + 1) res' (by omega) (by omega) (by omega) hMaps' with
            hFail | ⟨hDone, hOnly, hRest, hEnd⟩
          · exact Or.inl hFail
          · refine Or.inr ⟨hDone, hOnly, fun k hk hkn => ?_, hEnd⟩
            by_cases hSame : k = i
            · rw [hSame]
              exact hAccepted
            · exact hRest k (by omega) hkn
      · obtain rfl : i = loadHalf mem (buffer + 44) := by omega
        rw [if_neg hMore]
        exact Or.inr ⟨hMaps, hTables.turnMemory_only buffer _, fun k hk hkn => by omega, hRes⟩

/-- `process_map_elf` refuses a header and fails, or every header has become part of the
map. -/
theorem processMapElf_turns (hTables : PageTables mem directory table) {file : ElfFile}
    (hHeader : ∀ i < 52, ¬ InTables table (behind file.elfMemory i)) :
    ((processMapElf mem directory file).value.1 < 0 ∧ ∃ k < loadHalf mem (file.elfMemory + 44),
        (turnPhdr mem directory file.elfMemory k).Refused file.elfMemory) ∨
      (Maps (processMapElf mem directory file).value.2 directory table
          (mapSegments file.elfMemory (turnPhdr mem directory file.elfMemory)
            (loadHalf mem (file.elfMemory + 44)) (pagingGet mem directory)) ∧
        TablesOnly table mem (processMapElf mem directory file).value.2 ∧
        (∀ k < loadHalf mem (file.elfMemory + 44),
          ¬ (turnPhdr mem directory file.elfMemory k).Refused file.elfMemory) ∧
        0 ≤ (processMapElf mem directory file).value.1) := by
  have hPhnum := loadHalf_lt mem (file.elfMemory + 44)
  rw [processMapElf, Fetch.bind_value]
  refine (mapElfLoop_turns hTables hHeader 65535 0 0 (Int.le_refl 0) (Nat.zero_le _) (by omega)
    hTables.maps).imp id fun hTurns => ?_
  obtain ⟨hMaps, hOnly, hAll, hRes⟩ := hTurns
  exact ⟨hMaps, hOnly, fun k hk => hAll k (Nat.zero_le k) hk, hRes⟩

end Loop

end LiebeOS
