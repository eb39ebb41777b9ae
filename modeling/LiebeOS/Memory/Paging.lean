import LiebeOS.Status
import LiebeOS.Lib.Words

/-! The page directories of `paging.c`: a directory of 1024 words that point to
page tables of 1024 words each. Both live in the memory that they map. -/
namespace LiebeOS

open MachineInt Bytes

def tableEntriesCount : Nat := 1024
def pageSize : Nat := 4096

def pagingIsPresent : Nat := 1
def pagingIsWriteable : Nat := 2
def pagingAccessFromAll : Nat := 4

structure PageLocation where
  directoryIndex : Int
  tableIndex : Int

def isPageAligned (addr : Nat) : Bool := addr % pageSize == 0

def getPageIndexs (virtAddr : Nat) : PageLocation :=
  if !isPageAligned virtAddr then ⟨-1, -1⟩
  else
    { directoryIndex := (virtAddr / (tableEntriesCount * pageSize) : Nat)
      tableIndex := (virtAddr % (tableEntriesCount * pageSize) / pageSize : Nat) }

/-- `entry & 0xfffff000` -/
def entryAddress (entry : Nat) : Nat := entry &&& 0xfffff000

def pagingSet (mem : Memory) (directory virt val : Nat) : Int × Memory :=
  if !isPageAligned virt then (-einvarg, mem)
  else
    let location := getPageIndexs virt
    if location.tableIndex = -1 ∨ location.directoryIndex = -1 then (-einvarg, mem)
    else
      let entry := loadWord mem (directory + 4 * location.directoryIndex.toNat)
      let table := entryAddress entry
      (0, storeWord mem (table + 4 * location.tableIndex.toNat) val)

/-- Rounds up to a page boundary; the last page wraps to address 0. -/
def pagingAlignAddress (ptr : Nat) : Nat :=
  if ptr % pageSize ≠ 0 then behind ptr (pageSize - ptr % pageSize) else ptr

def pagingMap (mem : Memory) (directory virt phys flags : Nat) : Int × Memory :=
  if virt % pageSize ≠ 0 ∨ phys % pageSize ≠ 0 then (-einvarg, mem)
  else pagingSet mem directory virt (phys ||| flags)

/-- The loop of `paging_map_range` with the number of pages still to map. -/
def pagingMapRange (directory flags : Nat) : Nat → Memory → Nat → Nat → Int × Memory
  | 0, mem, _, _ => (0, mem)
  | count + 1, mem, virt, phys =>
      let (res, mem) := pagingMap mem directory virt phys flags
      if res < 0 then (res, mem)
      else pagingMapRange directory flags count mem (behind virt pageSize) (behind phys pageSize)

def pagingMapTo (mem : Memory) (directory virt phys physEnd flags : Nat) : Int × Memory :=
  if virt % pageSize ≠ 0 then (-einvarg, mem)
  else if phys % pageSize ≠ 0 then (-einvarg, mem)
  else if physEnd % pageSize ≠ 0 then (-einvarg, mem)
  else if physEnd < phys then (-einvarg, mem)
  else
    let totalBytes := physEnd - phys
    let totalPages := totalBytes / pageSize
    pagingMapRange directory flags totalPages mem virt phys

/-- The entry for `virt`. Off a page boundary the indices are those of the
failed lookup, as unsigned numbers. -/
def pagingGet (mem : Memory) (directory virt : Nat) : Nat :=
  let location := getPageIndexs virt
  let directoryIndex := toWord location.directoryIndex
  let tableIndex := toWord location.tableIndex
  let entry := loadWord mem (directory + 4 * directoryIndex)
  loadWord mem (entryAddress entry + 4 * tableIndex)

def pagingAlignToLowerPage (addr : Nat) : Nat := addr - addr % pageSize

def pagingGetPhysicalAddress (mem : Memory) (directory virt : Nat) : Nat :=
  let virtAddrNew := pagingAlignToLowerPage virt
  let diff := virt - virtAddrNew
  behind (entryAddress (pagingGet mem directory virtAddrNew)) diff

/-! ### Entries and rounding -/

theorem entryAddress_eq {entry : Nat} (h : entry < 4294967296) :
    entryAddress entry = entry / 4096 * 4096 := by
  have hMask : (0xfffff000 : Nat) = (2 ^ 20 - 1) <<< 12 := rfl
  have hShift : entry &&& (2 ^ 20 - 1) <<< 12 = ((entry >>> 12) &&& (2 ^ 20 - 1)) <<< 12 := by
    apply Nat.eq_of_testBit_eq
    intro i
    simp only [Nat.testBit_and, Nat.testBit_shiftLeft, Nat.testBit_shiftRight]
    by_cases hi : 12 ≤ i
    · simp [hi]
    · simp [hi]
  rw [entryAddress, hMask, hShift, Nat.and_two_pow_sub_one_eq_mod, Nat.shiftLeft_eq,
    Nat.shiftRight_eq_div_pow]
  omega

/-- The flags of an entry occupy the bits below the page address. -/
theorem or_flags {phys flags : Nat} (hPhys : phys % 4096 = 0) (hFlags : flags < 4096) :
    phys ||| flags = phys + flags := by
  have hOr := Nat.two_pow_add_eq_or_of_lt (i := 12) hFlags (phys / 4096)
  have hPage : 2 ^ 12 * (phys / 4096) = phys := by omega
  rw [hPage] at hOr
  exact hOr.symm

theorem entryAddress_or_flags {phys flags : Nat} (hPhys : phys % 4096 = 0)
    (hLt : phys < 4294967296) (hFlags : flags < 4096) : entryAddress (phys ||| flags) = phys := by
  rw [or_flags hPhys hFlags, entryAddress_eq (by omega)]
  omega

theorem pagingAlignToLowerPage_eq (addr : Nat) :
    pagingAlignToLowerPage addr = addr / 4096 * 4096 := by
  unfold pagingAlignToLowerPage pageSize
  omega

theorem pagingAlignToLowerPage_aligned (addr : Nat) : pagingAlignToLowerPage addr % 4096 = 0 := by
  rw [pagingAlignToLowerPage_eq]
  omega

theorem pagingAlignToLowerPage_le (addr : Nat) : pagingAlignToLowerPage addr ≤ addr :=
  Nat.sub_le _ _

/-- Rounding up, as long as the result is not past the last address. -/
theorem pagingAlignAddress_eq {ptr : Nat} (h : ptr ≤ 4294963200) :
    pagingAlignAddress ptr = (ptr + 4095) / 4096 * 4096 := by
  unfold pagingAlignAddress pageSize behind
  split <;> omega

/-- In the last page, rounding up wraps to the null pointer. -/
theorem pagingAlignAddress_wraps {ptr : Nat} (h : 4294963200 < ptr) (hLt : ptr < 4294967296) :
    pagingAlignAddress ptr = 0 := by
  unfold pagingAlignAddress pageSize behind
  rw [if_pos (by omega)]
  omega

theorem pagingAlignAddress_aligned (ptr : Nat) : pagingAlignAddress ptr % 4096 = 0 := by
  unfold pagingAlignAddress pageSize behind
  split <;> omega

/-! ### What a directory maps -/

/-- Entries by the address of the virtual page. -/
abbrev PageMap := Nat → Nat

/-- The page tables that a directory points to: 1024 pages, distinct from each
other and from the page of the directory. -/
structure PageTables (mem : Memory) (directory : Nat) (table : Nat → Nat) : Prop where
  aligned : directory % 4096 = 0
  lt : directory < 4294967296
  entry : ∀ d < 1024, entryAddress (loadWord mem (directory + 4 * d)) = table d
  apart : ∀ d < 1024, table d ≠ directory
  distinct : ∀ d < 1024, ∀ e < 1024, table d = table e → d = e

/-- Address `x` lies in one of the page tables. -/
def InTables (table : Nat → Nat) (x : Nat) : Prop := ∃ d < 1024, x / 4096 * 4096 = table d

/-- Nothing but page tables differs. -/
def TablesOnly (table : Nat → Nat) (mem mem' : Memory) : Prop :=
  ∀ x < 4294967296, ¬ InTables table x → mem' x = mem x

/-- In `mem` the directory maps each virtual page as `m` says. -/
structure Maps (mem : Memory) (directory : Nat) (table : Nat → Nat) (m : PageMap) : Prop extends
    PageTables mem directory table where
  entries : ∀ v < 4294967296, v % 4096 = 0 → pagingGet mem directory v = m v

theorem TablesOnly.refl (table : Nat → Nat) (mem : Memory) : TablesOnly table mem mem :=
  fun _ _ _ => rfl

theorem TablesOnly.trans {table : Nat → Nat} {mem mid fin : Memory}
    (hFirst : TablesOnly table mem mid) (hSecond : TablesOnly table mid fin) :
    TablesOnly table mem fin :=
  fun x hx hOut => (hSecond x hx hOut).trans (hFirst x hx hOut)

section Tables

variable {mem mem' : Memory} {directory : Nat} {table : Nat → Nat} {m : PageMap}

theorem PageTables.table_page (h : PageTables mem directory table) {d : Nat} (hd : d < 1024) :
    table d % 4096 = 0 ∧ table d < 4294967296 := by
  have hWord := loadWord_lt mem (directory + 4 * d)
  rw [← h.entry d hd, entryAddress_eq hWord]
  omega

/-- The page of the directory itself belongs to no table. -/
theorem PageTables.directory_apart (h : PageTables mem directory table) {x : Nat}
    (hLow : directory ≤ x) (hHigh : x < directory + 4096) : ¬ InTables table x := by
  rintro ⟨d, hd, hPage⟩
  have hAligned := h.aligned
  exact h.apart d hd (by omega)

/-- Where the entry of a virtual page is kept. -/
def entryPointer (table : Nat → Nat) (virt : Nat) : Nat :=
  table (virt / 4194304) + 4 * (virt % 4194304 / 4096)

theorem getPageIndexs_aligned {virt : Nat} (hAligned : virt % 4096 = 0) :
    getPageIndexs virt = ⟨(virt / 4194304 : Nat), (virt % 4194304 / 4096 : Nat)⟩ := by
  have hPage : isPageAligned virt = true := by simp [isPageAligned, pageSize, hAligned]
  rw [getPageIndexs, hPage]
  rfl

theorem PageTables.get (h : PageTables mem directory table) {virt : Nat}
    (hVirt : virt < 4294967296) (hAligned : virt % 4096 = 0) :
    pagingGet mem directory virt = loadWord mem (entryPointer table virt) := by
  have hDirectory : toWord ((virt / 4194304 : Nat) : Int) = virt / 4194304 := by
    unfold toWord
    omega
  have hTable : toWord ((virt % 4194304 / 4096 : Nat) : Int) = virt % 4194304 / 4096 := by
    unfold toWord
    omega
  have hEntry := h.entry (virt / 4194304) (by omega)
  rw [pagingGet]
  simp only [getPageIndexs_aligned hAligned, hDirectory, hTable, hEntry, entryPointer]

theorem PageTables.set (h : PageTables mem directory table) {virt : Nat} (val : Nat)
    (hVirt : virt < 4294967296) (hAligned : virt % 4096 = 0) :
    pagingSet mem directory virt val = (0, storeWord mem (entryPointer table virt) val) := by
  have hPage : isPageAligned virt = true := by simp [isPageAligned, pageSize, hAligned]
  have hEntry := h.entry (virt / 4194304) (by omega)
  have hIndices : ¬ (((virt % 4194304 / 4096 : Nat) : Int) = -1 ∨
      ((virt / 4194304 : Nat) : Int) = -1) := by omega
  rw [pagingSet]
  simp only [hPage, getPageIndexs_aligned hAligned, hIndices, Int.toNat_natCast, hEntry,
    entryPointer, Bool.not_true, Bool.false_eq_true, if_false]

/-- Different virtual pages have their entries in different words. -/
theorem PageTables.entryPointer_apart (h : PageTables mem directory table) {v w : Nat}
    (hv : v < 4294967296) (hw : w < 4294967296) (hvAligned : v % 4096 = 0)
    (hwAligned : w % 4096 = 0) (hne : v ≠ w) {i : Nat} (hi : i < 4) :
    4 ≤ offsetFrom (entryPointer table v) (behind (entryPointer table w) i) := by
  have hv' := h.table_page (show v / 4194304 < 1024 by omega)
  have hw' := h.table_page (show w / 4194304 < 1024 by omega)
  have hTables : table (v / 4194304) = table (w / 4194304) →
      v / 4194304 = w / 4194304 := h.distinct _ (by omega) _ (by omega)
  unfold entryPointer offsetFrom toWord behind
  by_cases hSame : table (v / 4194304) = table (w / 4194304)
  · have hDirectory := hTables hSame
    rw [hSame]
    omega
  · omega

theorem PageTables.entryPointer_inTables (h : PageTables mem directory table) {v x : Nat}
    (hv : v < 4294967296) (hx : x < 4294967296) (hOffset : offsetFrom (entryPointer table v) x < 4) :
    InTables table x := by
  have hPage := h.table_page (show v / 4194304 < 1024 by omega)
  refine ⟨v / 4194304, by omega, ?_⟩
  unfold entryPointer offsetFrom toWord at hOffset
  omega

/-- The pointers of a directory are read from its own page. -/
theorem PageTables.pointer (h : PageTables mem directory table)
    (hSame : ∀ x < 4294967296, x / 4096 * 4096 = directory → mem' x = mem x) {d : Nat}
    (hd : d < 1024) : loadWord mem' (directory + 4 * d) = loadWord mem (directory + 4 * d) := by
  have hAligned := h.aligned
  have hLt := h.lt
  refine loadWord_congr fun i hi => ?_
  rw [behind_of_lt (by omega)]
  exact hSame _ (by omega) (by omega)

theorem PageTables.congr (h : PageTables mem directory table)
    (hSame : ∀ x < 4294967296, x / 4096 * 4096 = directory → mem' x = mem x) :
    PageTables mem' directory table where
  aligned := h.aligned
  lt := h.lt
  entry d hd := by
    rw [h.pointer hSame hd]
    exact h.entry d hd
  apart := h.apart
  distinct := h.distinct

theorem PageTables.directory_same (h : PageTables mem directory table)
    (hOnly : TablesOnly table mem mem') {x : Nat} (hx : x < 4294967296)
    (hPage : x / 4096 * 4096 = directory) : mem' x = mem x :=
  hOnly x hx (h.directory_apart (by omega) (by omega))

/-- A change of page tables alone keeps the directory's pointers. -/
theorem PageTables.of_tablesOnly (h : PageTables mem directory table)
    (hOnly : TablesOnly table mem mem') : PageTables mem' directory table :=
  h.congr fun _ hx hPage => h.directory_same hOnly hx hPage

/-- What the directory maps, as a map. -/
theorem PageTables.maps (h : PageTables mem directory table) :
    Maps mem directory table (pagingGet mem directory) :=
  { toPageTables := h, entries := fun _ _ _ => rfl }

/-- Storing an entry replaces that entry of the map and nothing else. -/
theorem Maps.set (h : Maps mem directory table m) {virt val : Nat} (hVirt : virt < 4294967296)
    (hAligned : virt % 4096 = 0) (hVal : val < 4294967296) :
    ∃ mem', pagingSet mem directory virt val = (0, mem') ∧
      Maps mem' directory table (Function.update m virt val) ∧ TablesOnly table mem mem' := by
  have hOnly : TablesOnly table mem (storeWord mem (entryPointer table virt) val) := by
    intro x hx hOut
    apply storeRange_outside
    by_contra hInside
    exact hOut (h.entryPointer_inTables hVirt hx (by omega))
  have hTables := h.toPageTables.of_tablesOnly hOnly
  refine ⟨_, h.toPageTables.set val hVirt hAligned, { toPageTables := hTables, entries := ?_ }, hOnly⟩
  intro v hv hvAligned
  rw [hTables.get hv hvAligned]
  by_cases hSame : v = virt
  · rw [hSame, Function.update_self]
    exact loadWord_storeWord hVal
  · rw [Function.update_of_ne hSame, ← h.entries v hv hvAligned, h.get hv hvAligned]
    exact loadWord_storeRange_apart fun i hi =>
      h.entryPointer_apart hVirt hv hAligned hvAligned (Ne.symm hSame) hi

end Tables

/-! ### Ranges of pages -/

/-- The map after `count` pages from `virt` on are mapped to pages from
`phys` on. -/
def mapRange (flags : Nat) : Nat → PageMap → Nat → Nat → PageMap
  | 0, m, _, _ => m
  | count + 1, m, virt, phys =>
      mapRange flags count (Function.update m virt (phys ||| flags)) (behind virt pageSize)
        (behind phys pageSize)

/-- `count` pages from `virt` on show the memory from `phys` on; the other
pages are as they were. -/
theorem mapRange_eq {flags count virt phys : Nat} (m : PageMap) (hCount : count ≤ 1048576)
    (hVirt : virt % 4096 = 0) (hVirtLt : virt < 4294967296) (hPhysLt : phys < 4294967296)
    {v : Nat} (hv : v < 4294967296) (hAligned : v % 4096 = 0) :
    mapRange flags count m virt phys v =
      if offsetFrom virt v < 4096 * count then behind phys (offsetFrom virt v) ||| flags
      else m v := by
  induction count generalizing m virt phys with
  | zero => rfl
  | succ count ih =>
      have hNextAligned : behind virt pageSize % 4096 = 0 := by
        unfold behind pageSize
        omega
      rw [mapRange, ih _ (by omega) hNextAligned (behind_lt _ _) (behind_lt _ _)]
      by_cases hSame : v = virt
      · have hWrapped : offsetFrom (behind virt pageSize) v = 4294967296 - 4096 := by
          unfold offsetFrom toWord behind pageSize
          omega
        have hZero : offsetFrom virt v = 0 := by
          unfold offsetFrom toWord
          omega
        rw [hWrapped, hZero, if_neg (by omega), if_pos (by omega), hSame, Function.update_self,
          behind_of_lt hPhysLt, Nat.add_zero]
      · have hOffset : offsetFrom (behind virt pageSize) v + 4096 = offsetFrom virt v := by
          unfold offsetFrom toWord behind pageSize
          omega
        have hPhys : behind (behind phys pageSize) (offsetFrom (behind virt pageSize) v) =
            behind phys (offsetFrom virt v) := by
          rw [← hOffset]
          unfold behind pageSize
          omega
        have hRange : offsetFrom (behind virt pageSize) v < 4096 * count ↔
            offsetFrom virt v < 4096 * (count + 1) := by omega
        rw [hPhys, Function.update_of_ne hSame]
        simp only [hRange]

section Ranges

variable {mem : Memory} {directory : Nat} {table : Nat → Nat} {m : PageMap}

theorem Maps.mapRange (h : Maps mem directory table m) {flags : Nat} (hFlags : flags < 4096)
    (count : Nat) {virt phys : Nat} (hVirt : virt % 4096 = 0) (hVirtLt : virt < 4294967296)
    (hPhys : phys % 4096 = 0) (hPhysLt : phys < 4294967296) :
    ∃ mem', pagingMapRange directory flags count mem virt phys = (0, mem') ∧
      Maps mem' directory table (mapRange flags count m virt phys) ∧ TablesOnly table mem mem' := by
  induction count generalizing mem m virt phys with
  | zero => exact ⟨mem, rfl, h, TablesOnly.refl table mem⟩
  | succ count ih =>
      have hVal : phys ||| flags < 4294967296 := by
        rw [or_flags hPhys hFlags]
        omega
      obtain ⟨mid, hSet, hMid, hOnly⟩ := h.set hVirtLt hVirt hVal
      have hNext : ∀ {p : Nat}, p % 4096 = 0 → behind p pageSize % 4096 = 0 := by
        intro p hp
        unfold behind pageSize
        omega
      obtain ⟨mem', hRest, hMaps, hOnly'⟩ :=
        ih hMid (hNext hVirt) (behind_lt _ _) (hNext hPhys) (behind_lt _ _)
      have hMap : pagingMap mem directory virt phys flags = (0, mid) := by
        rw [pagingMap, if_neg (by unfold pageSize; omega)]
        exact hSet
      refine ⟨mem', ?_, hMaps, hOnly.trans hOnly'⟩
      rw [pagingMapRange, hMap]
      exact hRest

/-- `paging_map_to` on page boundaries: an end in front of the start is
refused, otherwise the pages in between are mapped. -/
theorem Maps.mapTo (h : Maps mem directory table m) {flags : Nat} (hFlags : flags < 4096)
    {virt phys physEnd : Nat} (hVirt : virt % 4096 = 0) (hVirtLt : virt < 4294967296)
    (hPhys : phys % 4096 = 0) (hPhysLt : phys < 4294967296) (hEnd : physEnd % 4096 = 0) :
    (physEnd < phys ∧ pagingMapTo mem directory virt phys physEnd flags = (-einvarg, mem)) ∨
    (phys ≤ physEnd ∧ ∃ mem',
      pagingMapTo mem directory virt phys physEnd flags = (0, mem') ∧
      Maps mem' directory table (LiebeOS.mapRange flags ((physEnd - phys) / 4096) m virt phys) ∧
      TablesOnly table mem mem') := by
  have hAligned : pagingMapTo mem directory virt phys physEnd flags =
      if physEnd < phys then (-einvarg, mem)
      else pagingMapRange directory flags ((physEnd - phys) / 4096) mem virt phys := by
    rw [pagingMapTo, if_neg (by unfold pageSize; omega), if_neg (by unfold pageSize; omega),
      if_neg (by unfold pageSize; omega)]
    rfl
  rw [hAligned]
  by_cases hOrder : physEnd < phys
  · exact Or.inl ⟨hOrder, if_pos hOrder⟩
  · obtain ⟨mem', hRun, hMaps, hOnly⟩ :=
      h.mapRange hFlags ((physEnd - phys) / 4096) hVirt hVirtLt hPhys hPhysLt
    exact Or.inr ⟨by omega, mem', by rw [if_neg hOrder, hRun], hMaps, hOnly⟩

/-- Translation of an address through a page that is mapped to `phys`. -/
theorem Maps.translate (h : Maps mem directory table m) {virt phys flags : Nat}
    (hVirt : virt < 4294967296) (hPhys : phys % 4096 = 0) (hPhysLt : phys < 4294967296)
    (hFlags : flags < 4096) (hEntry : m (virt / 4096 * 4096) = phys ||| flags) :
    pagingGetPhysicalAddress mem directory virt = phys + virt % 4096 := by
  have hPage : pagingGet mem directory (virt / 4096 * 4096) = phys ||| flags := by
    rw [h.entries _ (by omega) (by omega)]
    exact hEntry
  rw [pagingGetPhysicalAddress]
  simp only [pagingAlignToLowerPage_eq, hPage]
  rw [entryAddress_or_flags hPhys hPhysLt hFlags, behind_of_lt (by omega)]
  omega

end Ranges

end LiebeOS
