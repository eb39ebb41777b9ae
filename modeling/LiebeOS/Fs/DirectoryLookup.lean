import Mathlib.Data.List.DropRight
import LiebeOS.Fs.ChunkRead
import LiebeOS.Fs.DirectoryBlock
import LiebeOS.Fs.Mount

/-! Looking a name up in a directory that was loaded from the disk: the root
directory when the volume was mounted, a subdirectory on the way down a path. -/
namespace LiebeOS

open MachineInt Bytes Loop Transition

/-! ### Loading a directory -/

/-- The root directory: as many entries as the header announces. -/
def rootDirectoryBlock (p : FatPrivate) (dir : Nat) (mem : Memory) : FatDirectoryBlock where
  items := dir
  total := p.rootDirectory.total
  size := if dir = 0 then 0 else p.header.rootDirEntries.toNat * 32
  byte i := mem (dir + i)
  null hNull := if_pos hNull

/-- A subdirectory. `directory` and `items` are the answers of `kzalloc`. What
became of the read is not handed on. -/
def fat16LoadFatDirectoryBlock (fuel : Nat) (disk : Disk) (p : FatPrivate)
    (item : FatDirectoryItem) (directory items : Nat) (mem : Memory) :
    Option (Option FatDirectoryBlock × FatPrivate × Memory) :=
  if item.attr &&& fatFileSubdirectory = 0 then some (none, p, mem)
  else if directory = 0 then some (none, p, mem)
  else
    let clusterSector := fat16ClusterToSector p item.firstCluster
    match fat16GetTotalItemsForDirectory fuel disk p (toWord clusterSector) with
    | none => none
    | some (totalItems, p) =>
        let directorySize := toInt (totalItems * sizeOfDirectoryItem)
        let loaded (size : Nat) (mem : Memory) : FatDirectoryBlock :=
          ⟨items, totalItems, if items = 0 then 0 else size, fun i => mem (items + i),
            fun hNull => if_pos hNull⟩
        if items = 0 then some (some (loaded 0 mem), p, mem)
        else
          match fat16ReadInternal disk p item.firstCluster 0 directorySize mem items with
          | none => none
          | some r => some (some (loaded directorySize.toNat r.mem), r.fsPrivate, r.mem)

/-! ### What a lookup should find -/

/-- The name of a directory entry: both parts without their padding, and a dot
between them unless there is no extension. -/
def shortName (entry : Nat → UInt8) : List UInt8 :=
  let padding : UInt8 → Bool := fun c => c = 0x20 ∨ c = 0x00
  let filename := ((List.range 8).map entry).rdropWhile padding
  let ext := ((List.range 3).map fun b => entry (8 + b)).rdropWhile padding
  if ext = [] then filename else filename ++ 0x2E :: ext

/-- The entry is in use and has the name, up to case. -/
def LiveMatch (entry : Nat → UInt8) (name : List UInt8) : Prop :=
  entry 0 ≠ 0xE5 ∧ (shortName entry).map toLower = (name.takeWhile (· ≠ 0)).map toLower

instance (entry : Nat → UInt8) (name : List UInt8) : Decidable (LiveMatch entry name) :=
  inferInstanceAs (Decidable (_ ∧ _))

/-- Of the first `count` entries, `k` is the only one with the name. -/
def OnlyMatch (entries : Nat → Nat → UInt8) (count : Nat) (name : List UInt8) (k : Nat) : Prop :=
  k < count ∧ ∀ j < count, LiveMatch (entries j) name ↔ j = k

/-- A directory as it was loaded, the sector it was looked for at, the bytes of
its entries on the disk, and the number of entries before the first empty one.
The root directory need not have an empty one. -/
inductive DirectoryLoaded (disk : Disk) :
    FatDirectoryBlock → Int → (Nat → Nat → UInt8) → Nat → Prop where
  | root {fuel dir : Nat} {p p' : FatPrivate} {mem mem' : Memory} {count : Nat}
      (hLoad : fat16GetRootDirectory fuel disk p dir mem = some (0, p', mem'))
      (hCount : count ≤ p.header.rootDirEntries.toNat)
      (hBefore : ∀ j < count, entryByte disk (rootDirectoryStart p.header) j ≠ 0)
      (hEnd : count < p.header.rootDirEntries.toNat →
        entryByte disk (rootDirectoryStart p.header) count = 0) :
      DirectoryLoaded disk (rootDirectoryBlock p' dir mem') (rootDirectoryStart p.header)
        (fun j b => disk.byte (512 * rootDirectoryStart p.header + 32 * j + b)) count
  | subdirectory {fuel directory items : Nat} {p p' : FatPrivate} {item : FatDirectoryItem}
      {mem mem' : Memory} {d : FatDirectoryBlock} {count : Nat}
      (hLoad : fat16LoadFatDirectoryBlock fuel disk p item directory items mem =
        some (some d, p', mem'))
      (hCluster : item.firstCluster < 65536)
      (hBefore : ∀ j < count, fileByte disk p item.firstCluster (32 * j) ≠ 0)
      (hEnd : fileByte disk p item.firstCluster (32 * count) = 0) :
      DirectoryLoaded disk d (fat16ClusterToSector p item.firstCluster)
        (fun j b => fileByte disk p item.firstCluster (32 * j + b)) count

/-- The only entry with the name is found, without one nothing is, and no entry
is looked at that has not been loaded. -/
structure LookupCorrect (v : FatVolume) (heap : Heap) (d : FatDirectoryBlock)
    (entries : Nat → Nat → UInt8) (count : Nat) (name : List UInt8) : Prop where
  found : ∀ k, OnlyMatch entries count name k → ∃ i item heap',
    fat16FindItemInBlock v heap d name = .returned (some (i, item), heap') ∧
      ∀ b < 32, d.byte (32 * i + b) = entries k b
  absent : (∀ j < count, ¬ LiveMatch (entries j) name) → ∃ heap',
    fat16FindItemInBlock v heap d name = .returned (none, heap')
  inside : d.total * sizeOfDirectoryItem ≤ d.size

/-! ### A loaded directory -/

/-- The sector a directory at `sector` is really read from. -/
def startSector (sector : Int) : Nat := scannedSector (toWord sector)

theorem startSector_natCast {sector : Nat} (hPos : sector < 8388608) :
    startSector sector = sector := by
  unfold startSector scannedSector toWord
  omega

section Loaded

variable {fuel : Nat} {disk : Disk} {p p' : FatPrivate} {d : FatDirectoryBlock} {mem mem' : Memory}

/-- The scan stands at the beginning of that sector, and so does the read. -/
theorem toInt_startSector {sector : Int} (hStart : startSector sector < 4194304) :
    toInt (sector * liebeOsSectorSize) = (512 * startSector sector : Nat) := by
  unfold startSector scannedSector toWord at hStart ⊢
  unfold toInt liebeOsSectorSize
  omega

theorem fat16GetTotalItemsForDirectory_counts {sector : Int} {res : Int}
    (h : fat16GetTotalItemsForDirectory fuel disk p (toWord sector) = some (res, p')) :
    startSector sector < 4194304 ∧ startSector sector < disk.sectors ∧
      (∃ k < 16, FirstEmpty disk (startSector sector) k ∧
        res = usedEntries disk (startSector sector) k) ∧
      ∃ stream, p' = { p with directoryStream := stream } := by
  have hFrame := fat16GetTotalItemsForDirectory_frame h
  simp only [fat16GetTotalItemsForDirectory, diskstreamerSeek, ne_eq, not_true_eq_false,
    if_false, Option.map_eq_some_iff, Prod.mk.injEq, Prod.exists] at h
  obtain ⟨res', stream, hRun, rfl, _⟩ := h
  have hReturns : Returns (fat16ScanItem disk)
      ⟨⟨toInt (toWord (toWord sector * liebeOsSectorSize)), .diskObj⟩, fun _ => 0, 0⟩
      (res', stream) := ⟨fuel, hRun⟩
  obtain ⟨hPos, hDisk, k, hSmall, hFirst, _, hCount⟩ := fat16ScanItem_counts hReturns
  exact ⟨hPos, hDisk, ⟨k, hSmall, hFirst, hCount⟩, hFrame⟩

/-- Fewer bytes than a sector, from the beginning of a cluster. -/
theorem fat16ReadInternal_front {cluster : Int} {total start out : Nat} {r : FileRead}
    (hCluster : 0 ≤ cluster ∧ cluster < 65536) (hShort : total < 512)
    (hStart : toInt (fat16ClusterToSector p cluster * liebeOsSectorSize) = (512 * start : Nat))
    (hPos : start < 4194304) (hDisk : start < disk.sectors)
    (h : fat16ReadInternal disk p cluster 0 total mem out = some r) :
    Filled mem r.mem out total fun i => disk.byte (512 * start + i) := by
  obtain ⟨r', hStream, rfl⟩ := Option.map_eq_some_iff.mp h
  have hSize : 0 < p.header.sectorsPerCluster := by
    by_contra hNone
    have hZero : sizeOfClusterBytes p = 0 := by
      rw [UInt8.lt_iff_toNat_lt] at hNone
      unfold sizeOfClusterBytes liebeOsSectorSize
      have hNat : (0 : UInt8).toNat = 0 := rfl
      omega
    rw [fat16ReadInternalFromStream, if_pos hZero] at hStream
    exact absurd hStream (by simp)
  have hBytes : 512 ≤ clusterBytes p.header := by
    have hPositive : 0 < p.header.sectorsPerCluster.toNat := UInt8.lt_iff_toNat_lt.mp hSize
    unfold clusterBytes
    omega
  have hChunk : chunkStart disk p cluster 0 = (512 * start : Nat) := by
    rw [chunkStart, Int.zero_tdiv, Int.zero_tmod, Int.add_zero]
    exact hStart
  have hCount : min (total : Int) (clusterBytes p.header) = total := by omega
  rcases @fat16ReadInternalFromStream_cases disk p cluster 0 total p.clusterReadStream mem out
    hSize hCluster with ⟨_, fatStream, hCall⟩ | ⟨hWalk, _⟩
  · obtain ⟨mem', hRead, hFilled⟩ := @diskstreamerRead_short disk (512 * start) total mem out
      (by omega) (by omega) (by omega)
    rw [hChunk, hCount, hRead] at hCall
    dsimp only at hCall
    rw [if_neg (not_not.mpr rfl), chunkRest, if_neg (by dsimp only; omega)] at hCall
    rw [hCall, Option.some.injEq] at hStream
    subst hStream
    exact hFilled
  · refine absurd (fun i hi => absurd hi ?_) hWalk
    rw [Int.zero_tdiv]
    exact Nat.not_lt_zero i

/-- What loading a subdirectory consists of: the scan, and the read unless there
was no memory. -/
theorem fat16LoadFatDirectoryBlock_ok {item : FatDirectoryItem} {directory items : Nat}
    (h : fat16LoadFatDirectoryBlock fuel disk p item directory items mem =
      some (some d, p', mem')) :
    ∃ totalItems scanned, fat16GetTotalItemsForDirectory fuel disk p
        (toWord (fat16ClusterToSector p item.firstCluster)) = some (totalItems, scanned) ∧
      d.total = totalItems ∧
      (d.size = 0 ∨ ∃ r, fat16ReadInternal disk scanned item.firstCluster 0
          (toInt (totalItems * sizeOfDirectoryItem)) mem items = some r ∧
        d.size = (toInt (totalItems * sizeOfDirectoryItem)).toNat ∧
        ∀ i, d.byte i = r.mem (items + i)) := by
  unfold fat16LoadFatDirectoryBlock at h
  split at h
  · exact nomatch h
  · split at h
    · exact nomatch h
    · cases hScan : fat16GetTotalItemsForDirectory fuel disk p
          (toWord (fat16ClusterToSector p item.firstCluster)) with
      | none =>
          simp only [hScan] at h
          exact nomatch h
      | some scan =>
          obtain ⟨totalItems, scanned⟩ := scan
          refine ⟨totalItems, scanned, rfl, ?_⟩
          simp only [hScan] at h
          by_cases hNull : items = 0
          · rw [if_pos hNull, Option.some.injEq, Prod.mk.injEq, Option.some.injEq] at h
            rw [← h.1]
            exact ⟨rfl, Or.inl (if_pos hNull)⟩
          · rw [if_neg hNull] at h
            cases hRead : fat16ReadInternal disk scanned item.firstCluster 0
                (toInt (totalItems * sizeOfDirectoryItem)) mem items with
            | none =>
                simp only [hRead] at h
                exact nomatch h
            | some r =>
                simp only [hRead] at h
                rw [Option.some.injEq, Prod.mk.injEq, Option.some.injEq] at h
                rw [← h.1]
                exact ⟨rfl, Or.inr ⟨r, rfl, if_neg hNull, fun _ => rfl⟩⟩

/-- What was loaded: whole entries of the sector that was scanned, of which as
many are looked at as are in use. -/
structure BlockOf (disk : Disk) (start : Nat) (d : FatDirectoryBlock) (k : Nat) : Prop where
  scanned : k < 16
  empty : FirstEmpty disk start k
  total : d.total = usedEntries disk start k
  whole : d.size % 32 = 0
  bytes : ∀ i < d.size, d.byte i = disk.byte (512 * start + i)

theorem fat16GetRootDirectory_block {dir : Nat}
    (h : fat16GetRootDirectory fuel disk p dir mem = some (0, p', mem')) :
    (rootDirectoryBlock p' dir mem').size = p.header.rootDirEntries.toNat * 32 ∧
      ∃ k, BlockOf disk (startSector (rootDirectoryStart p.header))
        (rootDirectoryBlock p' dir mem') k := by
  obtain ⟨totalItems, scanned, r, hDir, hScan, hRead, hOk, rfl, hPrivate⟩ :=
    fat16GetRootDirectory_ok h
  have hWord : rootDirectoryStart p.header = toWord (rootDirectoryStart p.header) := by
    have hCopies := p.header.fatCopies.toNat_lt
    have hSectors := p.header.sectorsPerFat.toNat_lt
    have hReserved := p.header.reservedSectors.toNat_lt
    have hTables : p.header.fatCopies.toNat * p.header.sectorsPerFat.toNat ≤ 255 * 65535 :=
      Nat.mul_le_mul (by omega) (by omega)
    unfold toWord rootDirectoryStart
    omega
  rw [hWord] at hScan
  obtain ⟨hPos, _, ⟨k, hSmall, hFirst, hCount⟩, _⟩ := fat16GetTotalItemsForDirectory_counts hScan
  have hSize : (rootDirectoryBlock p' dir r.mem).size = p.header.rootDirEntries.toNat * 32 := by
    rw [hPrivate]
    exact if_neg hDir
  have hStart : fat16SectorToAbsolute (rootDirectoryStart p.header) =
      (512 * startSector (rootDirectoryStart p.header) : Nat) := toInt_startSector hPos
  have hStream : scanned.directoryStream.disk = .diskObj := by
    cases scanned.directoryStream.disk
    rfl
  rw [hStart, hStream] at hRead
  obtain ⟨_, hLast, hFits⟩ := diskstreamerRead_aligned_some (by omega) hRead
  obtain ⟨mem', hWhole, hFilled⟩ := diskstreamerRead_aligned mem dir hLast hFits
  rw [hWhole, Option.some.injEq] at hRead
  subst hRead
  refine ⟨hSize, k, hSmall, hFirst, ?_, by omega, fun i hi => hFilled.1 i (by omega)⟩
  rw [hPrivate]
  exact hCount

theorem fat16LoadFatDirectoryBlock_block {item : FatDirectoryItem} {directory items : Nat}
    (hCluster : item.firstCluster < 65536)
    (h : fat16LoadFatDirectoryBlock fuel disk p item directory items mem =
      some (some d, p', mem')) :
    d.size < 512 ∧
      ∃ k, BlockOf disk (startSector (fat16ClusterToSector p item.firstCluster)) d k := by
  obtain ⟨totalItems, scanned, hScan, hTotal, hLoaded⟩ := fat16LoadFatDirectoryBlock_ok h
  obtain ⟨hPos, hDisk, ⟨k, hSmall, hFirst, hCount⟩, stream, hFrame⟩ :=
    fat16GetTotalItemsForDirectory_counts hScan
  rcases hLoaded with hNone | ⟨r, hRead, hSize, hBytes⟩
  · refine ⟨by omega, k, hSmall, hFirst, hTotal.trans hCount, ?_, ?_⟩
    · rw [hNone]
    · rw [hNone]
      exact fun i hi => absurd hi (Nat.not_lt_zero i)
  · have hUsed := usedEntries_le disk (startSector (fat16ClusterToSector p item.firstCluster)) k
    have hInt : toInt (totalItems * sizeOfDirectoryItem) = (32 * usedEntries disk
        (startSector (fat16ClusterToSector p item.firstCluster)) k : Nat) := by
      rw [hCount, sizeOfDirectoryItem, toInt_of_range (by omega) (by omega)]
      omega
    rw [hInt] at hRead hSize
    rw [Int.toNat_natCast] at hSize
    have hSector : fat16ClusterToSector scanned item.firstCluster =
        fat16ClusterToSector p item.firstCluster := by
      rw [hFrame]
      rfl
    have hFilled := fat16ReadInternal_front ⟨by omega, by omega⟩ (by omega)
      (by rw [hSector]; exact toInt_startSector hPos) hPos hDisk hRead
    refine ⟨by omega, k, hSmall, hFirst, hTotal.trans hCount, by omega, fun i hi => ?_⟩
    rw [hBytes i]
    exact hFilled.1 i (by omega)

theorem DirectoryLoaded.block {sector : Int} {entries : Nat → Nat → UInt8} {count : Nat}
    (h : DirectoryLoaded disk d sector entries count) :
    ∃ k, BlockOf disk (startSector sector) d k := by
  cases h with
  | root hLoad _ _ _ => exact (fat16GetRootDirectory_block hLoad).2
  | subdirectory hLoad hCluster _ _ => exact (fat16LoadFatDirectoryBlock_block hCluster hLoad).2

theorem fileByte_front (disk : Disk) (p : FatPrivate) (cluster : Int) {i : Nat} (hi : i < 512) :
    fileByte disk p cluster i = disk.byte (512 * (fat16ClusterToSector p cluster).toNat + i) := by
  by_cases hNone : clusterBytes p.header = 0
  · rw [fileByte, hNone, Nat.div_zero, Nat.mod_zero]
    rfl
  · have hFirst : i < clusterBytes p.header := by
      unfold clusterBytes at hNone ⊢
      omega
    rw [fileByte, Nat.div_eq_of_lt hFirst, Nat.mod_eq_of_lt hFirst]
    rfl

/-- In the first 2^31 bytes the entries are loaded in their places, and those
that are looked at stand before the first empty one. -/
theorem DirectoryLoaded.entries {sector : Int} {entries : Nat → Nat → UInt8} {count k : Nat}
    (h : DirectoryLoaded disk d sector entries count) (hLow : 0 ≤ sector)
    (hHigh : sector < 4194304) (hBlock : BlockOf disk (startSector sector) d k) :
    (∀ i b, 32 * i + 32 ≤ d.size → b < 32 → d.byte (32 * i + b) = entries i b) ∧
      (count = k ∨ d.size = 32 * count) := by
  cases h with
  | @root _ _ p _ _ _ count hLoad hCount hBefore hEnd =>
      have hStart := @startSector_natCast (rootDirectoryStart p.header) (by omega)
      have hSize := (fat16GetRootDirectory_block hLoad).1
      refine ⟨fun i b hi hb => ?_, ?_⟩
      · rw [hBlock.bytes _ (by omega), hStart, ← Nat.add_assoc]
      · by_cases hFull : count = p.header.rootDirEntries.toNat
        · exact Or.inr (by rw [hSize, hFull, Nat.mul_comm])
        · have hFirst : FirstEmpty disk (startSector (rootDirectoryStart p.header)) count := by
            rw [hStart]
            exact ⟨hEnd (by omega), hBefore⟩
          exact Or.inl (hFirst.unique hBlock.empty)
  | @subdirectory _ _ _ p _ item _ _ _ count hLoad hCluster hBefore hEnd =>
      obtain ⟨sector, hSector⟩ := Int.eq_ofNat_of_zero_le hLow
      have hStart : startSector (fat16ClusterToSector p item.firstCluster) = sector := by
        rw [hSector]
        exact startSector_natCast (by omega)
      have hFront : ∀ i < 512, fileByte disk p item.firstCluster i =
          disk.byte (512 * sector + i) := fun i hi => by
        rw [fileByte_front disk p _ hi, hSector, Int.toNat_natCast]
      obtain ⟨hSmall, _⟩ := fat16LoadFatDirectoryBlock_block hCluster hLoad
      refine ⟨fun i b hi hb => ?_, Or.inl ?_⟩
      · rw [hBlock.bytes _ (by omega), hStart]
        exact (hFront _ (by omega)).symm
      · obtain ⟨hScanned, ⟨hZero, hUsed⟩, -, -, -⟩ := hBlock
        rw [hStart] at hZero hUsed
        rcases Nat.lt_trichotomy count k with hLess | hSame | hMore
        · rw [hFront _ (by omega)] at hEnd
          exact absurd hEnd (hUsed count hLess)
        · exact hSame
        · have hOther := hBefore k hMore
          rw [hFront _ (by omega)] at hOther
          exact absurd hZero hOther

end Loaded

/-! ### The lookup in a loaded directory -/

/-- `used` is the number of entries in use in the sector that was scanned: the
entries that are looked at are as many, all of them have been loaded and have a
name, and the last one that is shown with the name is the wanted one. -/
structure LookupFits (v : FatVolume) (heap : Heap) (d : FatDirectoryBlock) (used : Nat)
    (entries : Nat → Nat → UInt8) (count : Nat) (name : List UInt8) : Prop where
  found : ∀ k, OnlyMatch entries count name k → NamesShown d used ∧
    (∃ i, LastShown d used name i ∧ ∀ b < 32, d.byte (32 * i + b) = entries k b) ∧
    LastGranted v heap d (shownItems d used name)
  absent : (∀ j < count, ¬ LiveMatch (entries j) name) →
    NamesShown d used ∧ LastRefused v heap d (shownItems d used name)
  inside : used * 32 ≤ d.size

theorem LiveMatch.congr {entry entry' : Nat → UInt8} {name : List UInt8}
    (h : LiveMatch entry name) (hSame : ∀ b < 32, entry b = entry' b) : LiveMatch entry' name := by
  have hFilename : (List.range 8).map entry = (List.range 8).map entry' :=
    List.map_congr_left fun b hb => hSame b (by rw [List.mem_range] at hb; omega)
  have hExt : ((List.range 3).map fun b => entry (8 + b)) =
      (List.range 3).map fun b => entry' (8 + b) :=
    List.map_congr_left fun b hb => hSame (8 + b) (by rw [List.mem_range] at hb; omega)
  have hName : shortName entry = shortName entry' := by
    rw [shortName, shortName, hFilename, hExt]
  exact ⟨by rw [← hSame 0 (by decide)]; exact h.1, by rw [← hName]; exact h.2⟩

/-- An entry that is shown with a name has been loaded. -/
theorem inside_of_shownAs {d : FatDirectoryBlock} {name : List UInt8} {i : Nat}
    (hShown : shownAs d name i) : 32 * i + 8 < d.size := by
  by_contra hBehind
  have hNone : d.read (32 * i + 8) = none := if_neg hBehind
  rw [shownAs, fat16GetFullRelativeFilename, hNone] at hShown
  cases hFilename : fat16ToProperString d liebeOsMaxPathLen (32 * i) with
  | none =>
      rw [hFilename] at hShown
      exact absurd hShown (by simp)
  | some filename =>
      rw [hFilename] at hShown
      exact absurd hShown (by simp)

section Correct

variable {disk : Disk} {d : FatDirectoryBlock} {sector : Int} {entries : Nat → Nat → UInt8}
  {count k : Nat}

theorem lookupCorrect_iff {start : Nat} (v : FatVolume) (heap : Heap) (name : List UInt8)
    (hBlock : BlockOf disk start d k) :
    LookupCorrect v heap d entries count name ↔
      LookupFits v heap d (usedEntries disk start k) entries count name := by
  have hUsed : d.total.toNat = usedEntries disk start k := by
    rw [hBlock.total, Int.toNat_natCast]
  have hInside : d.total * sizeOfDirectoryItem ≤ d.size ↔
      usedEntries disk start k * 32 ≤ d.size := by
    rw [hBlock.total, sizeOfDirectoryItem]
    omega
  constructor
  · rintro ⟨hFound, hAbsent, hLoaded⟩
    refine ⟨fun live hOnly => ?_, fun hNone => ?_, hInside.mp hLoaded⟩
    · obtain ⟨i, item, heap', hReturns, hBytes⟩ := hFound live hOnly
      obtain ⟨hNames, hLast, hGranted⟩ := fat16FindItemInBlock_some_iff.mp ⟨item, heap', hReturns⟩
      rw [hUsed] at hNames hLast hGranted
      exact ⟨hNames, ⟨i, hLast, hBytes⟩, hGranted⟩
    · have hNothing := fat16FindItemInBlock_none_iff.mp (hAbsent hNone)
      rwa [hUsed] at hNothing
  · rintro ⟨hFound, hAbsent, hLoaded⟩
    refine ⟨fun live hOnly => ?_, fun hNone => ?_, hInside.mpr hLoaded⟩
    · obtain ⟨hNames, ⟨i, hLast, hBytes⟩, hGranted⟩ := hFound live hOnly
      rw [← hUsed] at hNames hLast hGranted
      obtain ⟨item, heap', hReturns⟩ :=
        fat16FindItemInBlock_some_iff.mpr ⟨hNames, hLast, hGranted⟩
      exact ⟨i, item, heap', hReturns, hBytes⟩
    · have hNothing := hAbsent hNone
      rw [← hUsed] at hNothing
      exact fat16FindItemInBlock_none_iff.mpr hNothing

/-- Only the entry itself can be found in its place. -/
theorem DirectoryLoaded.last_iff {name : List UInt8} {live i : Nat}
    (hLoaded : DirectoryLoaded disk d sector entries count) (hLow : 0 ≤ sector)
    (hHigh : sector < 4194304) (hBlock : BlockOf disk (startSector sector) d k)
    (hOnly : OnlyMatch entries count name live)
    (hLast : LastShown d (usedEntries disk (startSector sector) k) name i) :
    (∀ b < 32, d.byte (32 * i + b) = entries live b) ↔ i = live := by
  obtain ⟨hEntries, hCount⟩ := hLoaded.entries hLow hHigh hBlock
  have hUsed := usedEntries_le disk (startSector sector) k
  have hWhole := hBlock.whole
  have hThere := inside_of_shownAs hLast.2.1
  constructor
  · intro hBytes
    have hMatch := ((hOnly.2 live hOnly.1).mpr rfl).congr fun b hb =>
      (hBytes b hb).symm.trans (hEntries i b (by omega) hb)
    have hBefore : i < count := by
      have hi := hLast.1
      rcases hCount with hSame | hFull
      · omega
      · omega
    exact (hOnly.2 i hBefore).mp hMatch
  · rintro rfl b hb
    exact hEntries i b (by omega) hb

/-- Looking a name up in a loaded directory is correct exactly under these
conditions. In the first 2^31 bytes the entry that is found is the wanted one
only if it stands in its place, which must be before the number of entries in
use. -/
theorem fat16FindItemInBlock_iff (v : FatVolume) (heap : Heap) (name : List UInt8)
    (hLoaded : DirectoryLoaded disk d sector entries count) :
    ∃ k, FirstEmpty disk (startSector sector) k ∧
      (LookupCorrect v heap d entries count name ↔
        LookupFits v heap d (usedEntries disk (startSector sector) k) entries count name) ∧
      (0 ≤ sector → sector < 4194304 → ∀ live i, OnlyMatch entries count name live →
        LastShown d (usedEntries disk (startSector sector) k) name i →
          ((∀ b < 32, d.byte (32 * i + b) = entries live b) ↔ i = live)) := by
  obtain ⟨k, hBlock⟩ := hLoaded.block
  exact ⟨k, hBlock.empty, lookupCorrect_iff v heap name hBlock,
    fun hLow hHigh _ _ hOnly hLast => hLoaded.last_iff hLow hHigh hBlock hOnly hLast⟩

end Correct

/-! ### Two root directories -/

theorem DirectoryLoaded.root_exists {disk : Disk} {header : FatHeader} {k : Nat}
    (hFirst : FirstEmpty disk (rootDirectoryStart header) k) (hSmall : k < 15)
    (hEntries : k ≤ header.rootDirEntries.toNat)
    (hDisk : rootDirectoryStart header + header.rootDirEntries.toNat * 32 / 512 < disk.sectors)
    (hFits : 512 * rootDirectoryStart header + header.rootDirEntries.toNat * 32 < 2147483648) :
    ∃ d, DirectoryLoaded disk d (rootDirectoryStart header)
        (fun j b => disk.byte (512 * rootDirectoryStart header + 32 * j + b)) k ∧
      d.size = header.rootDirEntries.toNat * 32 := by
  obtain ⟨fuel, p', mem', hLoad, hHeader⟩ := @fat16GetRootDirectory_loads 4096 disk
    { fat16InitPrivate with header := header } k (fun _ => 0) (by decide) hFirst hSmall hDisk hFits
  exact ⟨_, DirectoryLoaded.root hLoad hEntries hFirst.2 fun _ => hFirst.1,
    (fat16GetRootDirectory_block hLoad).1⟩

/-- The header of a volume without tables, its root directory in sector 1. -/
def rootHeader : FatHeader := ⟨1, 1, 0, 16, 0⟩

/-- Two entries with names of one letter, which may be the mark of a deletion. -/
def twoEntries (first second : UInt8) : Disk :=
  ⟨4, fun i => if i = 512 then first else if i = 544 then second else if i = 576 then 0 else 0x20⟩

def noSubdirectories : FatVolume := ⟨⟨0, 0, 0, fun _ => ⟨[], 0, 0, 0⟩⟩, fun _ => none⟩

def oneBlockHeap : Heap := ⟨⟨fun _ => 0, 1, []⟩, 0x1000000⟩

/-- In front of a deleted entry the file `A` is found as `a`. -/
theorem fat16FindItemInBlock_iff_front :
    ∃ d, DirectoryLoaded (twoEntries 65 0xE5) d 1
        (fun j b => (twoEntries 65 0xE5).byte (512 + 32 * j + b)) 2 ∧
      LookupCorrect noSubdirectories oneBlockHeap d
        (fun j b => (twoEntries 65 0xE5).byte (512 + 32 * j + b)) 2 [97] := by
  have hFirst : FirstEmpty (twoEntries 65 0xE5) 1 2 := by
    unfold FirstEmpty
    decide
  obtain ⟨d, hLoaded, hSize⟩ := @DirectoryLoaded.root_exists (twoEntries 65 0xE5) rootHeader 2
    hFirst (by decide) (by decide) (by decide) (by decide)
  obtain ⟨k, hEmpty, hIff, _⟩ :=
    fat16FindItemInBlock_iff noSubdirectories oneBlockHeap [97] hLoaded
  obtain rfl : k = 2 := hEmpty.unique hFirst
  obtain ⟨_, hBlock⟩ := hLoaded.block
  have hBytes : ∀ i < 512, d.byte i = (twoEntries 65 0xE5).byte (512 + i) := fun i hi =>
    hBlock.bytes i (by rw [hSize]; exact hi)
  have hRead : ∀ i < 512, d.read i = some ((twoEntries 65 0xE5).byte (512 + i)) := fun i hi => by
    rw [FatDirectoryBlock.read, if_pos (by rw [hSize]; exact hi), hBytes i hi]
  have hName : fat16GetFullRelativeFilename d 0 = some [65] := by
    simp [fat16GetFullRelativeFilename, liebeOsMaxPathLen, fat16ToProperString, hRead, twoEntries]
  have hShown : shownAs d [97] 0 := by
    rw [shownAs, hName]
    decide
  have hItems : shownItems d 1 [97] = [0] := by
    rw [shownItems, List.range_one, List.filter_cons_of_pos hShown, List.filter_nil]
  have hAttr : (directoryItemAt d 0).attr = 0x20 := hBytes 11 (by decide)
  refine ⟨d, hLoaded, hIff.mpr ⟨fun live hOnly => ⟨?_, ⟨0, ⟨by decide, hShown, ?_⟩, ?_⟩, ?_⟩,
    fun hNone => absurd (hNone 0 (by decide)) (by decide), ?_⟩⟩
  · intro i hi
    obtain rfl : i = 0 := by
      have hOne : usedEntries (twoEntries 65 0xE5) (startSector 1) 2 = 1 := by decide
      have hLess : i < usedEntries (twoEntries 65 0xE5) (startSector 1) 2 := hi
      omega
    rw [hName]
    rfl
  · intro j hj hBehind
    have hOne : usedEntries (twoEntries 65 0xE5) (startSector 1) 2 = 1 := by decide
    have hLess : j < usedEntries (twoEntries 65 0xE5) (startSector 1) 2 := hj
    omega
  · obtain rfl : live = 0 := ((hOnly.2 0 (by decide)).mp (by decide)).symm
    intro b hb
    rw [hBytes (32 * 0 + b) (by omega), ← Nat.add_assoc]
    rfl
  · refine ⟨[], 0, oneBlockHeap, hItems, Run.nil _, by decide, fun hDirectory => ?_⟩
    rw [hAttr] at hDirectory
    exact absurd hDirectory (by decide)
  · rw [hSize]
    decide

/-- Behind a deleted entry it is not found. -/
theorem fat16FindItemInBlock_deleted :
    ¬ ∀ (disk : Disk) (d : FatDirectoryBlock) (sector : Int) (entries : Nat → Nat → UInt8)
      (count : Nat) (v : FatVolume) (heap : Heap) (name : List UInt8),
      DirectoryLoaded disk d sector entries count →
        LookupCorrect v heap d entries count name := by
  intro hClaim
  have hFirst : FirstEmpty (twoEntries 0xE5 65) 1 2 := by
    unfold FirstEmpty
    decide
  obtain ⟨d, hLoaded, hSize⟩ := @DirectoryLoaded.root_exists (twoEntries 0xE5 65) rootHeader 2
    hFirst (by decide) (by decide) (by decide) (by decide)
  have hOnly : OnlyMatch (fun j b => (twoEntries 0xE5 65).byte (512 + 32 * j + b)) 2 [65] 1 := by
    unfold OnlyMatch
    decide
  obtain ⟨i, item, heap', hFound, hSame⟩ :=
    (hClaim _ d _ _ 2 noSubdirectories oneBlockHeap [65] hLoaded).found 1 hOnly
  obtain ⟨k, hBlock⟩ := hLoaded.block
  obtain rfl : k = 2 := hBlock.empty.unique hFirst
  obtain ⟨_, hLast, _⟩ := fat16FindItemInBlock_some_iff.mp ⟨item, heap', hFound⟩
  have hTotal : d.total = 1 := hBlock.total
  obtain rfl : i = 0 := by
    have hLess := hLast.1
    omega
  have hDeleted : d.byte 0 = 0xE5 := hBlock.bytes 0 (by rw [hSize]; decide)
  have hLetter : d.byte 0 = 65 := hSame 0 (by decide)
  rw [hDeleted] at hLetter
  exact absurd hLetter (by decide)

end LiebeOS
