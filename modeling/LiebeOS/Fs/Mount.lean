import LiebeOS.Fs.DirectoryScan
import LiebeOS.Fs.FileRead

/-! Mounting a volume: `fat16_resolve` reads the boot sector and the root
directory. The records and streams it allocates are not checked, so they are
taken for granted here; the memory of the root directory is. -/
namespace LiebeOS

open MachineInt Bytes

def fat16Signature : UInt8 := 0x29

/-- The packed header at address `a`, up to the fields that are used. -/
def fatHeaderAt (mem : Memory) (a : Nat) : FatHeader where
  sectorsPerCluster := mem (a + 13)
  reservedSectors := UInt16.ofNat (le16 mem (a + 14))
  fatCopies := mem (a + 16)
  rootDirEntries := UInt16.ofNat (le16 mem (a + 17))
  sectorsPerFat := UInt16.ofNat (le16 mem (a + 22))

def sizeOfFatH : Int := 62

def fat16SectorToAbsolute (sector : Int) : Int := toInt (sector * liebeOsSectorSize)

/-- `dir` is the answer of `kzalloc`. The number of sectors, rounded up, is
computed and not used; the directory ends at the number rounded down. An error
code of the scan is stored like a number of entries. -/
def fat16GetRootDirectory (fuel : Nat) (disk : Disk) (p : FatPrivate) (dir : Nat) (mem : Memory) :
    Option (Int × FatPrivate × Memory) :=
  let rootDirectoryPos : Int :=
    p.header.fatCopies.toNat * p.header.sectorsPerFat.toNat + p.header.reservedSectors.toNat
  let rootDirSize : Int := p.header.rootDirEntries.toNat * sizeOfDirectoryItem
  match fat16GetTotalItemsForDirectory fuel disk p rootDirectoryPos.toNat with
  | none => none
  | some (totalItems, p) =>
      if dir = 0 then some (-enomem, p, mem)
      else
        let (res, stream) :=
          diskstreamerSeek p.directoryStream (fat16SectorToAbsolute rootDirectoryPos)
        if res ≠ 0 then some (-eio, { p with directoryStream := stream }, mem)
        else
          match diskstreamerRead disk stream mem dir rootDirSize with
          | none => none
          | some r =>
              let p := { p with directoryStream := r.stream }
              if r.res ≠ 0 then some (-eio, p, r.mem)
              else
                some (0, { p with rootDirectory :=
                  { total := totalItems
                    sectorPos := rootDirectoryPos
                    endingSectorPos :=
                      rootDirectoryPos + rootDirSize.tdiv liebeOsSectorSize } }, r.mem)

/-- The cleared private data with its three streams. -/
def fat16InitPrivate : FatPrivate :=
  ⟨⟨0, 0, 0, 0, 0⟩, ⟨0, 0, 0⟩, ⟨0, .diskObj⟩, ⟨0, .diskObj⟩, ⟨0, .diskObj⟩⟩

def fat16Resolve (fuel : Nat) (disk : Disk) (dir : Nat) (mem : Memory) :
    Option (Int × FatPrivate × Memory) :=
  match diskstreamerRead disk ⟨0, .diskObj⟩ (fun _ => 0) 0 sizeOfFatH with
  | none => none
  | some r =>
      if r.res ≠ 0 then some (-eio, fat16InitPrivate, mem)
      else
        let p := { fat16InitPrivate with header := fatHeaderAt r.mem 0 }
        if r.mem 38 ≠ fat16Signature then some (-efsnotus, p, mem)
        else
          match fat16GetRootDirectory fuel disk p dir mem with
          | none => none
          | some (res, p, mem) => some (if res ≠ 0 then -eio else 0, p, mem)

/-! ### What a mounted volume looks like -/

/-- The root directory starts behind the tables. -/
def rootDirectoryStart (header : FatHeader) : Nat :=
  header.fatCopies.toNat * header.sectorsPerFat.toNat + header.reservedSectors.toNat

section Mounted

variable {fuel dir : Nat} {disk : Disk} {p p' : FatPrivate} {mem mem' : Memory} {res : Int}

theorem fat16GetTotalItemsForDirectory_frame {sector : Nat}
    (h : fat16GetTotalItemsForDirectory fuel disk p sector = some (res, p')) :
    ∃ stream, p' = { p with directoryStream := stream } := by
  simp only [fat16GetTotalItemsForDirectory, diskstreamerSeek, ne_eq, not_true_eq_false,
    if_false, Option.map_eq_some_iff, Prod.mk.injEq, Prod.exists] at h
  obtain ⟨_, stream, _, _, hFrame⟩ := h
  exact ⟨stream, hFrame.symm⟩

/-- The root directory record, with the numbers it is made of. -/
def rootDirectoryOf (header : FatHeader) (totalItems : Int) : FatDirectory where
  total := totalItems
  sectorPos := rootDirectoryStart header
  endingSectorPos := rootDirectoryStart header + (header.rootDirEntries.toNat * 32 / 512 : Nat)

theorem fat16GetRootDirectory_eq (fuel dir : Nat) (disk : Disk) (p : FatPrivate) (mem : Memory) :
    fat16GetRootDirectory fuel disk p dir mem =
      match fat16GetTotalItemsForDirectory fuel disk p (rootDirectoryStart p.header) with
      | none => none
      | some (totalItems, scanned) =>
          if dir = 0 then some (-enomem, scanned, mem)
          else
            match diskstreamerRead disk
                ⟨fat16SectorToAbsolute (rootDirectoryStart p.header), scanned.directoryStream.disk⟩
                mem dir (p.header.rootDirEntries.toNat * 32 : Nat) with
            | none => none
            | some r =>
                if r.res ≠ 0 then some (-eio, { scanned with directoryStream := r.stream }, r.mem)
                else
                  some (0, { scanned with
                    rootDirectory := rootDirectoryOf p.header totalItems
                    directoryStream := r.stream }, r.mem) := by
  have hStart : (p.header.fatCopies.toNat * p.header.sectorsPerFat.toNat +
      p.header.reservedSectors.toNat : Int) = (rootDirectoryStart p.header : Nat) := by
    rw [rootDirectoryStart, Int.natCast_add, Int.natCast_mul]
  have hSize : (p.header.rootDirEntries.toNat : Int) * sizeOfDirectoryItem =
      (p.header.rootDirEntries.toNat * 32 : Nat) := by
    rw [Int.natCast_mul]
    rfl
  have hDivision : ((p.header.rootDirEntries.toNat * 32 : Nat) : Int).tdiv liebeOsSectorSize =
      (p.header.rootDirEntries.toNat * 32 / 512 : Nat) := (Int.ofNat_tdiv _ 512).symm
  unfold fat16GetRootDirectory
  rw [hStart, hSize]
  dsimp only [diskstreamerSeek]
  rw [hDivision, Int.toNat_natCast]
  cases fat16GetTotalItemsForDirectory fuel disk p (rootDirectoryStart p.header) with
  | none => rfl
  | some scan =>
      dsimp only
      by_cases hDir : dir = 0
      · rw [if_pos hDir, if_pos hDir]
      · rw [if_neg hDir, if_neg hDir, if_neg (by decide : ¬ (0 : Int) ≠ 0)]
        rfl

/-- The scan and the read that a successful call consists of. -/
theorem fat16GetRootDirectory_ok
    (h : fat16GetRootDirectory fuel disk p dir mem = some (0, p', mem')) :
    ∃ totalItems scanned r, dir ≠ 0 ∧
      fat16GetTotalItemsForDirectory fuel disk p (rootDirectoryStart p.header) =
        some (totalItems, scanned) ∧
      diskstreamerRead disk
          ⟨fat16SectorToAbsolute (rootDirectoryStart p.header), scanned.directoryStream.disk⟩ mem dir
          (p.header.rootDirEntries.toNat * 32 : Nat) = some r ∧ r.res = 0 ∧ mem' = r.mem ∧
      p' = { p with
        rootDirectory := rootDirectoryOf p.header totalItems
        directoryStream := r.stream } := by
  rw [fat16GetRootDirectory_eq] at h
  cases hScan : fat16GetTotalItemsForDirectory fuel disk p (rootDirectoryStart p.header) with
  | none =>
      rw [hScan] at h
      exact nomatch h
  | some scan =>
      obtain ⟨totalItems, scanned⟩ := scan
      obtain ⟨stream, hFrame⟩ := fat16GetTotalItemsForDirectory_frame hScan
      rw [hScan] at h
      dsimp only at h
      by_cases hDir : dir = 0
      · rw [if_pos hDir, Option.some.injEq, Prod.mk.injEq] at h
        exact absurd h.1 (by decide)
      · rw [if_neg hDir] at h
        cases hRead : diskstreamerRead disk
            ⟨fat16SectorToAbsolute (rootDirectoryStart p.header), scanned.directoryStream.disk⟩ mem
            dir (p.header.rootDirEntries.toNat * 32 : Nat) with
        | none =>
            rw [hRead] at h
            exact nomatch h
        | some r =>
            rw [hRead] at h
            dsimp only at h
            by_cases hOk : r.res = 0
            · rw [if_neg (not_not.mpr hOk), Option.some.injEq, Prod.mk.injEq, Prod.mk.injEq] at h
              refine ⟨totalItems, scanned, r, hDir, rfl, hRead, hOk, h.2.2.symm, ?_⟩
              rw [← h.2.1, hFrame]
            · rw [if_pos hOk, Option.some.injEq, Prod.mk.injEq] at h
              exact absurd h.1 (by decide)

theorem fatHeaderAt_filled {f : Nat → UInt8} (h : Filled mem mem' 0 62 f) :
    fatHeaderAt mem' 0 = fatHeaderAt f 0 := by
  have hByte : ∀ i < 62, mem' i = f i := fun i hi => by
    rw [← h.1 i hi, Nat.zero_add]
  simp only [fatHeaderAt, le16, Nat.zero_add, hByte 13 (by decide), hByte 14 (by decide),
    hByte 15 (by decide), hByte 16 (by decide), hByte 17 (by decide), hByte 18 (by decide),
    hByte 22 (by decide), hByte 23 (by decide)]

/-- Mounting is reading the boot sector and then the root directory. -/
theorem fat16Resolve_eq (fuel dir : Nat) (disk : Disk) (mem : Memory) :
    fat16Resolve fuel disk dir mem =
      if 0 < disk.sectors then
        if disk.byte 38 ≠ fat16Signature then
          some (-efsnotus, { fat16InitPrivate with header := fatHeaderAt disk.byte 0 }, mem)
        else
          (fat16GetRootDirectory fuel disk
            { fat16InitPrivate with header := fatHeaderAt disk.byte 0 } dir mem).map
            fun found => (if found.1 ≠ 0 then -eio else 0, found.2.1, found.2.2)
      else none := by
  by_cases hDisk : 0 < disk.sectors
  · obtain ⟨boot, hRead, hFilled⟩ := @diskstreamerRead_short disk 0 62 (fun _ => 0) 0 (by decide)
      hDisk (by decide)
    have hSame : Filled (fun _ => 0) boot 0 62 disk.byte :=
      hFilled.congr fun i _ => by rw [Nat.zero_add]
    have hRead' : diskstreamerRead disk ⟨0, .diskObj⟩ (fun _ => 0) 0 sizeOfFatH =
        some ⟨0, ⟨(62 : Nat), .diskObj⟩, boot⟩ := hRead
    have hSignature : boot 38 = disk.byte 38 := by
      rw [← hSame.1 38 (by decide), Nat.zero_add]
    rw [if_pos hDisk, fat16Resolve, hRead']
    dsimp only
    rw [if_neg (not_not.mpr rfl), fatHeaderAt_filled hSame]
    by_cases hForeign : disk.byte 38 ≠ fat16Signature
    · rw [if_pos hForeign, if_pos (by rwa [hSignature])]
    · rw [if_neg hForeign, if_neg (by rwa [hSignature])]
      cases fat16GetRootDirectory fuel disk
        { fat16InitPrivate with header := fatHeaderAt disk.byte 0 } dir mem <;> rfl
  · have hRead : diskstreamerRead disk ⟨(0 : Nat), .diskObj⟩ (fun _ => 0) 0 sizeOfFatH = none := by
      rw [diskstreamerRead_eq disk 0 _ 0 _ (by decide), if_neg hDisk]
    have hRead' : diskstreamerRead disk ⟨0, .diskObj⟩ (fun _ => 0) 0 sizeOfFatH = none := hRead
    rw [if_neg hDisk, fat16Resolve, hRead']

/-- What is known of a volume that has been mounted: its header is the one in
the boot sector, and the root directory has been read. -/
theorem fat16Resolve_ok (h : fat16Resolve fuel disk dir mem = some (0, p, mem')) :
    disk.byte 38 = fat16Signature ∧
      fat16GetRootDirectory fuel disk { fat16InitPrivate with header := fatHeaderAt disk.byte 0 }
        dir mem = some (0, p, mem') := by
  rw [fat16Resolve_eq] at h
  split_ifs at h with hDisk hSignature
  · rw [Option.some.injEq, Prod.mk.injEq] at h
    exact absurd h.1 (by decide)
  · refine ⟨not_not.mp hSignature, ?_⟩
    obtain ⟨⟨res, p', mem''⟩, hFound, hEnd⟩ := Option.map_eq_some_iff.mp h
    rw [Prod.mk.injEq, Prod.mk.injEq] at hEnd
    obtain ⟨hRes, hPrivate, hMem⟩ := hEnd
    dsimp only at hRes hPrivate hMem
    have hOk : res = 0 := by
      by_contra hFailed
      rw [if_pos hFailed] at hRes
      exact absurd hRes (by decide)
    rw [hFound, hOk, hPrivate, hMem]

/-- A root directory that ends before the last entry of its first sector can be
loaded. -/
theorem fat16GetRootDirectory_loads {k : Nat} (mem : Memory) (hDir : dir ≠ 0)
    (hFirst : FirstEmpty disk (rootDirectoryStart p.header) k) (hSmall : k < 15)
    (hDisk : rootDirectoryStart p.header + p.header.rootDirEntries.toNat * 32 / 512 < disk.sectors)
    (hFits : 512 * rootDirectoryStart p.header + p.header.rootDirEntries.toNat * 32 < 2147483648) :
    ∃ fuel p' mem', fat16GetRootDirectory fuel disk p dir mem = some (0, p', mem') ∧
      p'.header = p.header := by
  obtain ⟨hCounts, hScans⟩ := fat16GetTotalItemsForDirectory_iff disk p _ k hFirst (by omega)
  obtain ⟨fuel, scanned, hScan⟩ := hCounts.mpr ((hScans (by omega)).mpr
    ⟨Nat.lt_succ_of_lt hSmall, fun hLast => absurd hLast (Nat.ne_of_lt hSmall)⟩)
  obtain ⟨stream, hFrame⟩ := fat16GetTotalItemsForDirectory_frame hScan
  have hPos : fat16SectorToAbsolute (rootDirectoryStart p.header) =
      (512 * rootDirectoryStart p.header : Nat) := by
    unfold fat16SectorToAbsolute liebeOsSectorSize
    rw [toInt_of_range (by omega) (by omega)]
    omega
  have hStream : scanned.directoryStream.disk = .diskObj := by
    cases scanned.directoryStream.disk
    rfl
  obtain ⟨mem', hRead, _⟩ := @diskstreamerRead_aligned disk (rootDirectoryStart p.header)
    (p.header.rootDirEntries.toNat * 32) mem dir (by omega) hFits
  refine ⟨fuel, { scanned with
    rootDirectory := rootDirectoryOf p.header (usedEntries disk (rootDirectoryStart p.header) k)
    directoryStream := ⟨(512 * rootDirectoryStart p.header +
      p.header.rootDirEntries.toNat * 32 : Nat), .diskObj⟩ }, mem', ?_, ?_⟩
  · rw [fat16GetRootDirectory_eq, hScan]
    dsimp only
    rw [if_neg hDir, hPos, hStream, hRead]
    rfl
  · show scanned.header = p.header
    rw [hFrame]

/-- A volume with an empty root directory can be mounted. -/
theorem fat16Resolve_empty {header : FatHeader} (hHeader : fatHeaderAt disk.byte 0 = header)
    (hSignature : disk.byte 38 = fat16Signature) (hDir : dir ≠ 0)
    (hEmpty : disk.byte (512 * rootDirectoryStart header) = 0)
    (hDisk : rootDirectoryStart header + header.rootDirEntries.toNat * 32 / 512 < disk.sectors)
    (hFits : 512 * rootDirectoryStart header + header.rootDirEntries.toNat * 32 < 2147483648) :
    ∃ fuel p mem', fat16Resolve fuel disk dir mem = some (0, p, mem') ∧ p.header = header := by
  have hFirst : FirstEmpty disk (rootDirectoryStart header) 0 :=
    ⟨hEmpty, fun j hj => absurd hj (Nat.not_lt_zero j)⟩
  obtain ⟨fuel, p, mem', hRoot, hSame⟩ := @fat16GetRootDirectory_loads dir disk
    { fat16InitPrivate with header := header } 0 mem hDir hFirst (by decide) hDisk hFits
  refine ⟨fuel, p, mem', ?_, hSame⟩
  rw [fat16Resolve_eq, if_pos (by omega), if_neg (not_not.mpr hSignature), hHeader, hRoot]
  rfl

end Mounted

/-! ### The geometry -/

/-- The first sector of data cluster `cluster`, by the header of the volume. -/
def dataSector (header : FatHeader) (cluster : Int) : Int :=
  header.reservedSectors.toNat + header.fatCopies.toNat * header.sectorsPerFat.toNat +
    (32 * header.rootDirEntries.toNat + 511) / 512 +
    (cluster - 2) * header.sectorsPerCluster.toNat

/-- `sectors_big` in the boot sector. -/
def sectorsBig (disk : Disk) : Nat := le16 disk.byte 32 + 65536 * le16 disk.byte 34

/-- The position that a read of the chain at `cluster` seeks for byte `offset`,
unless it traps, fails or does not come back before. -/
def fat16SeekPosition (disk : Disk) (p : FatPrivate) (cluster offset : Int) : Option Int :=
  if sizeOfClusterBytes p = 0 then none
  else
    match fat16GetClusterForOffset disk p cluster offset with
    | none => none
    | some (clusterToUse, p') =>
        if clusterToUse < 0 then none
        else
          some (toInt (fat16ClusterToSector p' clusterToUse * liebeOsSectorSize +
            offset.tmod (sizeOfClusterBytes p)))

/-- No division traps, the position is the first byte of the cluster, and the
drive is asked for its first sector. -/
structure GeometryExact (disk : Disk) (p : FatPrivate) (cluster : Int) : Prop where
  seeks : fat16SeekPosition disk p cluster 0 = some (512 * dataSector p.header cluster)
  sector : ataSector ((512 * dataSector p.header cluster).tdiv liebeOsSectorSize) =
    some (dataSector p.header cluster).toNat

/-- The clusters have sectors, the entries of the root directory fill theirs,
and the cluster starts below the 2^31st byte. -/
def GeometryFits (header : FatHeader) (cluster : Int) : Prop :=
  0 < header.sectorsPerCluster.toNat ∧ header.rootDirEntries.toNat % 16 = 0 ∧
    dataSector header cluster < 4194304

instance (header : FatHeader) (cluster : Int) : Decidable (GeometryFits header cluster) :=
  inferInstanceAs (Decidable (_ ∧ _))

section Geometry

variable {fuel dir : Nat} {disk : Disk} {p : FatPrivate} {mem mem' : Memory} {cluster : Int}

/-- The reader seeks this position before anything else happens to its stream. Without one
it fails. -/
theorem fat16ReadInternalFromStream_seeks (stream : DiskStream) (offset total : Int) (out : Nat) :
    match fat16SeekPosition disk p cluster offset with
    | none => ∀ r, fat16ReadInternalFromStream disk p stream cluster offset total mem out = some r →
        r.res < 0 ∧ r.stream = stream ∧ r.mem = mem
    | some pos => ∃ p' next,
        fat16ReadInternalFromStream disk p stream cluster offset total mem out =
          if (diskstreamerSeek stream pos).1 ≠ 0 then
            some ⟨(diskstreamerSeek stream pos).1, p', (diskstreamerSeek stream pos).2, mem⟩
          else (diskstreamerRead disk (diskstreamerSeek stream pos).2 mem out
            (if total > sizeOfClusterBytes p then sizeOfClusterBytes p else total)).bind next := by
  rw [fat16SeekPosition, fat16ReadInternalFromStream]
  by_cases hNone : sizeOfClusterBytes p = 0
  · rw [if_pos hNone]
    intro r hRead
    dsimp only at hRead
    rw [if_pos hNone] at hRead
    cases hRead
  · rw [if_neg hNone]
    dsimp only
    rw [if_neg hNone]
    cases fat16GetClusterForOffset disk p cluster offset with
    | none => exact fun r hRead => absurd hRead (by simp)
    | some found =>
        obtain ⟨clusterToUse, p'⟩ := found
        dsimp only
        by_cases hFailed : clusterToUse < 0
        · rw [if_pos hFailed, if_pos hFailed]
          rintro r hRead
          obtain rfl := Option.some.inj hRead
          exact ⟨hFailed, rfl, rfl⟩
        · rw [if_neg hFailed, if_neg hFailed]
          let chunk := if total > sizeOfClusterBytes p then sizeOfClusterBytes p else total
          refine ⟨p', fun r =>
            if r.res ≠ 0 then some ⟨r.res, p', r.stream, r.mem⟩
            else if total - chunk > 0 then
              fat16ReadInternalFromStream disk p' r.stream cluster (toInt (offset + chunk))
                (total - chunk) r.mem (out + chunk.toNat)
            else some ⟨r.res, p', r.stream, r.mem⟩, ?_⟩
          congr 1
          cases diskstreamerRead disk _ mem out _ with
          | none => rfl
          | some r => rfl

/-- The first byte of a chain is looked for in its first cluster. -/
theorem fat16SeekPosition_zero (hCluster : 0 ≤ cluster) :
    fat16SeekPosition disk p cluster 0 =
      if p.header.sectorsPerCluster.toNat = 0 then none
      else some (toInt (fat16ClusterToSector p cluster * liebeOsSectorSize)) := by
  have hSize : sizeOfClusterBytes p = 0 ↔ p.header.sectorsPerCluster.toNat = 0 := by
    unfold sizeOfClusterBytes liebeOsSectorSize
    omega
  unfold fat16SeekPosition
  by_cases hNone : p.header.sectorsPerCluster.toNat = 0
  · rw [if_pos hNone, if_pos (hSize.mpr hNone)]
  · have hFound : fat16GetClusterForOffset disk p cluster 0 = some (cluster, p) := by
      rw [fat16GetClusterForOffset, if_neg (mt hSize.mp hNone), Int.zero_tdiv]
      rfl
    rw [if_neg hNone, if_neg (mt hSize.mp hNone), hFound]
    dsimp only
    rw [if_neg (Int.not_lt.mpr hCluster), Int.zero_tmod, Int.add_zero]

/-- Rounding the root directory down or wrapping the position gives a position
that is not the wanted one, even after another wrap. -/
theorem seek_exact_iff (start entries : Nat) {clusters : Int} (hClusters : 0 ≤ clusters) :
    toInt (toInt (start + (entries * 32 / 512 : Nat) + clusters) * liebeOsSectorSize) =
        512 * (start + (32 * entries + 511) / 512 + clusters) ↔
      entries % 16 = 0 ∧ start + (32 * (entries : Int) + 511) / 512 + clusters < 4194304 := by
  unfold toInt liebeOsSectorSize
  omega

/-- On a mounted volume the place of a cluster inside it is computed exactly
only under these conditions. -/
theorem fat16Mounted_geometry_iff (hMounted : fat16Resolve fuel disk dir mem = some (0, p, mem'))
    (hCluster : 2 ≤ cluster) (_hInside : dataSector p.header cluster < sectorsBig disk) :
    GeometryExact disk p cluster ↔ GeometryFits p.header cluster := by
  obtain ⟨_, hRoot⟩ := fat16Resolve_ok hMounted
  obtain ⟨_, _, _, _, _, _, _, _, hPrivate⟩ := fat16GetRootDirectory_ok hRoot
  have hEnd : p.rootDirectory.endingSectorPos = rootDirectoryStart p.header +
      (p.header.rootDirEntries.toNat * 32 / 512 : Nat) := by
    rw [hPrivate]
    rfl
  have hClusters : 0 ≤ (cluster - 2) * p.header.sectorsPerCluster.toNat :=
    Int.mul_nonneg (by omega) (Int.natCast_nonneg _)
  have hSector : dataSector p.header cluster = rootDirectoryStart p.header +
      (32 * p.header.rootDirEntries.toNat + 511) / 512 +
      (cluster - 2) * p.header.sectorsPerCluster.toNat := by
    rw [dataSector, rootDirectoryStart, Int.natCast_add, Int.natCast_mul]
    omega
  have hSeek := @fat16SeekPosition_zero disk p cluster (by omega)
  have hFound : fat16ClusterToSector p cluster = toInt (rootDirectoryStart p.header +
      (p.header.rootDirEntries.toNat * 32 / 512 : Nat) +
      (cluster - 2) * p.header.sectorsPerCluster.toNat) := by
    rw [fat16ClusterToSector, hEnd]
  have hExact := seek_exact_iff (rootDirectoryStart p.header) p.header.rootDirEntries.toNat hClusters
  rw [← hFound, ← hSector] at hExact
  constructor
  · rintro ⟨hSeeks, _⟩
    rw [hSeek] at hSeeks
    by_cases hNone : p.header.sectorsPerCluster.toNat = 0
    · rw [if_pos hNone] at hSeeks
      exact nomatch hSeeks
    · rw [if_neg hNone, Option.some.injEq] at hSeeks
      exact ⟨Nat.pos_of_ne_zero hNone, hExact.mp hSeeks⟩
  · rintro ⟨hSize, hFits⟩
    have hFront : 0 ≤ dataSector p.header cluster := by omega
    obtain ⟨sector, hNat⟩ := Int.eq_ofNat_of_zero_le hFront
    refine ⟨?_, ?_⟩
    · rw [hSeek, if_neg (Nat.ne_of_gt hSize), hExact.mpr hFits]
    · have hDivision : (512 * (sector : Int)).tdiv liebeOsSectorSize = sector :=
        Int.mul_tdiv_cancel_left _ (by decide)
      rw [hNat, hDivision, Int.toNat_natCast]
      exact ataSector_of_range (by omega)

end Geometry

/-! ### The shipped volume -/

/-- The header of `boot.asm`, up to its signature. -/
def bootHeader : List UInt8 :=
  [0xEB, 0x3C, 0x90, 0x4C, 0x49, 0x45, 0x42, 0x45, 0x4F, 0x53, 0x20, 0x00, 0x02, 0x80, 0x00, 0x02,
    0x02, 0x40, 0x00, 0x00, 0x00, 0xF8, 0x00, 0x01, 0x20, 0x00, 0x40, 0x00, 0x00, 0x00, 0x00, 0x00,
    0x94, 0x35, 0x77, 0x00, 0x80, 0x00, 0x29]

/-- A drive of the size that this header declares, with nothing else on it. -/
def bootDisk : Disk := ⟨0x773594, fun i => bootHeader.getD i 0⟩

theorem bootDisk_mounts : ∃ fuel p mem',
    fat16Resolve fuel bootDisk 0x1000000 (fun _ => 0) = some (0, p, mem') ∧
      p.header = ⟨0x80, 0x200, 2, 0x40, 0x100⟩ :=
  fat16Resolve_empty rfl (by decide) (by decide) (by decide) (by decide) (by decide)

theorem fat16Mounted_geometry_boot :
    ∃ fuel p mem', fat16Resolve fuel bootDisk 0x1000000 (fun _ => 0) = some (0, p, mem') ∧
      GeometryExact bootDisk p 32761 := by
  obtain ⟨fuel, p, mem', hMounted, hHeader⟩ := bootDisk_mounts
  refine ⟨fuel, p, mem', hMounted, (fat16Mounted_geometry_iff hMounted (by decide) ?_).mpr ?_⟩
  · rw [hHeader]
    decide
  · rw [hHeader]
    decide

/-- Cluster 32762 of the shipped volume starts behind the 2^31st byte. -/
theorem fat16Mounted_geometry_late :
    ¬ ∀ (fuel dir : Nat) (disk : Disk) (mem : Memory) (p : FatPrivate) (mem' : Memory)
      (cluster : Int), fat16Resolve fuel disk dir mem = some (0, p, mem') → 2 ≤ cluster →
        dataSector p.header cluster < sectorsBig disk → GeometryExact disk p cluster := by
  intro hClaim
  obtain ⟨fuel, p, mem', hMounted, hHeader⟩ := bootDisk_mounts
  have hInside : dataSector p.header 32762 < sectorsBig bootDisk := by
    rw [hHeader]
    decide
  have hSeeks := (hClaim _ _ _ _ p mem' 32762 hMounted (by decide) hInside).seeks
  rw [fat16SeekPosition_zero (by decide), hHeader] at hSeeks
  have hLow := toInt_lt (fat16ClusterToSector p 32762 * liebeOsSectorSize)
  rw [if_neg (by decide), Option.some.injEq] at hSeeks
  rw [hSeeks] at hLow
  exact absurd hLow (by decide)

end LiebeOS
