import LiebeOS.Fs.Fat16

/-! The chain of clusters that the file allocation table describes, and the
walk along it. The walk compares the 16-bit entries with the end and bad marks
of 12-bit tables. -/
namespace LiebeOS

open MachineInt Bytes

/-! ### One table entry -/

/-- Byte position of the table entry of `cluster`. -/
def fatPosition (header : FatHeader) (cluster : Int) : Int :=
  512 * header.reservedSectors.toNat + 2 * cluster

/-- The 16-bit entry itself. -/
def fatEntry (disk : Disk) (header : FatHeader) (cluster : Int) : Nat :=
  le16 disk.byte (fatPosition header cluster).toNat

/-- The drive has the sector that holds the position behind the entry, and
that position is still a signed 32-bit number. -/
def EntryReadable (disk : Disk) (header : FatHeader) (cluster : Int) : Prop :=
  (fatPosition header cluster + 2) / 512 < disk.sectors ∧
    fatPosition header cluster + 2 < 2147483648

instance (disk : Disk) (header : FatHeader) (cluster : Int) :
    Decidable (EntryReadable disk header cluster) :=
  inferInstanceAs (Decidable (_ ∧ _))

def PositionFits (header : FatHeader) (cluster : Int) : Prop :=
  0 ≤ fatPosition header cluster ∧ fatPosition header cluster < 2147483648

theorem fatEntry_lt (disk : Disk) (header : FatHeader) (cluster : Int) :
    fatEntry disk header cluster < 65536 :=
  le16_lt _ _

theorem positionFits_of_word (header : FatHeader) {cluster : Int} (hLow : 0 ≤ cluster)
    (hHigh : cluster < 65536) : PositionFits header cluster := by
  have hReserved := header.reservedSectors.toNat_lt
  unfold PositionFits fatPosition
  omega

/-- The last two bytes of a sector are read together with nothing of the
following sector, which the drive must have. -/
theorem diskstreamerRead_sector_end {disk : Disk} {pos : Nat} (mem : Memory) (out : Nat)
    (hOffset : pos % 512 = 510) (hFits : pos < 2147483648) :
    diskstreamerRead disk ⟨pos, .diskObj⟩ mem out 2 =
      if (pos + 2) / 512 < disk.sectors ∧ pos + 2 < 2147483648 then
        some ⟨0, ⟨(pos + 2 : Nat) - (510 : Nat), .diskObj⟩,
          copyLoop (fun i => disk.byte (512 * (pos / 512) + i)) 2 510 out mem⟩
      else none := by
  rw [diskstreamerRead_eq disk pos mem out _ hFits, hOffset]
  by_cases hExists : pos / 512 < disk.sectors
  · rw [if_pos hExists, if_pos (by decide), show (2 : Int) - 512 = -((510 : Nat) : Int) by decide]
    by_cases hWrap : pos + 2 < 2147483648
    · have hBoundary : toInt ((pos : Int) + (512 - 510 : Nat)) = (512 * (pos / 512 + 1) : Nat) := by
        rw [toInt_of_range (by omega) (by omega)]
        omega
      have hBack : toInt ((512 * (pos / 512 + 1) : Nat) - (510 : Nat)) =
          (pos + 2 : Nat) - (510 : Nat) := by
        rw [toInt_of_range (by omega) (by omega)]
        omega
      rw [hBoundary, diskstreamerRead_negative _ _ 510 (by omega) (by omega), hBack]
      by_cases hNext : pos / 512 + 1 < disk.sectors
      · rw [if_pos hNext, if_pos ⟨by omega, hWrap⟩]
      · rw [if_neg hNext, if_neg fun h => hNext (by omega)]
    · have hBoundary : toInt ((pos : Int) + (512 - 510 : Nat)) = -((512 * 4194304 : Nat) : Int) := by
        unfold toInt
        omega
      rw [hBoundary, diskstreamerRead_wrapped (by omega) (by omega), if_neg fun h => hWrap h.2]
  · rw [if_neg hExists, if_neg fun h => hExists (by omega)]

/-- Two bytes at an even position. -/
theorem diskstreamerRead_entry (disk : Disk) {pos : Nat} (mem : Memory) (out : Nat)
    (hEven : pos % 2 = 0) (hFits : pos < 2147483648) :
    if (pos + 2) / 512 < disk.sectors ∧ pos + 2 < 2147483648 then
      ∃ stream mem', diskstreamerRead disk ⟨pos, .diskObj⟩ mem out 2 = some ⟨0, stream, mem'⟩ ∧
        le16 mem' out = le16 disk.byte pos
    else diskstreamerRead disk ⟨pos, .diskObj⟩ mem out 2 = none := by
  by_cases hInside : pos % 512 + 2 < 512
  · by_cases hExists : pos / 512 < disk.sectors
    · obtain ⟨mem', hRead, hFilled⟩ := diskstreamerRead_short mem out hInside hExists (by omega)
      rw [if_pos (by omega)]
      refine ⟨_, mem', hRead, ?_⟩
      rw [le16, ← Nat.add_zero out, hFilled.1 0 (by omega), Nat.add_zero, hFilled.1 1 (by omega)]
      rfl
    · rw [if_neg (by omega), diskstreamerRead_eq disk pos mem out _ hFits, if_neg hExists]
  · have hOffset : pos % 512 = 510 := by omega
    rw [diskstreamerRead_sector_end mem out hOffset hFits]
    by_cases hReadable : (pos + 2) / 512 < disk.sectors ∧ pos + 2 < 2147483648
    · have hFilled := copyLoop_filled (fun i => disk.byte (512 * (pos / 512) + i)) 2 510 out mem
      have hLow := hFilled.1 0 (by omega)
      have hHigh := hFilled.1 1 (by omega)
      simp only [Nat.add_zero, show 512 * (pos / 512) + 510 = pos by omega] at hLow
      simp only [show 512 * (pos / 512) + (510 + 1) = pos + 1 by omega] at hHigh
      rw [if_pos hReadable, if_pos hReadable]
      exact ⟨_, _, rfl, by rw [le16, hLow, hHigh, le16]⟩
    · rw [if_neg hReadable, if_neg hReadable]

/-- Reading an entry changes nothing but the position of the table stream. -/
theorem fat16GetFatEntry_eq (disk : Disk) (p : FatPrivate) {cluster : Int}
    (hFits : PositionFits p.header cluster) :
    if EntryReadable disk p.header cluster then
      ∃ stream, fat16GetFatEntry disk p cluster =
        some ((fatEntry disk p.header cluster : Int), { p with fatReadStream := stream })
    else fat16GetFatEntry disk p cluster = none := by
  obtain ⟨hLow, hHigh⟩ := hFits
  obtain ⟨pos, hPos⟩ := Int.eq_ofNat_of_zero_le hLow
  have hReserved := p.header.reservedSectors.toNat_lt
  have hSeek : toInt (toWord (fat16GetFirstFatSector p * liebeOsSectorSize) +
      cluster * liebeOsFat16EntrySize) = pos := by
    rw [toWord_of_range (by unfold fat16GetFirstFatSector liebeOsSectorSize; omega)
      (by unfold fat16GetFirstFatSector liebeOsSectorSize; omega)]
    unfold fatPosition at hPos hHigh
    unfold fat16GetFirstFatSector liebeOsSectorSize liebeOsFat16EntrySize
    rw [toInt_of_range (by omega) (by omega)]
    omega
  have hEven : pos % 2 = 0 := by
    unfold fatPosition at hPos
    omega
  have hRead := diskstreamerRead_entry disk (fun _ => 0) 0 hEven (by omega)
  have hSame : EntryReadable disk p.header cluster ↔
      (pos + 2) / 512 < disk.sectors ∧ pos + 2 < 2147483648 := by
    unfold EntryReadable
    omega
  have hDisk : p.fatReadStream.disk = .diskObj := by
    cases p.fatReadStream.disk
    rfl
  simp only [fat16GetFatEntry, hSeek, diskstreamerSeek, hDisk, Int.lt_irrefl, if_false]
  simp only [liebeOsFat16EntrySize]
  by_cases hReadable : EntryReadable disk p.header cluster
  · rw [if_pos (hSame.mp hReadable)] at hRead
    obtain ⟨stream, mem', hRead, hEntry⟩ := hRead
    rw [if_pos hReadable]
    refine ⟨stream, ?_⟩
    simp only [hRead, Int.lt_irrefl, if_false, hEntry, fatEntry, hPos, Int.toNat_natCast]
  · rw [if_neg (fun h => hReadable (hSame.mpr h))] at hRead
    rw [if_neg hReadable, hRead]

/-! ### The walk -/

/-- The cluster reached from `cluster` after following the table `n` times. -/
def fatWalk (disk : Disk) (header : FatHeader) : Int → Nat → Int
  | cluster, 0 => cluster
  | cluster, n + 1 => fatWalk disk header (fatEntry disk header cluster) n

/-- The next cluster of the chain is the table entry of the one before. -/
theorem fatWalk_succ (disk : Disk) (header : FatHeader) (cluster : Int) (n : Nat) :
    fatWalk disk header cluster (n + 1) = fatEntry disk header (fatWalk disk header cluster n) := by
  induction n generalizing cluster with
  | zero => rfl
  | succ n ih => exact ih (fatEntry disk header cluster)

/-- Every entry up to step `n` can be read and is none of the marks. -/
def WalkPasses (disk : Disk) (header : FatHeader) (cluster : Int) (n : Nat) : Prop :=
  ∀ i < n, EntryReadable disk header (fatWalk disk header cluster i) ∧
    fat16EntryStops (fatWalk disk header cluster (i + 1)) = false

/-- Some entry within `n` steps is one of the marks, and the entries up to it
can be read. -/
def WalkStops (disk : Disk) (header : FatHeader) (cluster : Int) (n : Nat) : Prop :=
  ∃ j < n, (∀ i ≤ j, EntryReadable disk header (fatWalk disk header cluster i)) ∧
    fat16EntryStops (fatWalk disk header cluster (j + 1)) = true

instance (disk : Disk) (header : FatHeader) (cluster : Int) (n : Nat) :
    Decidable (WalkPasses disk header cluster n) :=
  inferInstanceAs (Decidable (∀ i < n, _))

theorem WalkPasses.not_stops {disk : Disk} {header : FatHeader} {cluster : Int} {n : Nat}
    (h : WalkPasses disk header cluster n) : ¬ WalkStops disk header cluster n := by
  rintro ⟨j, hj, _, hStop⟩
  rw [(h j hj).2] at hStop
  exact absurd hStop (by decide)

theorem walkPasses_succ {disk : Disk} {header : FatHeader} {cluster : Int} {n : Nat}
    (hReadable : EntryReadable disk header cluster)
    (hGoesOn : fat16EntryStops (fatEntry disk header cluster) = false) :
    WalkPasses disk header cluster (n + 1) ↔
      WalkPasses disk header (fatEntry disk header cluster) n := by
  constructor
  · exact fun h i hi => h (i + 1) (by omega)
  · intro h i hi
    cases i with
    | zero => exact ⟨hReadable, hGoesOn⟩
    | succ i => exact h i (by omega)

theorem walkStops_succ {disk : Disk} {header : FatHeader} {cluster : Int} {n : Nat}
    (hReadable : EntryReadable disk header cluster)
    (hGoesOn : fat16EntryStops (fatEntry disk header cluster) = false) :
    WalkStops disk header cluster (n + 1) ↔
      WalkStops disk header (fatEntry disk header cluster) n := by
  constructor
  · rintro ⟨j, hj, hBefore, hStop⟩
    cases j with
    | zero => exact absurd hStop (by rw [fatWalk, fatWalk, hGoesOn]; decide)
    | succ j => exact ⟨j, by omega, fun i hi => hBefore (i + 1) (by omega), hStop⟩
  · rintro ⟨j, hj, hBefore, hStop⟩
    refine ⟨j + 1, by omega, fun i hi => ?_, hStop⟩
    cases i with
    | zero => exact hReadable
    | succ i => exact hBefore i (by omega)

/-- The three ways in which the loop ends: at the cluster it was sent for, with
an error at a mark, or waiting for a sector that does not come. -/
theorem fat16ClusterLoop_cases (disk : Disk) (n : Nat) (p : FatPrivate) (cluster : Int)
    (hFits : 0 < n → PositionFits p.header cluster) :
    (WalkPasses disk p.header cluster n ∧ ∃ stream, fat16ClusterLoop disk n p cluster =
        some (fatWalk disk p.header cluster n, { p with fatReadStream := stream })) ∨
      (WalkStops disk p.header cluster n ∧ ∃ stream, fat16ClusterLoop disk n p cluster =
        some (-eio, { p with fatReadStream := stream })) ∨
      (¬ WalkPasses disk p.header cluster n ∧ ¬ WalkStops disk p.header cluster n ∧
        fat16ClusterLoop disk n p cluster = none) := by
  induction n generalizing p cluster with
  | zero => exact Or.inl ⟨fun i hi => absurd hi (Nat.not_lt_zero i), p.fatReadStream, rfl⟩
  | succ n ih =>
      have hEntry := fat16GetFatEntry_eq disk p (hFits (Nat.succ_pos n))
      rw [fat16ClusterLoop]
      by_cases hReadable : EntryReadable disk p.header cluster
      · rw [if_pos hReadable] at hEntry
        obtain ⟨stream, hEntry⟩ := hEntry
        simp only [hEntry]
        by_cases hStop : fat16EntryStops (fatEntry disk p.header cluster) = true
        · rw [if_pos hStop]
          refine Or.inr (Or.inl ⟨⟨0, Nat.succ_pos n, fun i hi => ?_, hStop⟩, stream, rfl⟩)
          obtain rfl : i = 0 := by omega
          exact hReadable
        · rw [if_neg hStop]
          have hGoesOn := Bool.eq_false_iff.mpr hStop
          have hWord := fatEntry_lt disk p.header cluster
          rw [walkPasses_succ hReadable hGoesOn, walkStops_succ hReadable hGoesOn, fatWalk]
          exact ih { p with fatReadStream := stream } _ fun _ =>
            positionFits_of_word _ (by omega) (by omega)
      · rw [if_neg hReadable] at hEntry
        rw [hEntry]
        refine Or.inr (Or.inr ⟨fun h => hReadable (h 0 (Nat.succ_pos n)).1, ?_, rfl⟩)
        rintro ⟨j, _, hBefore, _⟩
        exact hReadable (hBefore 0 (Nat.zero_le j))

/-! ### Files -/

/-- The file that starts at `cluster` has `m` clusters: `m` data clusters are
linked from there, and the last of them holds an end mark. -/
def IsChain (disk : Disk) (header : FatHeader) (cluster : Int) (m : Nat) : Prop :=
  0 < m ∧ (∀ i < m, 2 ≤ fatWalk disk header cluster i ∧ fatWalk disk header cluster i ≤ 0xFFEF) ∧
    0xFFF8 ≤ fatWalk disk header cluster m ∧ fatWalk disk header cluster m ≤ 0xFFFF

/-- A link before step `k` is free or bad. -/
def ChainBroken (disk : Disk) (header : FatHeader) (cluster : Int) (k : Nat) : Prop :=
  ∃ i < k, fatWalk disk header cluster (i + 1) = 0 ∨ fatWalk disk header cluster (i + 1) = 0xFFF7

def ReturnsCluster (disk : Disk) (p : FatPrivate) (cluster offset res : Int) : Prop :=
  ∃ p', fat16GetClusterForOffset disk p cluster offset = some (res, p')

def ReturnsError (disk : Disk) (p : FatPrivate) (cluster offset : Int) : Prop :=
  ∃ res < 0, ReturnsCluster disk p cluster offset res

/-- The contract of the walk: cluster number `offset / cluster size` of the
file, and an error behind the file's end or a broken link. -/
def FindsCluster (disk : Disk) (p : FatPrivate) (cluster : Int) (offset : Nat) : Prop :=
  let k := offset / (512 * p.header.sectorsPerCluster.toNat)
  (∀ m, IsChain disk p.header cluster m →
    (k < m → ReturnsCluster disk p cluster offset (fatWalk disk p.header cluster k)) ∧
    (m ≤ k → ReturnsError disk p cluster offset)) ∧
  (ChainBroken disk p.header cluster k → ReturnsError disk p cluster offset)

/-- Up to the wanted cluster of a file no cluster number is one of the marks
the walk looks for; where the file has ended or is broken before step `k`, one
of these marks has been met by then; and the entries read are on the drive. -/
def WalkFits (disk : Disk) (header : FatHeader) (cluster : Int) (k : Nat) : Prop :=
  (∀ m, IsChain disk header cluster m → k < m → WalkPasses disk header cluster k) ∧
    ((∃ m ≤ k, IsChain disk header cluster m) ∨ ChainBroken disk header cluster k →
      WalkStops disk header cluster k)

/-- What the function returns on a volume with clusters. -/
theorem fat16GetClusterForOffset_cases (disk : Disk) (p : FatPrivate) (cluster : Int)
    (offset : Nat) (hSize : 0 < p.header.sectorsPerCluster)
    (hFits : 0 < offset / (512 * p.header.sectorsPerCluster.toNat) →
      PositionFits p.header cluster) :
    let k := offset / (512 * p.header.sectorsPerCluster.toNat)
    (WalkPasses disk p.header cluster k ∧ ∃ stream,
        fat16GetClusterForOffset disk p cluster offset =
          some (fatWalk disk p.header cluster k, { p with fatReadStream := stream })) ∨
      (WalkStops disk p.header cluster k ∧ ∃ stream,
        fat16GetClusterForOffset disk p cluster offset =
          some (-eio, { p with fatReadStream := stream })) ∨
      (¬ WalkPasses disk p.header cluster k ∧ ¬ WalkStops disk p.header cluster k ∧
        fat16GetClusterForOffset disk p cluster offset = none) := by
  intro k
  have hPositive : 0 < p.header.sectorsPerCluster.toNat := UInt8.lt_iff_toNat_lt.mp hSize
  have hBytes : sizeOfClusterBytes p = (512 * p.header.sectorsPerCluster.toNat : Nat) := by
    unfold sizeOfClusterBytes liebeOsSectorSize
    omega
  have hAhead : ((offset : Int).tdiv (sizeOfClusterBytes p)).toNat = k := by
    rw [hBytes, ← Int.ofNat_tdiv, Int.toNat_natCast]
  rw [fat16GetClusterForOffset, if_neg (by omega), hAhead]
  exact fat16ClusterLoop_cases disk k p cluster hFits

theorem fatWalk_nonneg (disk : Disk) (header : FatHeader) {cluster : Int} (hStart : 0 ≤ cluster)
    (n : Nat) : 0 ≤ fatWalk disk header cluster n := by
  cases n with
  | zero => exact hStart
  | succ n => rw [fatWalk_succ]; omega

theorem returnsCluster_iff (disk : Disk) (p : FatPrivate) {cluster : Int} (offset : Nat)
    (hSize : 0 < p.header.sectorsPerCluster) (hStart : 2 ≤ cluster) (hData : cluster ≤ 0xFFEF) :
    ReturnsCluster disk p cluster offset (fatWalk disk p.header cluster
        (offset / (512 * p.header.sectorsPerCluster.toNat))) ↔
      WalkPasses disk p.header cluster (offset / (512 * p.header.sectorsPerCluster.toNat)) := by
  have hCases := fat16GetClusterForOffset_cases disk p cluster offset hSize
    fun _ => positionFits_of_word _ (by omega) (by omega)
  generalize offset / (512 * p.header.sectorsPerCluster.toNat) = k at hCases ⊢
  have hReached := fatWalk_nonneg disk p.header (show 0 ≤ cluster by omega) k
  rcases hCases with ⟨hPasses, stream, hResult⟩ | ⟨hStops, stream, hResult⟩ | ⟨hPasses, _, hResult⟩
  · exact ⟨fun _ => hPasses, fun _ => ⟨_, hResult⟩⟩
  · refine ⟨fun ⟨p', hReturned⟩ => ?_, fun hPasses => absurd hStops hPasses.not_stops⟩
    rw [hResult, Option.some.injEq, Prod.mk.injEq] at hReturned
    unfold eio at hReturned
    omega
  · refine ⟨fun ⟨p', hReturned⟩ => ?_, fun h => absurd h hPasses⟩
    rw [hResult] at hReturned
    exact absurd hReturned (by simp)

theorem returnsError_iff (disk : Disk) (p : FatPrivate) {cluster : Int} (offset : Nat)
    (hSize : 0 < p.header.sectorsPerCluster) (hStart : 2 ≤ cluster) (hData : cluster ≤ 0xFFEF) :
    ReturnsError disk p cluster offset ↔
      WalkStops disk p.header cluster (offset / (512 * p.header.sectorsPerCluster.toNat)) := by
  have hCases := fat16GetClusterForOffset_cases disk p cluster offset hSize
    fun _ => positionFits_of_word _ (by omega) (by omega)
  generalize offset / (512 * p.header.sectorsPerCluster.toNat) = k at hCases ⊢
  have hReached := fatWalk_nonneg disk p.header (show 0 ≤ cluster by omega) k
  rcases hCases with ⟨hPasses, stream, hResult⟩ | ⟨hStops, stream, hResult⟩ | ⟨_, hStops, hResult⟩
  · refine ⟨fun ⟨res, hNegative, p', hReturned⟩ => ?_, fun hStops => absurd hStops hPasses.not_stops⟩
    rw [hResult, Option.some.injEq, Prod.mk.injEq] at hReturned
    omega
  · exact ⟨fun _ => hStops, fun _ => ⟨-eio, by decide, _, hResult⟩⟩
  · refine ⟨fun ⟨res, _, p', hReturned⟩ => ?_, fun h => absurd h hStops⟩
    rw [hResult] at hReturned
    exact absurd hReturned (by simp)

/-- From every data cluster and for every offset the walk keeps its contract
exactly when it fits. -/
theorem fat16GetClusterForOffset_iff (disk : Disk) (p : FatPrivate) (cluster : Int) (offset : Nat)
    (hSize : 0 < p.header.sectorsPerCluster) (hStart : 2 ≤ cluster) (hData : cluster ≤ 0xFFEF) :
    FindsCluster disk p cluster offset ↔
      WalkFits disk p.header cluster (offset / (512 * p.header.sectorsPerCluster.toNat)) := by
  have hCluster := returnsCluster_iff disk p offset hSize hStart hData
  have hError := returnsError_iff disk p offset hSize hStart hData
  simp only [FindsCluster, WalkFits, hCluster, hError]
  constructor
  · rintro ⟨hFile, hBroken⟩
    refine ⟨fun m hChain => (hFile m hChain).1, ?_⟩
    rintro (⟨m, hEnd, hChain⟩ | hLink)
    · exact (hFile m hChain).2 hEnd
    · exact hBroken hLink
  · rintro ⟨hInside, hBehind⟩
    exact ⟨fun m hChain => ⟨hInside m hChain, fun hEnd => hBehind (Or.inl ⟨m, hEnd, hChain⟩)⟩,
      fun hLink => hBehind (Or.inr hLink)⟩

/-- In the two-cluster file 2, 3 the walk finds the second cluster, and behind
the end of the file it takes the end mark for a cluster. -/
theorem fat16GetClusterForOffset_iff_file :
    let disk : Disk := ⟨2, fun i => if i = 4 then 3 else if i = 6 then 0xF8 else
      if i = 7 then 0xFF else 0⟩
    let stream : DiskStream := ⟨0, .diskObj⟩
    let p : FatPrivate := ⟨⟨1, 0, 1, 16, 1⟩, ⟨0, 1, 2⟩, stream, stream, stream⟩
    FindsCluster disk p 2 512 ∧ ¬ FindsCluster disk p 2 1024 := by
  intro disk stream p
  rw [fat16GetClusterForOffset_iff disk p 2 512 (by decide) (by decide) (by decide),
    fat16GetClusterForOffset_iff disk p 2 1024 (by decide) (by decide) (by decide)]
  have hChain : IsChain disk p.header 2 2 := by unfold IsChain; decide
  have hOne : 512 / (512 * p.header.sectorsPerCluster.toNat) = 1 := by decide
  refine ⟨⟨fun m _ _ => by decide, ?_⟩, fun h => ?_⟩
  · rintro (⟨m, hEnd, hPositive, _, hMark, _⟩ | ⟨i, hi, hLink⟩)
    · obtain rfl : m = 1 := by omega
      exact absurd hMark (by decide)
    · obtain rfl : i = 0 := by omega
      exact absurd hLink (by decide)
  · obtain ⟨j, hj, _, hStop⟩ := h.2 (Or.inl ⟨2, by decide, hChain⟩)
    exact absurd hStop (by revert j; decide)

/-- Behind the end of a file of one cluster the walk returns the end mark
`0xFFF8` as if it were a cluster. -/
theorem fat16GetClusterForOffset_end_mark :
    ¬ ∀ (disk : Disk) (p : FatPrivate) (cluster : Int) (offset : Nat),
      0 < p.header.sectorsPerCluster → 2 ≤ cluster → cluster ≤ 0xFFEF →
      FindsCluster disk p cluster offset := by
  intro hClaim
  have hFinds := hClaim ⟨2, fun i => if i = 4 then 0xF8 else if i = 5 then 0xFF else 0⟩
    ⟨⟨1, 0, 1, 16, 1⟩, ⟨0, 1, 2⟩, ⟨0, .diskObj⟩, ⟨0, .diskObj⟩, ⟨0, .diskObj⟩⟩ 2 512
    (by decide) (by decide) (by decide)
  have hStops := (returnsError_iff _ _ _ (by decide) (by decide) (by decide)).mp
    ((hFinds.1 1 (by unfold IsChain; decide)).2 (by decide))
  obtain ⟨j, hj, _, hStop⟩ := hStops
  obtain rfl : j = 0 := by simpa using hj
  exact absurd hStop (by decide)

end LiebeOS
