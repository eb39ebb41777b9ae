import LiebeOS.Disk.StreamExact
import LiebeOS.Fs.ClusterChain

/-! Reading a file cluster by cluster. Each chunk looks its cluster up from the
first one again, and then reads it from the start of its first sector. -/
namespace LiebeOS

open MachineInt Bytes

structure FileRead where
  res : Int
  fsPrivate : FatPrivate
  stream : DiskStream
  mem : Memory

/-- `total` bytes from byte `offset` of the file to address `out`, at most one
cluster a call. The remainder `offset % size` traps like the division before. -/
def fat16ReadInternalFromStream (disk : Disk) (p : FatPrivate) (stream : DiskStream)
    (cluster offset total : Int) (mem : Memory) (out : Nat) : Option FileRead :=
  let size := sizeOfClusterBytes p
  if size = 0 then none
  else
    match fat16GetClusterForOffset disk p cluster offset with
    | none => none
    | some (clusterToUse, p') =>
        if clusterToUse < 0 then some ⟨clusterToUse, p', stream, mem⟩
        else
          let offsetFromCluster := offset.tmod size
          let startingSector := fat16ClusterToSector p' clusterToUse
          let startingPos := toInt (startingSector * liebeOsSectorSize + offsetFromCluster)
          let totalToRead := if total > size then size else total
          let (res, stream) := diskstreamerSeek stream startingPos
          if res ≠ 0 then some ⟨res, p', stream, mem⟩
          else
            match diskstreamerRead disk stream mem out totalToRead with
            | none => none
            | some r =>
                if r.res ≠ 0 then some ⟨r.res, p', r.stream, r.mem⟩
                else if total - totalToRead > 0 then
                  fat16ReadInternalFromStream disk p' r.stream cluster
                    (toInt (offset + totalToRead)) (total - totalToRead) r.mem
                    (out + totalToRead.toNat)
                else some ⟨r.res, p', r.stream, r.mem⟩
termination_by total.toNat
decreasing_by
  have hSize : 0 ≤ sizeOfClusterBytes p := by
    unfold sizeOfClusterBytes liebeOsSectorSize
    omega
  rename_i hDivides _ _ hMore
  simp only [totalToRead, size] at hDivides hMore ⊢
  split at hMore <;> split <;> omega

def fat16ReadInternal (disk : Disk) (p : FatPrivate) (startingCluster offset total : Int)
    (mem : Memory) (out : Nat) : Option FileRead :=
  (fat16ReadInternalFromStream disk p p.clusterReadStream startingCluster offset total mem out).map
    fun r => { r with fsPrivate := { r.fsPrivate with clusterReadStream := r.stream } }

/-! ### One chunk -/

/-- Bytes of one cluster, as a natural number. -/
def clusterBytes (header : FatHeader) : Nat := 512 * header.sectorsPerCluster.toNat

theorem sizeOfClusterBytes_eq (p : FatPrivate) :
    sizeOfClusterBytes p = clusterBytes p.header := by
  unfold sizeOfClusterBytes liebeOsSectorSize clusterBytes
  omega

theorem clusterBytes_pos {header : FatHeader} (hSize : 0 < header.sectorsPerCluster) :
    0 < clusterBytes header := by
  have hPositive : 0 < header.sectorsPerCluster.toNat := UInt8.lt_iff_toNat_lt.mp hSize
  unfold clusterBytes
  omega

/-- Every chunk starts at the beginning of its cluster. -/
theorem tmod_clusterBytes (j : Nat) (header : FatHeader) :
    ((j * clusterBytes header : Nat) : Int).tmod (clusterBytes header) = 0 := by
  rw [← Int.ofNat_tmod, Nat.mul_mod_left]
  rfl

/-- Chunk `j` of a read whose first `j` links can be followed: the next bytes
of cluster `j` are stored, and what remains is left to a further call. -/
theorem fat16ReadInternalFromStream_chunk {disk : Disk} {p : FatPrivate} {cluster : Int}
    {j sector total : Nat} (stream : DiskStream) (mem : Memory) (out : Nat)
    (hSize : 0 < p.header.sectorsPerCluster)
    (hWalk : WalkPasses disk p.header cluster j) (hStart : 0 < j → PositionFits p.header cluster)
    (hData : 0 ≤ fatWalk disk p.header cluster j)
    (hSector : fat16ClusterToSector p (fatWalk disk p.header cluster j) = sector)
    (hExists : (512 * sector + min (clusterBytes p.header) total) / 512 < disk.sectors)
    (hFits : 512 * sector + min (clusterBytes p.header) total < 2147483648) :
    ∃ fatStream stream' mem',
      Filled mem mem' out (min (clusterBytes p.header) total)
        (fun i => disk.byte (512 * sector + i)) ∧
      fat16ReadInternalFromStream disk p stream cluster (j * clusterBytes p.header : Nat) total
          mem out =
        if clusterBytes p.header < total then
          fat16ReadInternalFromStream disk { p with fatReadStream := fatStream } stream' cluster
            (toInt ((j + 1) * clusterBytes p.header : Nat)) (total - clusterBytes p.header : Nat) mem'
            (out + clusterBytes p.header)
        else some ⟨0, { p with fatReadStream := fatStream }, stream', mem'⟩ := by
  have hBytes := sizeOfClusterBytes_eq p
  have hSome := clusterBytes_pos hSize
  have hIndex : j * clusterBytes p.header / clusterBytes p.header = j :=
    Nat.mul_div_cancel j hSome
  have hCluster : ∃ fatStream, fat16GetClusterForOffset disk p cluster
      (j * clusterBytes p.header : Nat) =
        some (fatWalk disk p.header cluster j, { p with fatReadStream := fatStream }) := by
    have hCases := fat16GetClusterForOffset_cases disk p cluster (j * clusterBytes p.header) hSize
      (by rwa [← clusterBytes, hIndex])
    rw [← clusterBytes, hIndex] at hCases
    rcases hCases with ⟨_, hFound⟩ | ⟨hStops, _⟩ | ⟨hNot, _⟩
    · exact hFound
    · exact absurd hStops hWalk.not_stops
    · exact absurd hWalk hNot
  obtain ⟨fatStream, hCluster⟩ := hCluster
  obtain ⟨mem', hRead, hFilled⟩ := diskstreamerRead_aligned mem out hExists hFits
  have hOffset := tmod_clusterBytes j p.header
  have hPos : toInt ((sector : Int) * liebeOsSectorSize + 0) = (512 * sector : Nat) := by
    unfold liebeOsSectorSize
    rw [toInt_of_range (by omega) (by omega)]
    omega
  have hCount : (if (total : Int) > clusterBytes p.header then (clusterBytes p.header : Int)
      else total) = (min (clusterBytes p.header) total : Nat) := by
    split <;> omega
  obtain ⟨pos, disk'⟩ := stream
  cases disk'
  refine ⟨fatStream, ⟨(512 * sector + min (clusterBytes p.header) total : Nat), .diskObj⟩, mem',
    hFilled, ?_⟩
  rw [fat16ReadInternalFromStream]
  have hSectorAfter : fat16ClusterToSector { p with fatReadStream := fatStream }
      (fatWalk disk p.header cluster j) = sector := hSector
  simp only [hBytes, if_neg (show ¬ (clusterBytes p.header : Int) = 0 by omega), hCluster,
    if_neg (Int.not_lt.mpr hData), hSectorAfter, hOffset, hPos, hCount,
    diskstreamerSeek, ne_eq, not_true_eq_false, if_false, hRead, Int.toNat_natCast]
  by_cases hMore : clusterBytes p.header < total
  · have hWhole : min (clusterBytes p.header) total = clusterBytes p.header := by omega
    have hRest : (total : Int) - clusterBytes p.header = (total - clusterBytes p.header : Nat) := by
      omega
    have hNext : ((j * clusterBytes p.header : Nat) : Int) + clusterBytes p.header =
        ((j + 1) * clusterBytes p.header : Nat) := by
      rw [Nat.succ_mul]
      omega
    rw [if_pos (by omega), if_pos hMore, hWhole, hRest, hNext]
  · rw [if_neg (by omega), if_neg hMore]

/-- What the success of a call says about its first chunk: the walk reached a
cluster, and the drive has the sectors that were read. -/
theorem fat16ReadInternalFromStream_ok {disk : Disk} {p : FatPrivate} {cluster : Int}
    {j sector total : Nat} {stream : DiskStream} {mem : Memory} {out : Nat} {r : FileRead}
    (hSize : 0 < p.header.sectorsPerCluster)
    (hStart : 0 < j → PositionFits p.header cluster)
    (hSector : fat16ClusterToSector p (fatWalk disk p.header cluster j) = sector)
    (hPos : 512 * sector < 2147483648)
    (h : fat16ReadInternalFromStream disk p stream cluster (j * clusterBytes p.header : Nat) total
      mem out = some r) (hOk : r.res = 0) :
    WalkPasses disk p.header cluster j ∧ 0 ≤ fatWalk disk p.header cluster j ∧
      (512 * sector + min (clusterBytes p.header) total) / 512 < disk.sectors ∧
      512 * sector + min (clusterBytes p.header) total < 2147483648 := by
  have hBytes := sizeOfClusterBytes_eq p
  have hSome := clusterBytes_pos hSize
  have hIndex : j * clusterBytes p.header / clusterBytes p.header = j :=
    Nat.mul_div_cancel j hSome
  have hCases := fat16GetClusterForOffset_cases disk p cluster (j * clusterBytes p.header) hSize
    (by rwa [← clusterBytes, hIndex])
  rw [← clusterBytes, hIndex] at hCases
  rw [fat16ReadInternalFromStream] at h
  rcases hCases with ⟨hWalk, fatStream, hFound⟩ | ⟨_, fatStream, hError⟩ | ⟨_, _, hNone⟩
  · by_cases hData : fatWalk disk p.header cluster j < 0
    · simp only [hBytes, if_neg (show ¬ (clusterBytes p.header : Int) = 0 by omega), hFound,
        if_pos hData, Option.some.injEq] at h
      subst h
      simp only at hOk
      omega
    · have hOffset := tmod_clusterBytes j p.header
      have hSeek : toInt ((sector : Int) * liebeOsSectorSize + 0) = (512 * sector : Nat) := by
        unfold liebeOsSectorSize
        rw [toInt_of_range (by omega) (by omega)]
        omega
      have hCount : (if (total : Int) > clusterBytes p.header then (clusterBytes p.header : Int)
          else total) = (min (clusterBytes p.header) total : Nat) := by
        split <;> omega
      have hSectorAfter : fat16ClusterToSector { p with fatReadStream := fatStream }
          (fatWalk disk p.header cluster j) = sector := hSector
      obtain ⟨pos, disk'⟩ := stream
      cases disk'
      simp only [hBytes, if_neg (show ¬ (clusterBytes p.header : Int) = 0 by omega), hFound,
        if_neg hData, hSectorAfter, hOffset, hSeek, hCount, diskstreamerSeek, ne_eq,
        not_true_eq_false, if_false] at h
      cases hRead : diskstreamerRead disk ⟨(512 * sector : Nat), .diskObj⟩ mem out
          (min (clusterBytes p.header) total : Nat) with
      | none =>
          rw [hRead] at h
          exact absurd h (by simp)
      | some chunk =>
          obtain ⟨_, hExists, hFits⟩ := diskstreamerRead_aligned_some hPos hRead
          exact ⟨hWalk, Int.not_lt.mp hData, hExists, hFits⟩
  · simp only [hBytes, if_neg (show ¬ (clusterBytes p.header : Int) = 0 by omega), hError,
      if_pos (show -eio < 0 by decide), Option.some.injEq] at h
    subst h
    exact absurd hOk (by simp [eio])
  · simp only [hBytes, if_neg (show ¬ (clusterBytes p.header : Int) = 0 by omega), hNone] at h
    exact absurd h (by simp)

/-! ### The whole read -/

/-- Byte `i` of the file that starts at `cluster`. -/
def fileByte (disk : Disk) (p : FatPrivate) (cluster : Int) (i : Nat) : UInt8 :=
  disk.byte (512 * (fat16ClusterToSector p (fatWalk disk p.header cluster
    (i / clusterBytes p.header))).toNat + i % clusterBytes p.header)

theorem fileByte_chunk (disk : Disk) (p : FatPrivate) (cluster : Int) (j : Nat) {i : Nat}
    (hi : i < clusterBytes p.header) :
    fileByte disk p cluster (j * clusterBytes p.header + i) =
      disk.byte (512 * (fat16ClusterToSector p (fatWalk disk p.header cluster j)).toNat + i) := by
  have hDiv : (j * clusterBytes p.header + i) / clusterBytes p.header = j := by
    rw [Nat.add_comm, Nat.add_mul_div_right _ _ (by omega), Nat.div_eq_of_lt hi, Nat.zero_add]
  have hMod : (j * clusterBytes p.header + i) % clusterBytes p.header = i := by
    rw [Nat.add_comm, Nat.add_mul_mod_self_right, Nat.mod_eq_of_lt hi]
  rw [fileByte, hDiv, hMod]

/-- The visited clusters start at byte positions that fit in a signed 32-bit
number, and so does the table entry of the first cluster, where it is read. -/
structure VisitedFit (disk : Disk) (p : FatPrivate) (cluster : Int) (total : Nat) : Prop where
  sector : ∀ j, j * clusterBytes p.header < total →
    0 ≤ fat16ClusterToSector p (fatWalk disk p.header cluster j) ∧
      512 * fat16ClusterToSector p (fatWalk disk p.header cluster j) < 2147483648
  entry : clusterBytes p.header < total → PositionFits p.header cluster

/-- From chunk `j` on, a successful read stores the remaining bytes of the file. -/
theorem fat16ReadInternalFromStream_filled {disk : Disk} {p : FatPrivate} {cluster : Int}
    {whole j total : Nat} {stream : DiskStream} {mem : Memory} {out : Nat} {r : FileRead}
    (hSize : 0 < p.header.sectorsPerCluster) (hFit : VisitedFit disk p cluster whole)
    (hWhole : whole < 2147483648) (hRest : j * clusterBytes p.header + total = whole)
    (hTotal : 0 < total)
    (h : fat16ReadInternalFromStream disk p stream cluster (j * clusterBytes p.header : Nat) total
      mem out = some r) (hOk : r.res = 0) :
    Filled mem r.mem out total fun i => fileByte disk p cluster (j * clusterBytes p.header + i) := by
  induction total using Nat.strongRecOn generalizing p j stream mem out with
  | ind total ih =>
      have hSome := clusterBytes_pos hSize
      obtain ⟨hLow, hHigh⟩ := hFit.sector j (by omega)
      obtain ⟨sector, hSector⟩ := Int.eq_ofNat_of_zero_le hLow
      have hStart : 0 < j → PositionFits p.header cluster := fun hj => by
        have hFirst := Nat.le_mul_of_pos_left (clusterBytes p.header) hj
        exact hFit.entry (by omega)
      obtain ⟨hWalk, hData, hExists, hEnd⟩ :=
        fat16ReadInternalFromStream_ok hSize hStart hSector (by omega) h hOk
      obtain ⟨fatStream, stream', mid, hChunk, hStep⟩ :=
        fat16ReadInternalFromStream_chunk stream mem out hSize hWalk hStart hData hSector hExists hEnd
      have hHead : Filled mem mid out (min (clusterBytes p.header) total) fun i =>
          fileByte disk p cluster (j * clusterBytes p.header + i) :=
        hChunk.congr fun i hi => by
          rw [fileByte_chunk disk p cluster j (by omega), hSector, Int.toNat_natCast]
      rw [hStep] at h
      by_cases hMore : clusterBytes p.header < total
      · have hNext : (j + 1) * clusterBytes p.header = j * clusterBytes p.header +
            clusterBytes p.header := Nat.succ_mul j _
        rw [if_pos hMore, toInt_of_range (by omega) (by omega)] at h
        have hTail := ih (total - clusterBytes p.header) (by omega)
          (p := { p with fatReadStream := fatStream }) hSize ⟨hFit.sector, hFit.entry⟩
          (show (j + 1) * clusterBytes p.header + (total - clusterBytes p.header) = whole by omega)
          (by omega) h
        have hWhole : min (clusterBytes p.header) total = clusterBytes p.header := by omega
        rw [hWhole] at hHead
        have hAll := hHead.append (hTail.congr fun i _ => by
          change fileByte disk p cluster ((j + 1) * clusterBytes p.header + i) = _
          rw [hNext, Nat.add_assoc])
        rwa [show clusterBytes p.header + (total - clusterBytes p.header) = total by omega] at hAll
      · rw [if_neg hMore, Option.some.injEq] at h
        subst h
        rwa [show min (clusterBytes p.header) total = total by omega] at hHead

/-- Every visited cluster can be reached, and the drive has its sectors up to
the position where the reading of it ends. -/
def ChainReadable (disk : Disk) (p : FatPrivate) (cluster : Int) (whole : Nat) : Prop :=
  ∀ j, j * clusterBytes p.header < whole →
    WalkPasses disk p.header cluster j ∧ 0 ≤ fatWalk disk p.header cluster j ∧
      (512 * (fat16ClusterToSector p (fatWalk disk p.header cluster j)).toNat +
        min (clusterBytes p.header) (whole - j * clusterBytes p.header)) / 512 < disk.sectors ∧
      512 * (fat16ClusterToSector p (fatWalk disk p.header cluster j)).toNat +
        min (clusterBytes p.header) (whole - j * clusterBytes p.header) < 2147483648

/-- From chunk `j` on, the read of a readable chain succeeds. -/
theorem fat16ReadInternalFromStream_succeeds {disk : Disk} {p : FatPrivate} {cluster : Int}
    {whole j total : Nat} (stream : DiskStream) (mem : Memory) (out : Nat)
    (hSize : 0 < p.header.sectorsPerCluster) (hFit : VisitedFit disk p cluster whole)
    (hChain : ChainReadable disk p cluster whole)
    (hWhole : whole < 2147483648) (hRest : j * clusterBytes p.header + total = whole)
    (hTotal : 0 < total) :
    ∃ r, fat16ReadInternalFromStream disk p stream cluster (j * clusterBytes p.header : Nat) total
      mem out = some r ∧ r.res = 0 := by
  induction total using Nat.strongRecOn generalizing p j stream mem out with
  | ind total ih =>
      have hSome := clusterBytes_pos hSize
      obtain ⟨hLow, _⟩ := hFit.sector j (by omega)
      obtain ⟨hWalk, hData, hExists, hEnd⟩ := hChain j (by omega)
      rw [show whole - j * clusterBytes p.header = total by omega] at hExists hEnd
      have hStart : 0 < j → PositionFits p.header cluster := fun hj => by
        have hFirst := Nat.le_mul_of_pos_left (clusterBytes p.header) hj
        exact hFit.entry (by omega)
      obtain ⟨fatStream, stream', mid, _, hStep⟩ := fat16ReadInternalFromStream_chunk stream mem out
        hSize hWalk hStart hData (Int.toNat_of_nonneg hLow).symm hExists hEnd
      rw [hStep]
      by_cases hMore : clusterBytes p.header < total
      · have hNext : (j + 1) * clusterBytes p.header = j * clusterBytes p.header +
            clusterBytes p.header := Nat.succ_mul j _
        rw [if_pos hMore, toInt_of_range (by omega) (by omega)]
        exact ih (total - clusterBytes p.header) (by omega) stream' mid _
          (p := { p with fatReadStream := fatStream }) hSize ⟨hFit.sector, hFit.entry⟩ hChain
          (show (j + 1) * clusterBytes p.header + (total - clusterBytes p.header) = whole by omega)
          (by omega)
      · exact ⟨_, if_neg hMore, rfl⟩

/-- A successful read of a whole file or of its beginning stores, byte for
byte, what the clusters of its chain hold, and writes nothing behind. -/
theorem fat16ReadInternal_follows_chain (disk : Disk) (p : FatPrivate) (cluster : Int)
    (total : Nat) (mem : Memory) (out : Nat) (r : FileRead)
    (hSize : 0 < p.header.sectorsPerCluster) (hTotal : 1 ≤ total) (hInt : total < 2147483648)
    (hFit : VisitedFit disk p cluster total)
    (hRead : fat16ReadInternal disk p cluster 0 total mem out = some r) (hOk : r.res = 0) :
    Filled mem r.mem out total fun i => disk.byte (512 * (fat16ClusterToSector p
      (fatWalk disk p.header cluster (i / clusterBytes p.header))).toNat +
        i % clusterBytes p.header) := by
  rw [fat16ReadInternal, Option.map_eq_some_iff] at hRead
  obtain ⟨whole, hRead, rfl⟩ := hRead
  have hStart : ((0 : Nat) * clusterBytes p.header : Nat) = (0 : Nat) := Nat.zero_mul _
  have hFilled := fat16ReadInternalFromStream_filled (j := 0) (r := whole) hSize hFit hInt (by omega) hTotal
    (by rw [hStart]; exact hRead) hOk
  exact hFilled.congr fun i _ => by rw [hStart, Nat.zero_add, fileByte]

/-- The file 2, 4 of 600 bytes on a drive whose bytes are numbered: byte 599 of
the file is byte 87 of the sector of cluster 4. -/
theorem fat16ReadInternal_follows_chain_fragmented :
    let disk : Disk := ⟨8, fun i => if i = 4 then 4 else if i = 5 then 0 else UInt8.ofNat i⟩
    let stream : DiskStream := ⟨0, .diskObj⟩
    let p : FatPrivate := ⟨⟨1, 0, 1, 16, 1⟩, ⟨0, 1, 3⟩, stream, stream, stream⟩
    ∃ r, fat16ReadInternal disk p 2 0 600 (fun _ => 0) 0 = some r ∧ r.res = 0 ∧
      r.mem 599 = disk.byte (512 * 5 + 87) ∧ r.mem 600 = 0 := by
  intro disk stream p
  have hBytes : clusterBytes p.header = 512 := by decide
  have hClusters : ∀ j, j * clusterBytes p.header < 600 → j = 0 ∨ j = 1 := fun j hj => by
    rw [hBytes] at hj
    omega
  have hFit : VisitedFit disk p 2 600 := by
    refine ⟨fun j hj => ?_, fun _ => by unfold PositionFits; decide⟩
    rcases hClusters j hj with rfl | rfl <;> decide
  have hChain : ChainReadable disk p 2 600 := by
    intro j hj
    rcases hClusters j hj with rfl | rfl <;> decide
  obtain ⟨r, hRead, hOk⟩ := fat16ReadInternalFromStream_succeeds stream (fun _ => 0) 0
    (by decide) hFit hChain (by omega) (show 0 * clusterBytes p.header + 600 = 600 by omega) (by omega)
  have hWhole : fat16ReadInternal disk p 2 0 (600 : Nat) (fun _ => 0) 0 = some
      { r with fsPrivate := { r.fsPrivate with clusterReadStream := r.stream } } := by
    have hRead' : fat16ReadInternalFromStream disk p p.clusterReadStream 2 0 (600 : Nat)
        (fun _ => 0) 0 = some r := hRead
    rw [fat16ReadInternal, hRead', Option.map_some]
  have hFilled := fat16ReadInternal_follows_chain disk p 2 600 (fun _ => 0) 0 _ (by decide)
    (by decide) (by decide) hFit hWhole hOk
  exact ⟨_, hWhole, hOk, (hFilled.1 599 (by decide)).trans (by decide), hFilled.2 600 (by decide)⟩

end LiebeOS
