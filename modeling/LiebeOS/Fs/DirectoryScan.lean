import Mathlib.Data.Nat.Find
import LiebeOS.Lib.Loop
import LiebeOS.Fs.Fat16

/-! Counting the entries of a directory. The loop has no counter: it relies on
the position that the directory stream keeps between two reads, and reading the
last entry of a sector sends that position back to the second entry. -/
namespace LiebeOS

open MachineInt Bytes Loop

/-- The local variables of the scan: the stream, the last entry read and the
number of entries counted. -/
structure DirectoryScan where
  stream : DiskStream
  item : Memory
  count : Int

def sizeOfDirectoryItem : Int := 32

/-- One round of `while (1)`. -/
def fat16ScanItem (disk : Disk) (s : DirectoryScan) :
    Option (DirectoryScan ⊕ (Int × DiskStream)) :=
  match diskstreamerRead disk s.stream s.item 0 sizeOfDirectoryItem with
  | none => none
  | some r =>
      if r.res ≠ 0 then some (.inr (-eio, r.stream))
      else if r.mem 0 = 0x00 then some (.inr (s.count, r.stream))
      else if r.mem 0 = 0xE5 then some (.inl ⟨r.stream, r.mem, s.count⟩)
      else some (.inl ⟨r.stream, r.mem, toInt (s.count + 1)⟩)

/-- The scan with at most `fuel` entries read. -/
def fat16GetTotalItemsForDirectory (fuel : Nat) (disk : Disk) (p : FatPrivate)
    (directoryStartSector : Nat) : Option (Int × FatPrivate) :=
  let directoryStartPos := toInt (toWord (directoryStartSector * liebeOsSectorSize))
  let (res, stream) := diskstreamerSeek p.directoryStream directoryStartPos
  if res ≠ 0 then some (-eio, { p with directoryStream := stream })
  else
    (iterate (fat16ScanItem disk) fuel ⟨stream, fun _ => 0, 0⟩).map fun (res, stream) =>
      (res, { p with directoryStream := stream })

/-! ### What the scan should count -/

/-- First name byte of entry `j` of the directory at `sector`. -/
def entryByte (disk : Disk) (sector j : Nat) : UInt8 := disk.byte (512 * sector + 32 * j)

def FirstEmpty (disk : Disk) (sector k : Nat) : Prop :=
  entryByte disk sector k = 0 ∧ ∀ j < k, entryByte disk sector j ≠ 0

/-- The entries before entry `k` that are not marked as deleted. -/
def usedEntries (disk : Disk) (sector k : Nat) : Nat :=
  ((List.range k).filter fun j => entryByte disk sector j ≠ 0xE5).length

def CountsDirectory (disk : Disk) (p : FatPrivate) (sector count : Nat) : Prop :=
  ∃ fuel p', fat16GetTotalItemsForDirectory fuel disk p sector = some ((count : Int), p')

theorem usedEntries_succ (disk : Disk) (sector k : Nat) :
    usedEntries disk sector (k + 1) =
      usedEntries disk sector k + if entryByte disk sector k = 0xE5 then 0 else 1 := by
  simp only [usedEntries, List.range_succ, List.filter_append, List.length_append]
  by_cases hDeleted : entryByte disk sector k = 0xE5 <;> simp [hDeleted]

theorem usedEntries_le (disk : Disk) (sector k : Nat) : usedEntries disk sector k ≤ k := by
  have hFilter := List.length_filter_le (fun j => decide (entryByte disk sector j ≠ 0xE5))
    (List.range k)
  rwa [List.length_range] at hFilter

theorem FirstEmpty.unique {disk : Disk} {sector k k' : Nat} (h : FirstEmpty disk sector k)
    (h' : FirstEmpty disk sector k') : k = k' := by
  rcases Nat.lt_trichotomy k k' with hLess | hSame | hMore
  · exact absurd h.1 (h'.2 k hLess)
  · exact hSame
  · exact absurd h'.1 (h.2 k' hMore)

/-! ### One entry -/

/-- Whether the last entry of the sector can be read: the read goes on into
the following sector. -/
def NextSectorReadable (disk : Disk) (sector : Nat) : Prop :=
  sector + 1 < disk.sectors ∧ sector + 1 < 4194304

instance (disk : Disk) (sector : Nat) : Decidable (NextSectorReadable disk sector) :=
  inferInstanceAs (Decidable (_ ∧ _))

/-- The entry that the stream stands at after entry `j` has been read. -/
def entryAfter (j : Nat) : Nat := if j < 15 then j + 1 else 1

theorem diskstreamerRead_item {disk : Disk} {sector j : Nat} (item : Memory)
    (hSector : sector < disk.sectors) (hPos : sector < 4194304) (hEntry : j < 16)
    (hNext : j = 15 → NextSectorReadable disk sector) :
    ∃ item', item' 0 = entryByte disk sector j ∧
      diskstreamerRead disk ⟨(512 * sector + 32 * j : Nat), .diskObj⟩ item 0 sizeOfDirectoryItem =
        some ⟨0, ⟨(512 * sector + 32 * entryAfter j : Nat), .diskObj⟩, item'⟩ := by
  by_cases hLast : j < 15
  · obtain ⟨item', hRead, hFilled⟩ := diskstreamerRead_short item 0
      (show (512 * sector + 32 * j) % 512 + 32 < 512 by omega)
      (show (512 * sector + 32 * j) / 512 < disk.sectors by omega) (by omega)
    refine ⟨item', hFilled.1 0 (by omega), ?_⟩
    rw [entryAfter, if_pos hLast]
    exact hRead
  · obtain rfl : j = 15 := by omega
    obtain ⟨hExists, hFits⟩ := hNext rfl
    have hOffset : (512 * sector + 32 * 15) % 512 = 480 := by omega
    have hDiv : (512 * sector + 32 * 15) / 512 = sector := by omega
    have hBoundary : toInt (((512 * sector + 32 * 15 : Nat) : Int) + (512 - 480 : Nat)) =
        (512 * (sector + 1) : Nat) := by
      rw [toInt_of_range (by omega) (by omega)]
      omega
    have hBack : toInt ((512 * (sector + 1) : Nat) - (480 : Nat)) =
        (512 * sector + 32 * entryAfter 15 : Nat) := by
      rw [toInt_of_range (by omega) (by omega), entryAfter, if_neg (by omega)]
      omega
    have hFilled := copyLoop_filled (fun i => disk.byte (512 * sector + i)) 32 480 0 item
    refine ⟨copyLoop (fun i => disk.byte (512 * sector + i)) 32 480 0 item,
      hFilled.1 0 (by omega), ?_⟩
    rw [diskstreamerRead_eq disk _ item 0 _ (by omega), hOffset, hDiv, if_pos hSector,
      if_pos (by decide), hBoundary,
      show sizeOfDirectoryItem - 512 = -((480 : Nat) : Int) by decide,
      diskstreamerRead_negative _ _ 480 (by omega) (by omega), if_pos hExists, hBack]

/-- The last entry of a sector whose successor cannot be read. -/
theorem diskstreamerRead_last_item {disk : Disk} {sector : Nat} (item : Memory)
    (hPos : sector < 4194304) (hNext : ¬ NextSectorReadable disk sector) :
    diskstreamerRead disk ⟨(512 * sector + 32 * 15 : Nat), .diskObj⟩ item 0 sizeOfDirectoryItem =
      none := by
  have hOffset : (512 * sector + 32 * 15) % 512 = 480 := by omega
  have hDiv : (512 * sector + 32 * 15) / 512 = sector := by omega
  rw [diskstreamerRead_eq disk _ item 0 _ (by omega), hOffset, hDiv]
  by_cases hSector : sector < disk.sectors
  · rw [if_pos hSector, if_pos (by decide)]
    by_cases hFits : sector + 1 < 4194304
    · have hBoundary : toInt (((512 * sector + 32 * 15 : Nat) : Int) + (512 - 480 : Nat)) =
          (512 * (sector + 1) : Nat) := by
        rw [toInt_of_range (by omega) (by omega)]
        omega
      rw [hBoundary, show sizeOfDirectoryItem - 512 = -((480 : Nat) : Int) by decide,
        diskstreamerRead_negative _ _ 480 (by omega) (by omega),
        if_neg fun hExists => hNext ⟨hExists, hFits⟩]
    · obtain rfl : sector = 4194303 := by omega
      have hWrap : toInt (((512 * 4194303 + 32 * 15 : Nat) : Int) + (512 - 480 : Nat)) =
          -((512 * 4194304 : Nat) : Int) := by decide
      rw [hWrap]
      exact diskstreamerRead_wrapped (by omega) (by omega) _ _ _
  · rw [if_neg hSector]

/-- The stream stands at entry `j` of the sector, with the entries before it
counted. -/
def ScanAt (disk : Disk) (sector j : Nat) (s : DirectoryScan) : Prop :=
  s.stream = ⟨(512 * sector + 32 * j : Nat), .diskObj⟩ ∧ s.count = usedEntries disk sector j

theorem ScanAt.start (disk : Disk) (sector : Nat) :
    ScanAt disk sector 0 ⟨⟨(512 * sector : Nat), .diskObj⟩, fun _ => 0, 0⟩ :=
  ⟨rfl, rfl⟩

/-- One round at an entry that can be read: the loop ends at an empty name and
goes on otherwise. -/
theorem fat16ScanItem_eq {disk : Disk} {sector j : Nat} {s : DirectoryScan}
    (hStream : s.stream = ⟨(512 * sector + 32 * j : Nat), .diskObj⟩)
    (hSector : sector < disk.sectors) (hPos : sector < 4194304) (hEntry : j < 16)
    (hNext : j = 15 → NextSectorReadable disk sector) :
    ∃ item', fat16ScanItem disk s = some (
      if entryByte disk sector j = 0 then
        .inr (s.count, ⟨(512 * sector + 32 * entryAfter j : Nat), .diskObj⟩)
      else
        .inl ⟨⟨(512 * sector + 32 * entryAfter j : Nat), .diskObj⟩, item',
          if entryByte disk sector j = 0xE5 then s.count else toInt (s.count + 1)⟩) := by
  obtain ⟨item', hFirst, hRead⟩ := diskstreamerRead_item s.item hSector hPos hEntry hNext
  refine ⟨item', ?_⟩
  simp only [fat16ScanItem, hStream, hRead, ne_eq, not_true_eq_false, if_false, hFirst]
  split
  · rfl
  · split <;> rfl

/-! ### The whole scan -/

/-- From entry `j` on the scan counts up to the first empty entry, if that
entry belongs to the sector and can be read. -/
theorem fat16ScanItem_returns {disk : Disk} {sector k : Nat} (hFirst : FirstEmpty disk sector k)
    (hSector : sector < disk.sectors) (hPos : sector < 4194304) (hSmall : k < 16)
    (hNext : k = 15 → NextSectorReadable disk sector) {j : Nat} (hj : j ≤ k) {s : DirectoryScan}
    (hAt : ScanAt disk sector j s) :
    ∃ stream, Returns (fat16ScanItem disk) s ((usedEntries disk sector k : Int), stream) := by
  induction hRest : k - j generalizing j s with
  | zero =>
      obtain rfl : j = k := by omega
      obtain ⟨item', hRound⟩ := fat16ScanItem_eq hAt.1 hSector hPos hSmall hNext
      rw [if_pos hFirst.1, hAt.2] at hRound
      exact ⟨_, Returns.leave hRound⟩
  | succ rest ih =>
      have hUsed := usedEntries_le disk sector j
      obtain ⟨item', hRound⟩ := fat16ScanItem_eq hAt.1 hSector hPos
        (show j < 16 by omega) (by omega)
      rw [if_neg (hFirst.2 j (by omega)), entryAfter, if_pos (by omega)] at hRound
      have hCount : (if entryByte disk sector j = 0xE5 then s.count else toInt (s.count + 1)) =
          usedEntries disk sector (j + 1) := by
        rw [usedEntries_succ, hAt.2]
        split
        · rfl
        · exact toInt_of_range (by omega) (by omega)
      obtain ⟨stream, hTail⟩ := ih (j := j + 1) (s := ⟨_, item', _⟩) (by omega) ⟨rfl, hCount⟩ (by omega)
      exact ⟨stream, Returns.goOn hRound hTail⟩

/-- When none of the sixteen entries of the sector stops the scan, it goes
round among them for ever, or waits for a sector that does not come. -/
theorem fat16ScanItem_not_returns {disk : Disk} {sector : Nat} (hPos : sector < 4194304)
    (hSector : sector < disk.sectors)
    (hFull : ∀ j < 16, entryByte disk sector j = 0 → j = 15 ∧ ¬ NextSectorReadable disk sector)
    {s : DirectoryScan} (hStream : s.stream = ⟨(512 * sector : Nat), .diskObj⟩)
    (result : Int × DiskStream) : ¬ Returns (fat16ScanItem disk) s result := by
  refine not_returns_of_invariant
    (fun s => ∃ j < 16, s.stream = ⟨(512 * sector + 32 * j : Nat), .diskObj⟩)
    ⟨0, by omega, hStream⟩ ?_
  rintro s ⟨j, hj, hAt⟩
  by_cases hStuck : j = 15 ∧ ¬ NextSectorReadable disk sector
  · obtain ⟨rfl, hNext⟩ := hStuck
    left
    rw [fat16ScanItem, hAt, diskstreamerRead_last_item s.item hPos hNext]
  · obtain ⟨item', hRound⟩ := fat16ScanItem_eq hAt hSector hPos hj fun hLast =>
      Classical.byContradiction fun hNext => hStuck ⟨hLast, hNext⟩
    rw [if_neg fun hZero => hStuck (hFull j hj hZero)] at hRound
    refine Or.inr ⟨_, hRound, entryAfter j, ?_, rfl⟩
    unfold entryAfter
    split <;> omega

/-- A scan that comes back has met an empty entry in its first sector. -/
theorem fat16ScanItem_stops {disk : Disk} {sector : Nat} (hPos : sector < 4194304)
    (hSector : sector < disk.sectors) {s : DirectoryScan}
    (hStream : s.stream = ⟨(512 * sector : Nat), .diskObj⟩) {result : Int × DiskStream}
    (h : Returns (fat16ScanItem disk) s result) :
    ∃ k < 16, FirstEmpty disk sector k ∧ (k = 15 → NextSectorReadable disk sector) := by
  by_cases hFull : ∀ j < 16, entryByte disk sector j = 0 →
      j = 15 ∧ ¬ NextSectorReadable disk sector
  · exact absurd h (fat16ScanItem_not_returns hPos hSector hFull hStream result)
  · simp only [not_forall] at hFull
    obtain ⟨j, hj, hZero, hReads⟩ := hFull
    have hFind : ∃ k, entryByte disk sector k = 0 := ⟨j, hZero⟩
    have hLess : Nat.find hFind ≤ j := Nat.find_min' hFind hZero
    refine ⟨Nat.find hFind, by omega, ⟨Nat.find_spec hFind, fun i hi => Nat.find_min hFind hi⟩,
      fun hLast => ?_⟩
    exact Classical.byContradiction fun hNext => hReads ⟨by omega, hNext⟩

/-- The sector that the scan really reads: the byte position of the directory
is stored in a signed 32-bit variable. -/
def scannedSector (directoryStartSector : Nat) : Nat := directoryStartSector % 8388608

/-- The scanned sector lies in the first 2^31 bytes, one of its sixteen entries
is empty, the following sector can be read if that is the last entry, and the
count there is that of the directory itself. -/
def ScanFits (disk : Disk) (sector k : Nat) : Prop :=
  scannedSector sector < 4194304 ∧
    ∃ k' < 16, FirstEmpty disk (scannedSector sector) k' ∧
      (k' = 15 → NextSectorReadable disk (scannedSector sector)) ∧
      usedEntries disk (scannedSector sector) k' = usedEntries disk sector k

/-- The start position after the wrap. -/
theorem directoryStartPos_eq (sector : Nat) :
    toInt (toWord (sector * liebeOsSectorSize)) =
      if scannedSector sector < 4194304 then ((512 * scannedSector sector : Nat) : Int)
      else -((512 * (8388608 - scannedSector sector) : Nat) : Int) := by
  unfold toInt toWord scannedSector liebeOsSectorSize
  split <;> omega

theorem countsDirectory_iff_returns (disk : Disk) (p : FatPrivate) (sector count : Nat) :
    CountsDirectory disk p sector count ↔
      ∃ stream, Returns (fat16ScanItem disk)
        ⟨⟨toInt (toWord (sector * liebeOsSectorSize)), p.directoryStream.disk⟩, fun _ => 0, 0⟩
        ((count : Int), stream) := by
  constructor
  · rintro ⟨fuel, p', hRun⟩
    simp only [fat16GetTotalItemsForDirectory, diskstreamerSeek, ne_eq, not_true_eq_false,
      if_false, Option.map_eq_some_iff, Prod.mk.injEq, Prod.exists] at hRun
    obtain ⟨res, stream, hRun, rfl, _⟩ := hRun
    exact ⟨stream, fuel, hRun⟩
  · rintro ⟨stream, fuel, hRun⟩
    refine ⟨fuel, { p with directoryStream := stream }, ?_⟩
    simp only [fat16GetTotalItemsForDirectory, diskstreamerSeek, ne_eq, not_true_eq_false,
      if_false, hRun, Option.map_some]

/-- A scan that comes back has counted the entries in use in the sector it read. -/
theorem fat16ScanItem_counts {disk : Disk} {sector : Nat} {result : Int × DiskStream}
    (h : Returns (fat16ScanItem disk)
      ⟨⟨toInt (toWord (sector * liebeOsSectorSize)), .diskObj⟩, fun _ => 0, 0⟩ result) :
    scannedSector sector < 4194304 ∧ scannedSector sector < disk.sectors ∧
      ∃ k < 16, FirstEmpty disk (scannedSector sector) k ∧
        (k = 15 → NextSectorReadable disk (scannedSector sector)) ∧
        result.1 = usedEntries disk (scannedSector sector) k := by
  rw [directoryStartPos_eq] at h
  by_cases hPos : scannedSector sector < 4194304
  · rw [if_pos hPos] at h
    by_cases hScanned : scannedSector sector < disk.sectors
    · obtain ⟨k, hSmall, hFirst, hNext⟩ := fat16ScanItem_stops hPos hScanned rfl h
      obtain ⟨stream, hCounts⟩ := fat16ScanItem_returns hFirst hScanned hPos hSmall hNext
        (Nat.zero_le k) (ScanAt.start disk _)
      exact ⟨hPos, hScanned, k, hSmall, hFirst, hNext,
        (congrArg Prod.fst (hCounts.unique h)).symm⟩
    · refine absurd h (not_returns_of_invariant
        (fun s => s.stream = ⟨((512 * scannedSector sector : Nat) : Int), .diskObj⟩) rfl
        fun s hAt => Or.inl ?_)
      have hDiv : 512 * scannedSector sector / 512 = scannedSector sector := by omega
      rw [fat16ScanItem, hAt, diskstreamerRead_eq disk _ s.item 0 _ (by omega), hDiv,
        if_neg hScanned]
  · rw [if_neg hPos] at h
    refine absurd h (not_returns_of_invariant
      (fun s => s.stream = ⟨-((512 * (8388608 - scannedSector sector) : Nat) : Int), .diskObj⟩)
      rfl fun s hAt => Or.inl ?_)
    rw [fat16ScanItem, hAt, diskstreamerRead_wrapped (by unfold scannedSector; omega) (by omega)]

/-- The scan of a directory whose entries are on the disk returns the number of
used entries before the first empty one exactly when it fits. -/
theorem fat16GetTotalItemsForDirectory_iff (disk : Disk) (p : FatPrivate) (sector k : Nat)
    (hEmpty : FirstEmpty disk sector k) (hDisk : 512 * sector + 32 * k + 32 ≤ 512 * disk.sectors) :
    (CountsDirectory disk p sector (usedEntries disk sector k) ↔ ScanFits disk sector k) ∧
      (sector < 4194304 →
        (ScanFits disk sector k ↔ k < 16 ∧ (k = 15 → NextSectorReadable disk sector))) := by
  have hScanned : scannedSector sector < disk.sectors := by
    unfold scannedSector
    omega
  have hSelf : sector < 4194304 → scannedSector sector = sector := fun hPos => by
    unfold scannedSector
    omega
  refine ⟨⟨fun h => ?_, ?_⟩, fun hPos => ⟨?_, ?_⟩⟩
  · rw [countsDirectory_iff_returns] at h
    obtain ⟨stream, hReturns⟩ := h
    obtain ⟨hPos, _, k', hSmall, hFirst, hNext, hSame⟩ := fat16ScanItem_counts hReturns
    exact ⟨hPos, k', hSmall, hFirst, hNext, (Int.ofNat.inj hSame).symm⟩
  · rintro ⟨hPos, k', hSmall, hFirst, hNext, hSame⟩
    rw [countsDirectory_iff_returns, directoryStartPos_eq, if_pos hPos, ← hSame]
    exact fat16ScanItem_returns hFirst hScanned hPos hSmall hNext (Nat.zero_le k')
      (ScanAt.start disk _)
  · rintro ⟨_, k', hSmall, hFirst, hNext, _⟩
    rw [hSelf hPos] at hFirst hNext
    obtain rfl := hFirst.unique hEmpty
    exact ⟨hSmall, hNext⟩
  · rintro ⟨hSmall, hNext⟩
    rw [ScanFits, hSelf hPos]
    exact ⟨hPos, k, hSmall, hEmpty, hNext, rfl⟩

/-- On one drive, a directory of three entries is counted and a directory that
fills its sector is not. -/
theorem fat16GetTotalItemsForDirectory_iff_drive :
    let disk : Disk := ⟨5, fun i => if i = 608 ∨ i = 1536 then 0 else 65⟩
    let stream : DiskStream := ⟨0, .diskObj⟩
    let p : FatPrivate := ⟨⟨1, 1, 2, 16, 1⟩, ⟨0, 1, 2⟩, stream, stream, stream⟩
    CountsDirectory disk p 1 3 ∧ ¬ CountsDirectory disk p 2 16 := by
  intro disk stream p
  have hThree := fat16GetTotalItemsForDirectory_iff disk p 1 3 (by unfold FirstEmpty; decide)
    (by decide)
  have hSixteen := fat16GetTotalItemsForDirectory_iff disk p 2 16 (by unfold FirstEmpty; decide)
    (by decide)
  exact ⟨hThree.1.mpr ((hThree.2 (by decide)).mpr ⟨by decide, by decide⟩),
    fun h => absurd ((hSixteen.2 (by decide)).mp (hSixteen.1.mp h)).1 (by decide)⟩

/-- Sixteen entries in use followed by an empty one: the scan goes round from
the sixteenth to the second for ever. -/
theorem fat16GetTotalItemsForDirectory_full_sector :
    ¬ ∀ (disk : Disk) (p : FatPrivate) (sector k : Nat), FirstEmpty disk sector k →
      512 * sector + 32 * k + 32 ≤ 512 * disk.sectors →
      CountsDirectory disk p sector (usedEntries disk sector k) := by
  intro hClaim
  have hCounts := hClaim ⟨5, fun i => if i = 1536 then 0 else 65⟩
    ⟨⟨1, 1, 2, 16, 1⟩, ⟨0, 1, 2⟩, ⟨0, .diskObj⟩, ⟨0, .diskObj⟩, ⟨0, .diskObj⟩⟩ 2 16
    (by unfold FirstEmpty; decide) (by decide)
  obtain ⟨stream, hReturns⟩ := (countsDirectory_iff_returns _ _ _ _).mp hCounts
  exact fat16ScanItem_not_returns (show 2 < 4194304 by decide) (by decide)
    (fun j hj hZero => absurd hZero (by revert j; decide)) (by decide) _ hReturns

end LiebeOS
