import LiebeOS.Status
import LiebeOS.Lib.Bytes
import LiebeOS.Lib.MachineInt

/-! The disk driver of `disk.c` and the byte stream of `streamer.c`. A result
`none` means that the call has no defined outcome: the driver polls a drive
that never raises its data flag, or bytes in front of a local buffer are read. -/
namespace LiebeOS

open MachineInt Bytes

def liebeOsSectorSize : Int := 512

/-- The master drive: its number of sectors and its bytes. -/
structure Disk where
  sectors : Nat
  byte : Nat → UInt8

/-- The only disk pointer that `disk_get` hands out is `&disk_obj`. -/
inductive DiskPtr where
  | diskObj
  deriving DecidableEq

structure DiskStream where
  pos : Int
  disk : DiskPtr
  deriving DecidableEq

/-- The sector of the master drive selected by the address registers. Bits
0 to 27 of `lba` are its number; bit 28 ends up in the drive-select bit, and
the bits above are masked by `0xE0`. -/
def ataSector (lba : Int) : Option Nat :=
  if lba / 268435456 % 2 = 0 then some (lba % 268435456).toNat else none

/-- Reads `total` sectors. A drive asked for a sector it does not have never
raises the flag that the driver polls for. -/
def diskReadSector (disk : Disk) (lba : Int) (total : Nat) : Option (Int × (Nat → UInt8)) :=
  match ataSector lba with
  | none => none
  | some sector =>
      if sector + total ≤ disk.sectors then some (0, fun i => disk.byte (512 * sector + i))
      else none

def diskReadBlock (disk : Disk) (idisk : DiskPtr) (lba : Int) (total : Nat) :
    Option (Int × (Nat → UInt8)) :=
  if idisk ≠ .diskObj then some (-eio, fun _ => 0) else diskReadSector disk lba total

def diskstreamerSeek (stream : DiskStream) (pos : Int) : Int × DiskStream :=
  (0, { stream with pos := pos })

structure ReadResult where
  res : Int
  stream : DiskStream
  mem : Memory

/-- `total` bytes from the stream position to address `out`, one sector a
call. The recursive call subtracts a whole sector from the byte count. -/
def diskstreamerRead (disk : Disk) (stream : DiskStream) (mem : Memory) (out : Nat)
    (total : Int) : Option ReadResult :=
  let sector := stream.pos.tdiv liebeOsSectorSize
  let offset := stream.pos.tmod liebeOsSectorSize
  let overflow := offset + total ≥ liebeOsSectorSize
  let totalToRead := if overflow then total - (offset + total - liebeOsSectorSize) else total
  match diskReadBlock disk stream.disk sector 1 with
  | none => none
  | some (res, buffer) =>
      if res < 0 then some ⟨res, stream, mem⟩
      else if offset < 0 ∧ 0 < totalToRead then none
      else
        let copied := copyLoop buffer totalToRead.toNat offset.toNat out mem
        let advanced := { stream with pos := toInt (stream.pos + totalToRead) }
        if overflow then
          diskstreamerRead disk advanced copied (out + totalToRead.toNat)
            (total - liebeOsSectorSize)
        else some ⟨res, advanced, copied⟩
termination_by total.toNat
decreasing_by
  rename_i hOverflow
  have hOffset := Int.tmod_lt_of_pos stream.pos (show 0 < liebeOsSectorSize by decide)
  simp only [overflow, offset, liebeOsSectorSize] at hOverflow hOffset ⊢
  omega

/-! ### One call -/

theorem ataSector_of_range {n : Nat} (h : n < 268435456) : ataSector n = some n := by
  have hDrive : (n : Int) / 268435456 % 2 = 0 := by omega
  have hSector : ((n : Int) % 268435456).toNat = n := by omega
  rw [ataSector, if_pos hDrive, hSector]

/-- The head of the stream at a non-negative position: one sector is fetched
if the drive has it, its bytes from the offset on are copied, and when the
request reaches the end of the sector the rest is left to a further call. -/
theorem diskstreamerRead_eq (disk : Disk) (pos : Nat) (mem : Memory) (out : Nat) (total : Int)
    (hPos : pos < 2147483648) :
    diskstreamerRead disk ⟨pos, .diskObj⟩ mem out total =
      if pos / 512 < disk.sectors then
        if 512 ≤ ((pos % 512 : Nat) : Int) + total then
          diskstreamerRead disk ⟨toInt (pos + (512 - pos % 512 : Nat)), .diskObj⟩
            (copyLoop (fun i => disk.byte (512 * (pos / 512) + i)) (512 - pos % 512) (pos % 512)
              out mem)
            (out + (512 - pos % 512)) (total - 512)
        else
          some ⟨0, ⟨toInt (pos + total), .diskObj⟩,
            copyLoop (fun i => disk.byte (512 * (pos / 512) + i)) total.toNat (pos % 512) out mem⟩
      else none := by
  have hSector : (pos : Int).tdiv 512 = (pos / 512 : Nat) := by
    rw [Int.tdiv_eq_ediv_of_nonneg (by omega)]
    omega
  have hOffset : (pos : Int).tmod 512 = (pos % 512 : Nat) := by
    rw [Int.tmod_eq_emod_of_nonneg (by omega)]
    omega
  rw [diskstreamerRead]
  simp only [liebeOsSectorSize, hSector, hOffset, diskReadBlock, diskReadSector,
    ataSector_of_range (show pos / 512 < 268435456 by omega), ne_eq, not_true_eq_false, if_false,
    Nat.succ_le_iff]
  by_cases hExists : pos / 512 < disk.sectors
  · have hFront : ¬ ((pos % 512 : Nat) : Int) < 0 := by omega
    rw [if_pos hExists, if_pos hExists]
    simp only [Int.lt_irrefl, if_false, hFront, false_and, ge_iff_le, Int.toNat_natCast]
    by_cases hOverflow : (512 : Int) ≤ (pos % 512 : Nat) + total
    · have hCount : total - ((pos % 512 : Nat) + total - 512) = (512 - pos % 512 : Nat) := by omega
      simp only [if_pos hOverflow, hCount, Int.toNat_natCast]
    · simp only [if_neg hOverflow]
  · rw [if_neg hExists, if_neg hExists]

/-- A request that ends before the end of its sector. -/
theorem diskstreamerRead_short {disk : Disk} {pos total : Nat} (mem : Memory) (out : Nat)
    (hShort : pos % 512 + total < 512) (hExists : pos / 512 < disk.sectors)
    (hFits : pos + total < 2147483648) :
    ∃ mem', diskstreamerRead disk ⟨pos, .diskObj⟩ mem out total =
        some ⟨0, ⟨(pos + total : Nat), .diskObj⟩, mem'⟩ ∧
      Filled mem mem' out total fun i => disk.byte (pos + i) := by
  refine ⟨copyLoop (fun i => disk.byte (512 * (pos / 512) + i)) total (pos % 512) out mem, ?_,
    (copyLoop_filled _ _ _ _ _).congr fun i _ => ?_⟩
  · have hPosition : toInt ((pos : Int) + total) = (pos + total : Nat) := by
      rw [toInt_of_range (by omega) (by omega)]
      omega
    rw [diskstreamerRead_eq disk pos mem out total (by omega), if_pos hExists,
      if_neg (by omega), hPosition, Int.toNat_natCast]
  · show disk.byte (512 * (pos / 512) + (pos % 512 + i)) = disk.byte (pos + i)
    rw [← Nat.add_assoc, Nat.div_add_mod]

/-- From a sector boundary every length is read exactly, sector by sector. A
length that is a multiple of the sector size ends with a call for zero bytes,
which still fetches the following sector. -/
theorem diskstreamerRead_aligned {disk : Disk} {sector total : Nat} (mem : Memory) (out : Nat)
    (hExists : (512 * sector + total) / 512 < disk.sectors)
    (hFits : 512 * sector + total < 2147483648) :
    ∃ mem', diskstreamerRead disk ⟨(512 * sector : Nat), .diskObj⟩ mem out total =
        some ⟨0, ⟨(512 * sector + total : Nat), .diskObj⟩, mem'⟩ ∧
      Filled mem mem' out total fun i => disk.byte (512 * sector + i) := by
  induction total using Nat.strongRecOn generalizing sector mem out with
  | ind total ih =>
      by_cases hShort : total < 512
      · exact diskstreamerRead_short mem out (by omega) (by omega) hFits
      · have hBoundary : toInt (((512 * sector : Nat) : Int) + (512 - 512 * sector % 512 : Nat)) =
            (512 * (sector + 1) : Nat) := by
          rw [toInt_of_range (by omega) (by omega)]
          omega
        have hOffset : 512 * sector % 512 = 0 := by omega
        have hSector : 512 * sector / 512 = sector := by omega
        obtain ⟨mem', hRest, hFilled⟩ := ih (total - 512) (by omega)
          (copyLoop (fun i => disk.byte (512 * sector + i)) 512 0 out mem) (out + 512)
          (show (512 * (sector + 1) + (total - 512)) / 512 < disk.sectors by omega) (by omega)
        have hCount : (total : Int) - 512 = (total - 512 : Nat) := by omega
        have hEnd : 512 * (sector + 1) + (total - 512) = 512 * sector + total := by omega
        have hHead : Filled mem (copyLoop (fun i => disk.byte (512 * sector + i)) 512 0 out mem)
            out 512 fun i => disk.byte (512 * sector + i) :=
          (copyLoop_filled _ 512 0 out mem).congr fun i _ => by
            show disk.byte (512 * sector + (0 + i)) = _
            rw [Nat.zero_add]
        have hAll := hHead.append (hFilled.congr fun i _ =>
          congrArg disk.byte (show 512 * (sector + 1) + i = 512 * sector + (512 + i) by omega))
        refine ⟨mem', ?_, by rwa [show 512 + (total - 512) = total by omega] at hAll⟩
        rw [diskstreamerRead_eq disk _ mem out total (by omega), if_pos (by omega),
          if_pos (by omega), hBoundary]
        simp only [hOffset, hSector, Nat.sub_zero, hCount, hRest, hEnd]

/-- From the 2^31st byte on the position is negative as a signed number, and
so is its sector: the address registers select a drive that is not there. -/
theorem diskstreamerRead_wrapped {disk : Disk} {sector : Nat} (hSector : 0 < sector)
    (hFits : sector ≤ 4194304) (mem : Memory) (out : Nat) (total : Int) :
    diskstreamerRead disk ⟨-((512 * sector : Nat) : Int), .diskObj⟩ mem out total = none := by
  have hDiv : (-((512 * sector : Nat) : Int)).tdiv 512 = -(sector : Int) := by
    rw [Int.neg_tdiv, Int.tdiv_eq_ediv_of_nonneg (by omega)]
    omega
  have hDrive : ¬ -(sector : Int) / 268435456 % 2 = 0 := by omega
  rw [diskstreamerRead]
  simp only [liebeOsSectorSize, hDiv, diskReadBlock, diskReadSector, ataSector, if_neg hDrive,
    ne_eq, not_true_eq_false, if_false]

/-- Called with a negative byte count at a sector boundary, the stream copies
nothing and moves back by that count. -/
theorem diskstreamerRead_negative {disk : Disk} {sector : Nat} (mem : Memory) (out back : Nat)
    (hBack : 0 < back) (hFits : 512 * sector < 2147483648) :
    diskstreamerRead disk ⟨(512 * sector : Nat), .diskObj⟩ mem out (-back) =
      if sector < disk.sectors then
        some ⟨0, ⟨toInt ((512 * sector : Nat) - back), .diskObj⟩, mem⟩
      else none := by
  have hSector : 512 * sector / 512 = sector := by omega
  have hCount : (-(back : Int)).toNat = 0 := by omega
  rw [diskstreamerRead_eq disk _ mem out _ hFits, hSector]
  by_cases hExists : sector < disk.sectors
  · rw [if_pos hExists, if_pos hExists, if_neg (by omega), hCount, copyLoop,
      Int.sub_eq_add_neg]
  · rw [if_neg hExists, if_neg hExists]

end LiebeOS
