import Mathlib.Algebra.Ring.Nat
import LiebeOS.Disk.Streamer

/-! When one read, and when a sequence of reads, delivers exactly the bytes
at the stream position. -/
namespace LiebeOS

open MachineInt Bytes

/-- The contract of a read of `total` bytes at `pos`: it succeeds, stores the
disk bytes from `pos` on, writes nothing else and moves the stream by `total`. -/
def ReadExact (disk : Disk) (pos total : Nat) (mem : Memory) (out : Nat) : Prop :=
  ∃ mem', diskstreamerRead disk ⟨pos, .diskObj⟩ mem out total =
      some ⟨0, ⟨(pos + total : Nat), .diskObj⟩, mem'⟩ ∧
    Filled mem mem' out total fun i => disk.byte (pos + i)

/-- The read starts on a sector boundary or ends before the end of the sector
it starts in, and the drive has the sector that holds position `pos + total`. -/
def ReadFits (disk : Disk) (pos total : Nat) : Prop :=
  (pos % 512 = 0 ∨ pos % 512 + total < 512) ∧ (pos + total) / 512 < disk.sectors

instance (disk : Disk) (pos total : Nat) : Decidable (ReadFits disk pos total) :=
  inferInstanceAs (Decidable (_ ∧ _))

theorem ReadFits.exact {disk : Disk} {pos total : Nat} (h : ReadFits disk pos total)
    (hFits : pos + total < 2147483648) (mem : Memory) (out : Nat) :
    ReadExact disk pos total mem out := by
  obtain ⟨hPlace, hExists⟩ := h
  rcases hPlace with hAligned | hShort
  · have hPos : 512 * (pos / 512) = pos := by omega
    have hRead := diskstreamerRead_aligned mem out
      (show (512 * (pos / 512) + total) / 512 < disk.sectors by rwa [hPos]) (by omega)
    rwa [hPos] at hRead
  · exact diskstreamerRead_short mem out hShort (by omega) hFits

/-- A read from a boundary that comes back at all ends where it should, below
2^31 and on a sector the drive has. -/
theorem diskstreamerRead_aligned_some {disk : Disk} {sector total : Nat} {mem : Memory}
    {out : Nat} {r : ReadResult} (hPos : 512 * sector < 2147483648)
    (h : diskstreamerRead disk ⟨(512 * sector : Nat), .diskObj⟩ mem out total = some r) :
    r.stream.pos = (512 * sector + total : Nat) ∧
      (512 * sector + total) / 512 < disk.sectors ∧ 512 * sector + total < 2147483648 := by
  have hOffset : 512 * sector % 512 = 0 := by omega
  have hSector : 512 * sector / 512 = sector := by omega
  induction total using Nat.strongRecOn generalizing sector mem out with
  | ind total ih =>
      rw [diskstreamerRead_eq disk _ mem out total hPos, hOffset, hSector] at h
      by_cases hExists : sector < disk.sectors
      · rw [if_pos hExists] at h
        by_cases hLong : 512 ≤ total
        · rw [if_pos (by omega), show (total : Int) - 512 = (total - 512 : Nat) by omega] at h
          by_cases hNext : 512 * (sector + 1) < 2147483648
          · have hBoundary : toInt (((512 * sector : Nat) : Int) + (512 - 0 : Nat)) =
                (512 * (sector + 1) : Nat) := by
              rw [toInt_of_range (by omega) (by omega)]
              omega
            rw [hBoundary] at h
            obtain ⟨hEnd, hLast, hFits⟩ := ih (total - 512) (by omega) hNext h (by omega) (by omega)
            exact ⟨hEnd.trans (by omega), by omega, by omega⟩
          · have hBoundary : toInt (((512 * sector : Nat) : Int) + (512 - 0 : Nat)) =
                -((512 * 4194304 : Nat) : Int) := by
              unfold toInt
              omega
            rw [hBoundary, diskstreamerRead_wrapped (by omega) (by omega)] at h
            exact absurd h (by simp)
        · rw [if_neg (by omega), Option.some.injEq] at h
          subst h
          refine ⟨?_, by omega, by omega⟩
          change toInt (((512 * sector : Nat) : Int) + total) = _
          rw [toInt_of_range (by omega) (by omega)]
          omega
      · rw [if_neg hExists] at h
        exact absurd h (by simp)

/-- A read that starts inside a sector and reaches its end leaves the stream
short by the start offset: the further call is made for `total - 512` bytes
although only `512 - offset` have been delivered. -/
theorem diskstreamerRead_crossing {disk : Disk} {pos total : Nat} {mem : Memory} {out : Nat}
    {r : ReadResult} (hCross : 512 ≤ pos % 512 + total) (hFits : pos + total < 2147483648)
    (h : diskstreamerRead disk ⟨pos, .diskObj⟩ mem out total = some r) :
    r.stream.pos = (pos + total : Nat) - (pos % 512 : Nat) := by
  rw [diskstreamerRead_eq disk _ mem out total (by omega)] at h
  by_cases hExists : pos / 512 < disk.sectors
  · have hBoundary : toInt ((pos : Int) + (512 - pos % 512 : Nat)) = (512 * (pos / 512 + 1) : Nat) := by
      rw [toInt_of_range (by omega) (by omega)]
      omega
    rw [if_pos hExists, if_pos (by omega), hBoundary] at h
    by_cases hMore : 512 ≤ total
    · rw [show (total : Int) - 512 = (total - 512 : Nat) by omega] at h
      rw [(diskstreamerRead_aligned_some (by omega) h).1]
      omega
    · have hBack : (total : Int) - 512 = -((512 - total : Nat) : Int) := by omega
      rw [hBack, diskstreamerRead_negative _ _ _ (by omega) (by omega)] at h
      by_cases hNext : pos / 512 + 1 < disk.sectors
      · rw [if_pos hNext, Option.some.injEq] at h
        subst h
        change toInt _ = _
        rw [toInt_of_range (by omega) (by omega)]
        omega
      · rw [if_neg hNext] at h
        exact absurd h (by simp)
  · rw [if_neg hExists] at h
    exact absurd h (by simp)

theorem ReadExact.fits {disk : Disk} {pos total : Nat} {mem : Memory} {out : Nat}
    (h : ReadExact disk pos total mem out) (hFits : pos + total < 2147483648) :
    ReadFits disk pos total := by
  obtain ⟨mem', hRead, _⟩ := h
  by_cases hAligned : pos % 512 = 0
  · have hPos : 512 * (pos / 512) = pos := by omega
    rw [← hPos] at hRead
    have hLast := (diskstreamerRead_aligned_some (by omega) hRead).2.1
    exact ⟨Or.inl hAligned, by rwa [hPos] at hLast⟩
  · by_cases hShort : pos % 512 + total < 512
    · refine ⟨Or.inr hShort, ?_⟩
      rw [diskstreamerRead_eq disk _ mem out total (by omega)] at hRead
      by_cases hExists : pos / 512 < disk.sectors
      · omega
      · rw [if_neg hExists] at hRead
        exact absurd hRead (by simp)
    · have hEnd := diskstreamerRead_crossing (by omega) hFits hRead
      simp only at hEnd
      omega

/-! ### Successive reads -/

/-- One read after another into adjacent parts of a buffer; stops at the
first error. -/
def diskstreamerReads (disk : Disk) (stream : DiskStream) (mem : Memory) (out : Nat) :
    List Nat → Option ReadResult
  | [] => some ⟨0, stream, mem⟩
  | total :: rest =>
      match diskstreamerRead disk stream mem out total with
      | none => none
      | some r =>
          if r.res ≠ 0 then some r
          else diskstreamerReads disk r.stream r.mem (out + total) rest

/-- Every read of the sequence fits at the position where it starts. -/
def ReadsFit (disk : Disk) : Nat → List Nat → Prop
  | _, [] => True
  | pos, total :: rest => ReadFits disk pos total ∧ ReadsFit disk (pos + total) rest

theorem diskstreamerReads_exact {disk : Disk} {pos : Nat} {totals : List Nat}
    (h : ReadsFit disk pos totals) (hFits : pos + totals.sum < 2147483648)
    (mem : Memory) (out : Nat) :
    ∃ mem', diskstreamerReads disk ⟨pos, .diskObj⟩ mem out totals =
        some ⟨0, ⟨(pos + totals.sum : Nat), .diskObj⟩, mem'⟩ ∧
      Filled mem mem' out totals.sum fun i => disk.byte (pos + i) := by
  induction totals generalizing pos mem out with
  | nil => exact ⟨mem, rfl, Filled.refl mem out _⟩
  | cons total rest ih =>
      rw [List.sum_cons] at hFits ⊢
      obtain ⟨mid, hHead, hHeadFilled⟩ := h.1.exact (by omega) mem out
      obtain ⟨fin, hRest, hRestFilled⟩ := ih h.2 (by omega) mid (out + total)
      refine ⟨fin, ?_, ?_⟩
      · simp only [diskstreamerReads, hHead, ne_eq, not_true_eq_false, if_false, hRest,
          Nat.add_assoc]
      · exact hHeadFilled.append (hRestFilled.congr fun i _ =>
          congrArg disk.byte (Nat.add_assoc pos total i))

/-- Among the reads inside the disk and below 2^31 exactly those that fit are
exact. A sequence of reads that all fit delivers what one exact read of the
summed length delivers. -/
theorem diskstreamerRead_exact_iff (disk : Disk) (pos total : Nat) (mem : Memory) (out : Nat)
    (_hDisk : pos + total ≤ 512 * disk.sectors) (hFits : pos + total < 2147483648) :
    (ReadExact disk pos total mem out ↔ ReadFits disk pos total) ∧
      ∀ totals : List Nat, totals.sum = total → ReadsFit disk pos totals →
        ∃ mem', diskstreamerReads disk ⟨pos, .diskObj⟩ mem out totals =
            some ⟨0, ⟨(pos + total : Nat), .diskObj⟩, mem'⟩ ∧
          Filled mem mem' out total (fun i => disk.byte (pos + i)) ∧
          ∀ r, ReadExact disk pos total mem out →
            diskstreamerRead disk ⟨pos, .diskObj⟩ mem out total = some r → r.mem = mem' := by
  refine ⟨⟨fun h => h.fits hFits, fun h => h.exact hFits mem out⟩, ?_⟩
  rintro totals rfl hReads
  obtain ⟨mem', hRun, hFilled⟩ := diskstreamerReads_exact hReads hFits mem out
  refine ⟨mem', hRun, hFilled, fun r hExact hRead => ?_⟩
  obtain ⟨single, hSingle, hSingleFilled⟩ := hExact
  rw [hRead, Option.some.injEq] at hSingle
  subst hSingle
  exact hSingleFilled.unique hFilled

/-- The condition met and missed on one drive: two reads that make up one
sector, against one read across the boundary. -/
theorem diskstreamerRead_exact_iff_drive :
    let disk : Disk := ⟨4, fun i => UInt8.ofNat i⟩
    ReadExact disk 512 700 (fun _ => 0) 0 ∧ ¬ ReadExact disk 500 700 (fun _ => 0) 0 := by
  intro disk
  exact ⟨(diskstreamerRead_exact_iff disk 512 700 _ 0 (by decide) (by decide)).1.mpr (by decide),
    fun h => absurd ((diskstreamerRead_exact_iff disk 500 700 _ 0 (by decide) (by decide)).1.mp h)
      (by decide)⟩

/-- Reading the last 32 bytes of the first sector of a four-sector drive
leaves the stream at 32, not at 512. -/
theorem diskstreamerRead_inexact :
    ¬ ∀ (disk : Disk) (pos total : Nat) (mem : Memory) (out : Nat),
      pos + total ≤ 512 * disk.sectors → pos + total < 2147483648 →
      ReadExact disk pos total mem out := by
  intro hClaim
  obtain ⟨mem', hRead, _⟩ := hClaim ⟨4, fun i => UInt8.ofNat i⟩ 480 32 (fun _ => 0) 0
    (by decide) (by decide)
  have hEnd := diskstreamerRead_crossing (by decide) (by decide) hRead
  simp only at hEnd
  omega

end LiebeOS
