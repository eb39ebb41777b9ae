import LiebeOS.Disk.StreamExact

/-! What a read of the stream delivers from any position, when it comes back at
all. A read that starts inside a sector and reaches its end skips as many bytes
at its own end as lie in front of the start. -/
namespace LiebeOS

open MachineInt Bytes

/-- The bytes at the front of the request that are delivered. -/
def deliveredBytes (pos total : Nat) : Nat :=
  if pos % 512 + total < 512 then total else max total 512 - pos % 512

/-- The last sector that is asked for. -/
def lastSector (pos total : Nat) : Nat :=
  if pos % 512 + total < 512 then pos / 512 else pos / 512 + 1 + (total - 512) / 512

/-- The drive has all the sectors that are asked for, below the 2^31st byte. A
request for nothing, or for less, asks for one sector. -/
def StreamServed (disk : Disk) (pos total : Int) : Prop :=
  (0 < total → 0 ≤ pos ∧ lastSector pos.toNat total.toNat < min disk.sectors 4194304) ∧
    (total ≤ 0 → -512 < pos ∧ pos.toNat / 512 < disk.sectors)

instance (disk : Disk) (pos total : Int) : Decidable (StreamServed disk pos total) :=
  inferInstanceAs (Decidable (_ ∧ _))

theorem deliveredBytes_le (pos : Nat) {total : Nat} : deliveredBytes pos total ≤ total := by
  unfold deliveredBytes
  split_ifs <;> omega

/-- Everything is delivered from a boundary, and otherwise up to the end of the
sector. -/
theorem deliveredBytes_eq_iff (pos : Nat) {total : Nat} :
    deliveredBytes pos total = total ↔ pos % 512 = 0 ∧ 512 ≤ total ∨ pos % 512 + total ≤ 512 := by
  unfold deliveredBytes
  split_ifs <;> omega

section Served

variable {disk : Disk} {mem : Memory} {out : Nat}

/-- The sector boundary behind a position, as the stream stores it. -/
theorem toInt_boundary {pos : Nat} (hPos : pos < 2147483648) :
    toInt ((pos : Int) + (512 - pos % 512 : Nat)) =
      if pos / 512 + 1 < 4194304 then ((512 * (pos / 512 + 1) : Nat) : Int)
      else -((512 * 4194304 : Nat) : Int) := by
  unfold toInt
  split_ifs <;> omega

/-- The rest of a read that has reached the end of its first sector. -/
theorem diskstreamerRead_rest (disk : Disk) (sector total : Nat) (mem : Memory) (out : Nat) :
    if sector + 1 + (total - 512) / 512 < min disk.sectors 4194304 then
      ∃ stream' mem', diskstreamerRead disk ⟨if sector + 1 < 4194304 then
          ((512 * (sector + 1) : Nat) : Int) else -((512 * 4194304 : Nat) : Int), .diskObj⟩ mem out
          ((total : Int) - 512) = some ⟨0, stream', mem'⟩ ∧
        Filled mem mem' out (total - 512) fun i => disk.byte (512 * (sector + 1) + i)
    else diskstreamerRead disk ⟨if sector + 1 < 4194304 then
      ((512 * (sector + 1) : Nat) : Int) else -((512 * 4194304 : Nat) : Int), .diskObj⟩ mem out
      ((total : Int) - 512) = none := by
  by_cases hBoundary : sector + 1 < 4194304
  · rw [if_pos hBoundary]
    by_cases hMore : 512 ≤ total
    · have hCount : (total : Int) - 512 = (total - 512 : Nat) := by omega
      rw [hCount]
      by_cases hServed : sector + 1 + (total - 512) / 512 < min disk.sectors 4194304
      · rw [if_pos hServed]
        obtain ⟨mem', hRead, hFilled⟩ := @diskstreamerRead_aligned disk (sector + 1) (total - 512)
          mem out (by omega) (by omega)
        exact ⟨_, mem', hRead, hFilled⟩
      · rw [if_neg hServed]
        cases hRead : diskstreamerRead disk ⟨(512 * (sector + 1) : Nat), .diskObj⟩ mem out
            (total - 512 : Nat) with
        | none => rfl
        | some r =>
            obtain ⟨_, hExists, hFits⟩ := diskstreamerRead_aligned_some (by omega) hRead
            exact absurd (show _ < _ by omega) hServed
    · have hCount : (total : Int) - 512 = -((512 - total : Nat) : Int) := by omega
      have hNone : total - 512 = 0 := by omega
      rw [hCount, diskstreamerRead_negative mem out (512 - total) (by omega) (by omega), hNone]
      by_cases hExists : sector + 1 < disk.sectors
      · rw [if_pos (by omega), if_pos hExists]
        exact ⟨_, mem, rfl, Filled.refl mem out _⟩
      · rw [if_neg (by omega), if_neg hExists]
  · rw [if_neg (by omega), if_neg hBoundary, diskstreamerRead_wrapped (by decide) (by decide)]

/-- A read from a position in front of the 2^31st byte. -/
theorem diskstreamerRead_from (disk : Disk) {pos total : Nat} (hPos : pos < 2147483648)
    (mem : Memory) (out : Nat) :
    if lastSector pos total < min disk.sectors 4194304 then
      ∃ stream' mem', diskstreamerRead disk ⟨pos, .diskObj⟩ mem out total =
          some ⟨0, stream', mem'⟩ ∧
        Filled mem mem' out (deliveredBytes pos total) fun i => disk.byte (pos + i)
    else diskstreamerRead disk ⟨pos, .diskObj⟩ mem out total = none := by
  unfold lastSector deliveredBytes
  by_cases hShort : pos % 512 + total < 512
  · rw [if_pos hShort, if_pos hShort]
    by_cases hExists : pos / 512 < disk.sectors
    · rw [if_pos (by omega)]
      obtain ⟨mem', hRead, hFilled⟩ := diskstreamerRead_short mem out hShort hExists (by omega)
      exact ⟨_, mem', hRead, hFilled⟩
    · rw [if_neg (by omega), diskstreamerRead_eq disk pos mem out _ hPos, if_neg hExists]
  · have hCall := diskstreamerRead_eq disk pos mem out total hPos
    rw [if_pos (show (512 : Int) ≤ (pos % 512 : Nat) + total by omega), toInt_boundary hPos] at hCall
    rw [if_neg hShort, if_neg hShort, hCall]
    by_cases hExists : pos / 512 < disk.sectors
    · rw [if_pos hExists]
      have hFirst := copyLoop_filled (fun i => disk.byte (512 * (pos / 512) + i)) (512 - pos % 512)
        (pos % 512) out mem
      have hRest := diskstreamerRead_rest disk (pos / 512) total
        (copyLoop (fun i => disk.byte (512 * (pos / 512) + i)) (512 - pos % 512) (pos % 512) out mem)
        (out + (512 - pos % 512))
      by_cases hServed : pos / 512 + 1 + (total - 512) / 512 < min disk.sectors 4194304
      · rw [if_pos hServed] at hRest ⊢
        obtain ⟨stream', mem', hRead, hFilled⟩ := hRest
        have hLength : 512 - pos % 512 + (total - 512) = max total 512 - pos % 512 := by omega
        refine ⟨stream', mem', hRead, ?_⟩
        rw [← hLength]
        refine Filled.append (hFirst.congr fun i _ => ?_) (hFilled.congr fun i _ => ?_)
        · exact congrArg disk.byte (by omega)
        · exact congrArg disk.byte (by omega)
      · rw [if_neg hServed] at hRest ⊢
        exact hRest
    · rw [if_neg hExists, if_neg (by omega)]

/-- From less than a sector in front of the drive, its first sector is fetched. -/
theorem diskstreamerRead_eq_front {back : Nat} (hBack : 0 < back) (hSector : back < 512)
    (disk : Disk) (mem : Memory) (out : Nat) (total : Int) :
    diskstreamerRead disk ⟨-(back : Int), .diskObj⟩ mem out total =
      if 0 < disk.sectors ∧ total ≤ 0 then
        some ⟨0, ⟨toInt (-(back : Int) + total), .diskObj⟩, mem⟩
      else none := by
  have hDiv : (-(back : Int)).tdiv 512 = (0 : Nat) := by
    rw [Int.neg_tdiv, Int.tdiv_eq_ediv_of_nonneg (by omega)]
    omega
  have hMod : (-(back : Int)).tmod 512 = -back := by
    rw [Int.neg_tmod, Int.tmod_eq_emod_of_nonneg (by omega)]
    omega
  rw [diskstreamerRead]
  simp only [liebeOsSectorSize, hDiv, hMod, diskReadBlock, diskReadSector,
    ataSector_of_range (show 0 < 268435456 by decide), ne_eq, not_true_eq_false, if_false,
    Nat.succ_le_iff]
  by_cases hExists : 0 < disk.sectors
  · have hFront : -(back : Int) < 0 := by omega
    rw [if_pos hExists]
    simp only [Int.lt_irrefl, if_false, hFront, true_and]
    by_cases hNone : total ≤ 0
    · have hCount : ¬ 0 < total := by omega
      have hShort : ¬ -(back : Int) + total ≥ 512 := by omega
      have hToRead : total.toNat = 0 := by omega
      simp only [if_neg hShort, if_neg hCount, if_pos (And.intro hExists hNone), hToRead, copyLoop]
    · have hCount : 0 < if -(back : Int) + total ≥ 512 then total - (-(back : Int) + total - 512)
          else total := by
        split <;> omega
      rw [if_pos hCount, if_neg fun h => hNone h.2]
  · rw [if_neg hExists]
    exact (if_neg fun h => hExists h.1).symm

/-- From a sector in front of the drive, no drive answers. -/
theorem diskstreamerRead_eq_below {back : Nat} (hBack : 512 ≤ back) (hLow : back ≤ 2147483648)
    (disk : Disk) (mem : Memory) (out : Nat) (total : Int) :
    diskstreamerRead disk ⟨-(back : Int), .diskObj⟩ mem out total = none := by
  have hDiv : (-(back : Int)).tdiv 512 = -((back / 512 : Nat) : Int) := by
    rw [Int.neg_tdiv, Int.tdiv_eq_ediv_of_nonneg (by omega)]
    omega
  have hDrive : ¬ -((back / 512 : Nat) : Int) / 268435456 % 2 = 0 := by omega
  rw [diskstreamerRead]
  simp only [liebeOsSectorSize, hDiv, diskReadBlock, diskReadSector, ataSector, if_neg hDrive,
    ne_eq, not_true_eq_false, if_false]

/-- What any read of the stream delivers. -/
theorem diskstreamerRead_served {pos total : Int} (hLow : -2147483648 ≤ pos)
    (hHigh : pos < 2147483648) (disk : Disk) (mem : Memory) (out : Nat) :
    if StreamServed disk pos total then
      ∃ stream' mem', diskstreamerRead disk ⟨pos, .diskObj⟩ mem out total =
          some ⟨0, stream', mem'⟩ ∧
        Filled mem mem' out (deliveredBytes pos.toNat total.toNat) fun i =>
          disk.byte (pos.toNat + i)
    else diskstreamerRead disk ⟨pos, .diskObj⟩ mem out total = none := by
  have hNone : ∀ o, total ≤ 0 → deliveredBytes o total.toNat = 0 := fun o hTotal =>
    Nat.le_zero.mp (le_trans (deliveredBytes_le o) (by omega))
  by_cases hFront : 0 ≤ pos
  · obtain ⟨n, rfl⟩ := Int.eq_ofNat_of_zero_le hFront
    by_cases hTotal : 0 < total
    · obtain ⟨count, rfl⟩ := Int.eq_ofNat_of_zero_le (show 0 ≤ total by omega)
      have hRead := @diskstreamerRead_from disk n count (by omega) mem out
      by_cases hServed : lastSector n count < min disk.sectors 4194304
      · rw [if_pos hServed] at hRead
        rw [if_pos ⟨fun _ => ⟨hFront, hServed⟩, fun h => absurd h (by omega)⟩]
        exact hRead
      · rw [if_neg hServed] at hRead
        rw [if_neg fun h => hServed (h.1 hTotal).2]
        exact hRead
    · have hCount : total.toNat = 0 := by omega
      have hCall := diskstreamerRead_eq disk n mem out total (by omega)
      rw [if_neg (show ¬ (512 : Int) ≤ (n % 512 : Nat) + total by omega)] at hCall
      rw [hNone _ (by omega), hCall]
      by_cases hExists : n / 512 < disk.sectors
      · rw [if_pos ⟨fun h => absurd h hTotal, fun _ => ⟨by omega, hExists⟩⟩, if_pos hExists,
          hCount]
        exact ⟨_, mem, rfl, Filled.refl mem out _⟩
      · rw [if_neg fun h => hExists (h.2 (by omega)).2, if_neg hExists]
  · obtain ⟨back, rfl⟩ : ∃ back : Nat, pos = -(back : Int) := ⟨(-pos).toNat, by omega⟩
    have hSector : (-(back : Int)).toNat / 512 = 0 := by omega
    by_cases hNear : back < 512
    · rw [diskstreamerRead_eq_front (by omega) hNear]
      by_cases hServed : 0 < disk.sectors ∧ total ≤ 0
      · rw [if_pos ⟨fun h => absurd h (by omega), fun _ => ⟨by omega, by omega⟩⟩, if_pos hServed,
          hNone _ hServed.2]
        exact ⟨_, mem, rfl, Filled.refl mem out _⟩
      · have hNot : ¬ StreamServed disk (-(back : Int)) total := fun h => hServed <| by
          by_cases hTotal : 0 < total
          · exact absurd (h.1 hTotal).1 hFront
          · have hExists := (h.2 (by omega)).2
            exact ⟨by omega, by omega⟩
        rw [if_neg hNot, if_neg hServed]
    · have hNot : ¬ StreamServed disk (-(back : Int)) total := fun h => by
        by_cases hTotal : 0 < total
        · exact absurd (h.1 hTotal).1 hFront
        · exact absurd (h.2 (by omega)).1 (by omega)
      rw [if_neg hNot, diskstreamerRead_eq_below (by omega) (by omega)]

end Served

end LiebeOS
