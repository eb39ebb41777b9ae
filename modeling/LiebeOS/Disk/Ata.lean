import LiebeOS.Disk.Streamer
import LiebeOS.Lib.Loop
import LiebeOS.Lib.Words

/-! The driver of `disk.c` at the ports of an ATA drive, and that it is what the block
model of the drive says. The drive answers the protocol for reading sectors by 28-bit
addresses. How often it is asked before it has the next sector is its own affair; what
the protocol does not allow, it does not answer (`none`). -/
namespace LiebeOS

open MachineInt Bytes Loop

/-! ### The drive -/

/-- What the drive is at. With `left` sectors to deliver it is fetching `sector`, which
takes `polls` more questions, or has it in its buffer up to `word`. -/
inductive AtaPhase where
  | idle
  | busy (polls sector left : Nat)
  | data (sector left word : Nat)
  | failed
  deriving DecidableEq

/-- The command registers of a drive. Its `n`th sector is there after `delay n`
questions, and it has been asked for `fetched` of them. -/
structure AtaDrive where
  sectorCount : UInt8
  lbaLow : UInt8
  lbaMid : UInt8
  lbaHigh : UInt8
  driveHead : UInt8
  phase : AtaPhase
  delay : Nat → Nat
  fetched : Nat

/-- A master drive alone on its cable does not answer for the slave. -/
def AtaDrive.slaveSelected (d : AtaDrive) : Prop := d.driveHead &&& 0x10 ≠ 0

instance (d : AtaDrive) : Decidable d.slaveSelected := inferInstanceAs (Decidable (_ ≠ _))

/-- The sector in the registers. -/
def AtaDrive.lba (d : AtaDrive) : Nat :=
  d.lbaLow.toNat + 256 * d.lbaMid.toNat + 65536 * d.lbaHigh.toNat +
    16777216 * (d.driveHead &&& 0x0F).toNat

/-- None stands for 256. -/
def AtaDrive.count (d : AtaDrive) : Nat := if d.sectorCount = 0 then 256 else d.sectorCount.toNat

/-- The drive turns to the next sector, if there is one. -/
def AtaDrive.fetch (disk : Disk) (d : AtaDrive) (sector left : Nat) : AtaDrive :=
  if sector < disk.sectors then
    { d with phase := .busy (d.delay d.fetched) sector left, fetched := d.fetched + 1 }
  else { d with phase := .failed }

/-- A command for the slave is not carried out. Only `READ SECTORS` is known, and only
with an address of 28 bits. -/
def AtaDrive.command (disk : Disk) (d : AtaDrive) (v : UInt8) : Option AtaDrive :=
  if v ≠ 0x20 then none
  else if d.slaveSelected then some d
  else if d.driveHead &&& 0x40 = 0 then none
  else some (d.fetch disk d.lba d.count)

/-- `outb`. While a command is being carried out no register may be written. -/
def AtaDrive.outb (disk : Disk) (port : Nat) (v : UInt8) (d : AtaDrive) : Option AtaDrive :=
  match d.phase with
  | .busy _ _ _ => none
  | .data _ _ _ => none
  | _ =>
      match port with
      | 0x1F2 => some { d with sectorCount := v }
      | 0x1F3 => some { d with lbaLow := v }
      | 0x1F4 => some { d with lbaMid := v }
      | 0x1F5 => some { d with lbaHigh := v }
      | 0x1F6 => some { d with driveHead := v }
      | 0x1F7 => d.command disk v
      | _ => none

/-- `insb` of the status. A busy drive shows nothing else, and bit 3 is the flag for
data. -/
def AtaDrive.status (d : AtaDrive) : UInt8 × AtaDrive :=
  if d.slaveSelected then (0, d)
  else
    match d.phase with
    | .idle => (0x50, d)
    | .busy 0 sector left => (0x58, { d with phase := .data sector left 0 })
    | .busy (polls + 1) sector left => (0x80, { d with phase := .busy polls sector left })
    | .data _ _ _ => (0x58, d)
    | .failed => (0x51, d)

/-- After the last word of a sector comes the next sector. -/
def AtaDrive.delivered (disk : Disk) (d : AtaDrive) (sector left : Nat) : AtaDrive :=
  if left ≤ 1 then { d with phase := .idle } else d.fetch disk (sector + 1) (left - 1)

/-- `insw` of the data. -/
def AtaDrive.insw (disk : Disk) (d : AtaDrive) : Option (Nat × AtaDrive) :=
  match d.phase with
  | .data sector left word =>
      some (le16 disk.byte (512 * sector + 2 * word),
        if word + 1 < 256 then { d with phase := .data sector left (word + 1) }
        else d.delivered disk sector left)
  | _ => none

/-! ### The driver -/

/-- The address and the number of sectors go to the registers, and the command after
them. The drive number that belongs to bit 28 comes from the address. -/
def diskReadCommand (disk : Disk) (lba total : Int) (d : AtaDrive) : Option AtaDrive := do
  let d ← d.outb disk 0x1F6 (wordByte (toWord lba) 3 ||| 0xE0)
  let d ← d.outb disk 0x1F2 (wordByte (toWord total) 0)
  let d ← d.outb disk 0x1F3 (wordByte (toWord lba) 0)
  let d ← d.outb disk 0x1F4 (wordByte (toWord lba) 1)
  let d ← d.outb disk 0x1F5 (wordByte (toWord lba) 2)
  d.outb disk 0x1F7 0x20

/-- One round of `do {} while (!(insb(0x1F7) & 0x08))`. -/
def diskWait (d : AtaDrive) : Option (AtaDrive ⊕ AtaDrive) :=
  let (status, d) := d.status
  some (if status &&& 0x08 = 0 then .inl d else .inr d)

/-- `n` words from the drive to `ptr`. -/
def diskReadWords (disk : Disk) : Nat → AtaDrive → Nat → Memory → Option (AtaDrive × Nat × Memory)
  | 0, d, ptr, mem => some (d, ptr, mem)
  | n + 1, d, ptr, mem => do
      let (w, d) ← d.insw disk
      diskReadWords disk n d (behind ptr 2) (storeRange mem ptr 2 (wordByte w))

/-- The rounds of the outer loop, with the patience to ask `fuel` times for a sector. -/
def diskReadSectors (disk : Disk) (fuel : Nat) :
    Nat → AtaDrive → Nat → Memory → Option (AtaDrive × Memory)
  | 0, d, _, mem => some (d, mem)
  | n + 1, d, ptr, mem => do
      let d ← iterate diskWait fuel d
      let (d, ptr, mem) ← diskReadWords disk 256 d ptr mem
      diskReadSectors disk fuel n d ptr mem

/-- `disk_read_sector` at the ports. -/
def diskReadSectorPorts (disk : Disk) (fuel : Nat) (lba total : Int) (buff : Nat) (d : AtaDrive)
    (mem : Memory) : Option (Int × AtaDrive × Memory) := do
  let d ← diskReadCommand disk lba total d
  let (d, mem) ← diskReadSectors disk fuel total.toNat d buff mem
  return (0, d, mem)

/-! ### What the drive delivers -/

section Drive

variable {disk : Disk} {d : AtaDrive} {sector left word polls ptr : Nat} {mem : Memory}

theorem AtaDrive.insw_data (h : d.phase = .data sector left word) :
    d.insw disk = some (le16 disk.byte (512 * sector + 2 * word),
      if word + 1 < 256 then { d with phase := .data sector left (word + 1) }
      else d.delivered disk sector left) := by
  rw [AtaDrive.insw, h]

/-- The two bytes of a word go where they belong. -/
theorem storeRange_le16 (bytes : Nat → UInt8) (a : Nat) :
    storeRange mem ptr 2 (wordByte (le16 bytes a)) = storeRange mem ptr 2 fun i => bytes (a + i) := by
  refine storeRange_congr fun i hi => ?_
  have hLow := (bytes a).toNat_lt
  have hHigh := (bytes (a + 1)).toNat_lt
  apply UInt8.toNat.inj
  rcases (show i = 0 ∨ i = 1 by omega) with rfl | rfl <;>
    simp only [wordByte, UInt8.toNat_ofNat', Nat.shiftRight_eq_div_pow, le16, Nat.mul_zero,
      Nat.add_zero] <;> omega

theorem AtaDrive.delivered_phase (d : AtaDrive) (phase : AtaPhase) :
    { d with phase := phase }.delivered disk sector left = d.delivered disk sector left := by
  unfold AtaDrive.delivered
  split_ifs <;> rfl

/-- What is left of a sector is stored, and the drive goes on. -/
theorem diskReadWords_rest {n : Nat} (h : d.phase = .data sector left word) (hn : 1 ≤ n)
    (hAll : word + n = 256) :
    diskReadWords disk n d ptr mem = some (d.delivered disk sector left, behind ptr (2 * n),
      storeRange mem ptr (2 * n) fun i => disk.byte (512 * sector + 2 * word + i)) := by
  induction n generalizing d word ptr mem with
  | zero => omega
  | succ n ih =>
      rw [diskReadWords, AtaDrive.insw_data h, Option.bind_eq_bind, Option.bind_some]
      dsimp only
      rw [storeRange_le16]
      by_cases hMore : word + 1 < 256
      · rw [if_pos hMore, ih (d := { d with phase := .data sector left (word + 1) }) rfl (by omega)
          (by omega), behind_behind]
        have hJoin := @storeRange_append mem ptr 2
          (fun i => disk.byte (512 * sector + 2 * word + i)) (2 * n) (by omega)
        simp only [← Nat.add_assoc] at hJoin
        rw [show 2 * (n + 1) = 2 + 2 * n by omega, ← hJoin]
        rfl
      · obtain rfl : n = 0 := by omega
        rw [if_neg hMore]
        rfl

theorem AtaDrive.fetch_exists (h : sector < disk.sectors) : d.fetch disk sector left =
    { d with phase := .busy (d.delay d.fetched) sector left, fetched := d.fetched + 1 } := if_pos h

theorem AtaDrive.fetch_missing (h : ¬ sector < disk.sectors) :
    d.fetch disk sector left = { d with phase := .failed } := if_neg h

/-- The driver sees the data of a busy drive if it asks often enough. -/
theorem diskWait_busy (hMaster : ¬ d.slaveSelected) (h : d.phase = .busy polls sector left)
    (fuel : Nat) : iterate diskWait fuel d =
      if polls < fuel then some { d with phase := .data sector left 0 } else none := by
  induction fuel generalizing d polls with
  | zero => rfl
  | succ fuel ih =>
      rw [iterate, diskWait, AtaDrive.status, if_neg hMaster, h]
      cases polls with
      | zero => rfl
      | succ polls =>
          refine (ih (d := { d with phase := .busy polls sector left }) hMaster rfl).trans ?_
          simp only [Nat.add_lt_add_iff_right]

/-- It sees none when there is no drive, or no such sector. -/
theorem diskWait_never (h : d.slaveSelected ∨ d.phase = .failed) (fuel : Nat) :
    iterate diskWait fuel d = none := by
  induction fuel with
  | zero => rfl
  | succ fuel ih =>
      by_cases hSlave : d.slaveSelected
      · rw [iterate, diskWait, AtaDrive.status, if_pos hSlave]
        exact ih
      · rw [iterate, diskWait, AtaDrive.status, if_neg hSlave, h.resolve_left hSlave]
        exact ih

/-- One round brings one sector, if there is patience enough for it. -/
theorem diskReadSectors_round {n : Nat} (hMaster : ¬ d.slaveSelected)
    (hExists : sector < disk.sectors) (fuel : Nat) :
    diskReadSectors disk fuel (n + 1) (d.fetch disk sector left) ptr mem =
      if d.delay d.fetched < fuel then
        diskReadSectors disk fuel n ({ d with fetched := d.fetched + 1 }.delivered disk sector left)
          (behind ptr 512) (storeRange mem ptr 512 fun i => disk.byte (512 * sector + i))
      else none := by
  have hFetch := @AtaDrive.fetch_exists disk d sector left hExists
  have hWait := diskWait_busy (d := d.fetch disk sector left) (by rwa [hFetch]) (by rw [hFetch]) fuel
  have hWords := @diskReadWords_rest disk
    { d with phase := .data sector left 0, fetched := d.fetched + 1 } sector left 0 ptr mem 256 rfl
    (by decide) rfl
  rw [diskReadSectors, hWait]
  by_cases hFuel : d.delay d.fetched < fuel
  · rw [if_pos hFuel, if_pos hFuel, hFetch, Option.bind_eq_bind, Option.bind_some]
    dsimp only
    rw [hWords, Option.bind_eq_bind, Option.bind_some]
    rw [← AtaDrive.delivered_phase { d with fetched := d.fetched + 1 } (.data sector left 0)]
    rfl
  · rw [if_neg hFuel, if_neg hFuel]
    rfl

theorem AtaDrive.delivered_more (hMore : 1 ≤ left) :
    d.delivered disk sector (left + 1) = d.fetch disk (sector + 1) left := if_neg (by omega)

theorem AtaDrive.delivered_last : d.delivered disk sector (0 + 1) = { d with phase := .idle } := rfl

theorem ite_patience {α : Type} (x : Option α) (p q fuel : Nat) :
    (if p < fuel then if q ≤ fuel then x else none else none) =
      if max q (p + 1) ≤ fuel then x else none := by
  split_ifs <;> first | rfl | omega

/-- With patience all the sectors are delivered, and the drive is idle behind them. -/
theorem diskReadSectors_returns (hMaster : ¬ d.slaveSelected) (hLeft : 1 ≤ left)
    (hSmall : left ≤ 256) (hExists : sector + left ≤ disk.sectors) :
    ∃ patience, ∀ fuel, diskReadSectors disk fuel left (d.fetch disk sector left) ptr mem =
      if patience ≤ fuel then
        some ({ d with phase := .idle, fetched := d.fetched + left },
          storeRange mem ptr (512 * left) fun i => disk.byte (512 * sector + i))
      else none := by
  induction left generalizing d sector ptr mem with
  | zero => omega
  | succ left ih =>
      by_cases hMore : 1 ≤ left
      · obtain ⟨patience, hRest⟩ := @ih { d with fetched := d.fetched + 1 } (sector + 1)
          (behind ptr 512) (storeRange mem ptr 512 fun i => disk.byte (512 * sector + i)) hMaster
          hMore (by omega) (by omega)
        refine ⟨max patience (d.delay d.fetched + 1), fun fuel => ?_⟩
        have hJoin := @storeRange_append mem ptr 512 (fun i => disk.byte (512 * sector + i))
          (512 * left) (by omega)
        simp only [← Nat.add_assoc] at hJoin
        rw [diskReadSectors_round hMaster (by omega), AtaDrive.delivered_more hMore, hRest fuel,
          show 512 * (sector + 1) = 512 * sector + 512 by omega, hJoin, ite_patience,
          show 512 + 512 * left = 512 * (left + 1) by omega]
        simp only [Nat.add_assoc, Nat.add_comm 1 left]
      · obtain rfl : left = 0 := by omega
        refine ⟨d.delay d.fetched + 1, fun fuel => ?_⟩
        rw [diskReadSectors_round hMaster (by omega), AtaDrive.delivered_last, diskReadSectors]
        rfl

/-- Behind the last sector of the drive the driver waits for ever. -/
theorem diskReadSectors_never (hMaster : ¬ d.slaveSelected) (hLeft : 1 ≤ left)
    (hMissing : disk.sectors < sector + left) (fuel : Nat) :
    diskReadSectors disk fuel left (d.fetch disk sector left) ptr mem = none := by
  induction left generalizing d sector ptr mem with
  | zero => omega
  | succ left ih =>
      by_cases hExists : sector < disk.sectors
      · rw [diskReadSectors_round hMaster hExists, AtaDrive.delivered_more (by omega)]
        split_ifs
        · exact ih (d := { d with fetched := d.fetched + 1 }) hMaster (by omega) (by omega)
        · rfl
      · rw [diskReadSectors, AtaDrive.fetch_missing hExists, diskWait_never (Or.inr rfl)]
        rfl

end Drive

/-! ### The driver is the block model -/

/-- `disk_read_block` at the ports. The number of the sector is unsigned on its way. -/
def diskReadBlockPorts (disk : Disk) (fuel : Nat) (idisk : DiskPtr) (lba total : Int) (buff : Nat)
    (d : AtaDrive) (mem : Memory) : Option (Int × AtaDrive × Memory) :=
  if idisk ≠ .diskObj then some (-eio, d, mem)
  else diskReadSectorPorts disk fuel (toInt (toWord lba)) total buff d mem

/-- A call of `disk_read_block` with as many sectors as a command can ask for, 1 to 256. The
function itself does not check this. -/
structure BlockCall where
  lba : Int
  total : Int
  buff : Nat
  isInt : -2147483648 ≤ lba ∧ lba < 2147483648
  fits : 1 ≤ total ∧ total ≤ 256

/-- Calls one after the other at the ports. -/
def blockCallsPorts (disk : Disk) (fuel : Nat) :
    List BlockCall → AtaDrive → Memory → Option (AtaDrive × Memory)
  | [], d, mem => some (d, mem)
  | c :: calls, d, mem => do
      let (_, d, mem) ← diskReadBlockPorts disk fuel .diskObj c.lba c.total c.buff d mem
      blockCallsPorts disk fuel calls d mem

/-- The same calls by the block model. -/
def blockCalls (disk : Disk) : List BlockCall → Memory → Option Memory
  | [], mem => some mem
  | c :: calls, mem => do
      let (_, content) ← diskReadBlock disk .diskObj c.lba c.total.toNat
      blockCalls disk calls (storeRange mem c.buff (512 * c.total.toNat) content)

section Driver

variable {disk : Disk} {d : AtaDrive} {mem : Memory}

/-- What bits 24 to 27 of the address and the drive become in the register. -/
theorem driveHead_bits (b : UInt8) :
    (b ||| 0xE0) &&& 0x40 ≠ 0 ∧ ((b ||| 0xE0) &&& 0x0F).toNat = b.toNat % 16 ∧
      ((b ||| 0xE0) &&& 0x10 = 0 ↔ b.toNat / 16 % 2 = 0) := by
  obtain ⟨b⟩ := b
  revert b
  decide +kernel

/-- The registers when the command is given. -/
def AtaDrive.addressed (d : AtaDrive) (lba total : Int) : AtaDrive :=
  { d with
    driveHead := wordByte (toWord lba) 3 ||| 0xE0
    sectorCount := wordByte (toWord total) 0
    lbaLow := wordByte (toWord lba) 0
    lbaMid := wordByte (toWord lba) 1
    lbaHigh := wordByte (toWord lba) 2 }

theorem diskReadCommand_eq (hIdle : d.phase = .idle) (lba total : Int) :
    diskReadCommand disk lba total d = (d.addressed lba total).command disk 0x20 := by
  obtain ⟨_, _, _, _, _, phase, _, _⟩ := d
  cases hIdle
  rfl

/-- The drive is asked for as many sectors as the driver waits for. -/
theorem AtaDrive.addressed_count (d : AtaDrive) (c : BlockCall) :
    (d.addressed c.lba c.total).count = c.total.toNat := by
  have hFits := c.fits
  have hByte : (wordByte (toWord c.total) 0).toNat = c.total.toNat % 256 := by
    simp only [wordByte, UInt8.toNat_ofNat', Nat.shiftRight_eq_div_pow, Nat.mul_zero]
    unfold toWord
    omega
  have hZero : wordByte (toWord c.total) 0 = 0 ↔ c.total.toNat % 256 = 0 := by
    rw [← hByte]
    exact ⟨fun h => by rw [h]; rfl, fun h => UInt8.toNat.inj h⟩
  change (if wordByte (toWord c.total) 0 = 0 then 256 else (wordByte (toWord c.total) 0).toNat) = _
  rw [hByte]
  by_cases hAll : c.total.toNat % 256 = 0
  · rw [if_pos (hZero.mpr hAll)]
    omega
  · rw [if_neg (hAll ∘ hZero.mp)]
    omega

/-- The registers select the sector, or the drive, that the block model says. -/
theorem AtaDrive.addressed_sector (d : AtaDrive) (lba total : Int) :
    ((d.addressed lba total).slaveSelected ∧ ataSector lba = none) ∨
      (¬ (d.addressed lba total).slaveSelected ∧
        ataSector lba = some (d.addressed lba total).lba) := by
  obtain ⟨_, hLow, hDrive⟩ := driveHead_bits (wordByte (toWord lba) 3)
  have hByte0 : (wordByte (toWord lba) 0).toNat = toWord lba % 256 := UInt8.toNat_ofNat'
  have hByte1 : (wordByte (toWord lba) 1).toNat = toWord lba / 256 % 256 := by
    rw [wordByte, UInt8.toNat_ofNat', Nat.shiftRight_eq_div_pow]
  have hByte2 : (wordByte (toWord lba) 2).toNat = toWord lba / 65536 % 256 := by
    rw [wordByte, UInt8.toNat_ofNat', Nat.shiftRight_eq_div_pow]
  have hByte3 : (wordByte (toWord lba) 3).toNat = toWord lba / 16777216 % 256 := by
    rw [wordByte, UInt8.toNat_ofNat', Nat.shiftRight_eq_div_pow]
  have hLba : (d.addressed lba total).lba = (lba % 268435456).toNat := by
    change (wordByte (toWord lba) 0).toNat + 256 * (wordByte (toWord lba) 1).toNat +
      65536 * (wordByte (toWord lba) 2).toNat +
      16777216 * ((wordByte (toWord lba) 3 ||| 0xE0) &&& 0x0F).toNat = _
    rw [hLow, hByte0, hByte1, hByte2, hByte3]
    unfold toWord
    omega
  have hBit : (wordByte (toWord lba) 3).toNat / 16 % 2 = 0 ↔ lba / 268435456 % 2 = 0 := by
    rw [hByte3]
    unfold toWord
    omega
  rw [ataSector, hLba]
  by_cases hMaster : lba / 268435456 % 2 = 0
  · exact Or.inr ⟨fun hSlave => hSlave (hDrive.mpr (hBit.mpr hMaster)), if_pos hMaster⟩
  · exact Or.inl ⟨fun hNone => hMaster (hBit.mp (hDrive.mp hNone)), if_neg hMaster⟩

/-- With the command the drive turns to the first sector. -/
theorem diskReadCommand_master (hIdle : d.phase = .idle) (c : BlockCall) {sector : Nat}
    (h : ataSector c.lba = some sector) :
    diskReadCommand disk c.lba c.total d =
        some ((d.addressed c.lba c.total).fetch disk sector c.total.toNat) ∧
      ¬ (d.addressed c.lba c.total).slaveSelected := by
  rcases d.addressed_sector c.lba c.total with ⟨_, hNone⟩ | ⟨hMaster, hSome⟩
  · rw [hNone] at h
    cases h
  · rw [hSome] at h
    obtain rfl := Option.some.inj h
    have hLbaMode : ¬ (d.addressed c.lba c.total).driveHead &&& 0x40 = 0 :=
      (driveHead_bits (wordByte (toWord c.lba) 3)).1
    rw [diskReadCommand_eq hIdle, AtaDrive.command, if_neg (not_not.mpr rfl), if_neg hMaster,
      if_neg hLbaMode, d.addressed_count c]
    exact ⟨rfl, hMaster⟩

/-- Nobody listens to a command for the slave. -/
theorem diskReadCommand_slave (hIdle : d.phase = .idle) {lba : Int} (total : Int)
    (h : ataSector lba = none) :
    diskReadCommand disk lba total d = some (d.addressed lba total) ∧
      (d.addressed lba total).slaveSelected := by
  rcases d.addressed_sector lba total with ⟨hSlave, _⟩ | ⟨_, hSome⟩
  · rw [diskReadCommand_eq hIdle, AtaDrive.command, if_neg (not_not.mpr rfl), if_pos hSlave]
    exact ⟨rfl, hSlave⟩
  · rw [hSome] at h
    cases h

/-- Of no sectors the drive makes 256. None of them is read, and it stays busy. -/
theorem diskReadBlock_busy (fuel : Nat) (hIdle : d.phase = .idle) {lba : Int}
    (hInt : -2147483648 ≤ lba ∧ lba < 2147483648) {sector : Nat} (h : ataSector lba = some sector)
    (hExists : sector < disk.sectors) (buff : Nat) :
    ∃ polls d', diskReadBlockPorts disk fuel .diskObj lba 0 buff d mem = some (0, d', mem) ∧
      d'.phase = .busy polls sector 256 := by
  have hLba : toInt (toWord lba) = lba := by
    unfold toInt toWord
    omega
  rcases d.addressed_sector lba 0 with ⟨_, hNone⟩ | ⟨hMaster, hSome⟩
  · rw [hNone] at h
    cases h
  · rw [hSome] at h
    obtain rfl := Option.some.inj h
    have hLbaMode : ¬ (d.addressed lba 0).driveHead &&& 0x40 = 0 :=
      (driveHead_bits (wordByte (toWord lba) 3)).1
    have hCommand : diskReadCommand disk lba 0 d =
        some ((d.addressed lba 0).fetch disk (d.addressed lba 0).lba 256) := by
      rw [diskReadCommand_eq hIdle, AtaDrive.command, if_neg (not_not.mpr rfl), if_neg hMaster,
        if_neg hLbaMode]
      rfl
    rw [AtaDrive.fetch_exists hExists] at hCommand
    let busy := { d.addressed lba 0 with
      phase := .busy (d.delay d.fetched) (d.addressed lba 0).lba 256, fetched := d.fetched + 1 }
    refine ⟨_, busy, ?_, rfl⟩
    rw [diskReadBlockPorts, if_neg (not_not.mpr rfl), hLba, diskReadSectorPorts, hCommand]
    rfl

/-- One call. The drive is idle behind it, so that the next one can follow. -/
theorem diskReadBlock_ports (disk : Disk) (c : BlockCall) (hIdle : d.phase = .idle) :
    match diskReadBlock disk .diskObj c.lba c.total.toNat with
    | none => ∀ fuel, diskReadBlockPorts disk fuel .diskObj c.lba c.total c.buff d mem = none
    | some (res, content) => ∃ d', d'.phase = .idle ∧ ∃ patience, ∀ fuel,
        diskReadBlockPorts disk fuel .diskObj c.lba c.total c.buff d mem =
          if patience ≤ fuel then
            some (res, d', storeRange mem c.buff (512 * c.total.toNat) content)
          else none := by
  have hInt := c.isInt
  have hFits := c.fits
  have hLba : toInt (toWord c.lba) = c.lba := by
    unfold toInt toWord
    omega
  have hPorts : ∀ fuel, diskReadBlockPorts disk fuel .diskObj c.lba c.total c.buff d mem =
      diskReadSectorPorts disk fuel c.lba c.total c.buff d mem := fun fuel => by
    rw [diskReadBlockPorts, if_neg (not_not.mpr rfl), hLba]
  obtain ⟨n, hRounds⟩ : ∃ n, c.total.toNat = n + 1 := ⟨c.total.toNat - 1, by omega⟩
  simp only [hPorts, diskReadSectorPorts, diskReadBlock, diskReadSector, ne_eq, not_true_eq_false,
    if_false]
  cases hSector : ataSector c.lba with
  | none =>
      obtain ⟨hCommand, hSlave⟩ := @diskReadCommand_slave disk d hIdle c.lba c.total hSector
      intro fuel
      rw [hCommand, Option.bind_eq_bind, Option.bind_some, hRounds, diskReadSectors,
        diskWait_never (Or.inl hSlave)]
      rfl
  | some sector =>
      obtain ⟨hCommand, hMaster⟩ := @diskReadCommand_master disk d hIdle c sector hSector
      simp only [hCommand]
      by_cases hExists : sector + c.total.toNat ≤ disk.sectors
      · rw [if_pos hExists]
        obtain ⟨patience, hReturns⟩ := @diskReadSectors_returns disk
          (d.addressed c.lba c.total) _ _ c.buff mem hMaster (by omega) (by omega) hExists
        refine ⟨{ d.addressed c.lba c.total with
          phase := .idle, fetched := d.fetched + c.total.toNat }, rfl, patience, fun fuel => ?_⟩
        rw [Option.bind_eq_bind, Option.bind_some, hReturns fuel]
        split_ifs <;> rfl
      · rw [if_neg hExists]
        intro fuel
        rw [Option.bind_eq_bind, Option.bind_some,
          diskReadSectors_never hMaster (by omega) (by omega)]
        rfl

/-- Whatever the drive takes its time for, a sequence of calls for 1 to 256 sectors each
leaves memory as the block model says once it has been given time enough, and waits for ever
where the model has no answer. -/
theorem blockCalls_ports (disk : Disk) (calls : List BlockCall) (d : AtaDrive) (mem : Memory)
    (hIdle : d.phase = .idle) :
    match blockCalls disk calls mem with
    | none => ∀ fuel, blockCallsPorts disk fuel calls d mem = none
    | some mem' => ∃ d', d'.phase = .idle ∧ ∃ patience, ∀ fuel,
        blockCallsPorts disk fuel calls d mem =
          if patience ≤ fuel then some (d', mem') else none := by
  induction calls generalizing d mem with
  | nil => exact ⟨d, hIdle, 0, fun _ => rfl⟩
  | cons c calls ih =>
      have hCall := @diskReadBlock_ports d mem disk c hIdle
      rw [blockCalls]
      cases hBlock : diskReadBlock disk .diskObj c.lba c.total.toNat with
      | none =>
          rw [hBlock] at hCall
          exact fun fuel => by rw [blockCallsPorts, hCall fuel]; rfl
      | some answer =>
          obtain ⟨res, content⟩ := answer
          rw [hBlock] at hCall
          obtain ⟨d', hIdle', patience, hReturns⟩ := hCall
          have hRest := ih d' (storeRange mem c.buff (512 * c.total.toNat) content) hIdle'
          have hStep : ∀ fuel, blockCallsPorts disk fuel (c :: calls) d mem =
              if patience ≤ fuel then blockCallsPorts disk fuel calls d'
                (storeRange mem c.buff (512 * c.total.toNat) content)
              else none := fun fuel => by
            rw [blockCallsPorts, hReturns fuel]
            split_ifs <;> rfl
          simp only [hStep, Option.bind_eq_bind, Option.bind_some]
          cases hModel : blockCalls disk calls
              (storeRange mem c.buff (512 * c.total.toNat) content) with
          | none =>
              rw [hModel] at hRest
              intro fuel
              rw [hRest fuel, ite_self]
          | some mem' =>
              rw [hModel] at hRest
              obtain ⟨d'', hIdle'', patience', hReturns'⟩ := hRest
              refine ⟨d'', hIdle'', max patience patience', fun fuel => ?_⟩
              rw [hReturns' fuel]
              split_ifs <;> first | rfl | omega

end Driver

/-- A drive of which nothing has been asked yet. -/
def restingDrive (delay : Nat → Nat) : AtaDrive := ⟨0, 0, 0, 0, 0, .idle, delay, 0⟩

/-- Two sectors, and then one in front of them, from a drive that gets slower. -/
theorem blockCalls_ports_two :
    ∃ d', d'.phase = .idle ∧ ∃ patience, ∀ fuel,
      blockCallsPorts ⟨4, UInt8.ofNat⟩ fuel
          [⟨2, 2, 0x8000, by decide, by decide⟩, ⟨1, 1, 0x9000, by decide, by decide⟩]
          (restingDrive id) (fun _ => 0) =
        if patience ≤ fuel then some (d', storeRange (storeRange (fun _ => 0) 0x8000 (512 * 2)
          fun i => UInt8.ofNat (512 * 2 + i)) 0x9000 (512 * 1) fun i => UInt8.ofNat (512 * 1 + i))
        else none :=
  blockCalls_ports ⟨4, UInt8.ofNat⟩
    [⟨2, 2, 0x8000, by decide, by decide⟩, ⟨1, 1, 0x9000, by decide, by decide⟩] (restingDrive id)
    (fun _ => 0) rfl

end LiebeOS
