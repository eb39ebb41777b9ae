import LiebeOS.Disk.Ata
import LiebeOS.Lib.X86Ports

/-! Loading the kernel in `boot.asm`, on the same drive that the driver in C uses later:
`load32` asks `ata_lba_read` for a hundred sectors and jumps to the first of them. The code
never loads the data selector of its descriptor table, and address line 20 is switched on by
the kernel only, so both are as the start of the machine has left them. -/
namespace LiebeOS

open MachineInt Bytes Loop X86

section Boot

variable {disk : Disk} {path : DataPath} {text : UInt32} {reg : Reg → UInt32}
  {seg : SegReg → UInt16} {eflags : UInt32} {mem : Memory} {d : AtaDrive} {k : Nat}

/-- While the registers of the drive are written, the address stays in `ebx`, and only
`eax` and `edx` are worked with. -/
structure Asking (lba : UInt32) (reg reg' : Reg → UInt32) : Prop where
  ebx : reg' .ebx = lba
  rest : ∀ r, r ≠ .eax → r ≠ .edx → r ≠ .ebx → reg' r = reg r

theorem Asking.update {lba : UInt32} {reg' : Reg → UInt32} (h : Asking lba reg reg') {r : Reg}
    (hWork : r = .eax ∨ r = .edx) (v : UInt32) : Asking lba reg (Function.update reg' r v) := by
  refine ⟨?_, fun q hEax hEdx hEbx => ?_⟩
  · rw [Function.update_of_ne (by rcases hWork with rfl | rfl <;> decide)]
    exact h.ebx
  · rw [Function.update_of_ne (by rcases hWork with rfl | rfl <;> assumption)]
    exact h.rest q hEax hEdx hEbx

/-- The sectors are at `edi`, and nothing else has changed but the word below the stack. -/
structure SectorsLoaded (disk : Disk) (mem mem' : Memory) (edi slot sector left : Nat) : Prop where
  loaded : ∀ i < 512 * left, mem' (behind edi i) = disk.byte (512 * sector + i)
  others : ∀ x, 512 * left ≤ offsetFrom edi x → 4 ≤ offsetFrom slot x → mem' x = mem x

/-- The word below the stack is not where the sectors go. -/
def StackApart (edi slot left : Nat) : Prop :=
  ∀ i < 4, 512 * left ≤ offsetFrom edi (behind slot i)

theorem StackApart.outside {edi slot left i : Nat} (h : StackApart edi slot left)
    (hi : i < 512 * left) (hSmall : left ≤ 256) : 4 ≤ offsetFrom slot (behind edi i) := by
  by_contra hIn
  have hFar := h (offsetFrom slot (behind edi i)) (by omega)
  rw [behind_offsetFrom (behind_lt edi i), offsetFrom_behind (by omega)] at hFar
  omega

theorem offsetFrom_next {edi x : Nat} (h : 512 ≤ offsetFrom edi x) :
    offsetFrom (behind edi 512) x = offsetFrom edi x - 512 := by
  unfold offsetFrom toWord behind at *
  omega

theorem StackApart.split {edi slot left : Nat} (h : StackApart edi slot (left + 1)) :
    StackApart edi slot 1 ∧ StackApart (behind edi 512) slot left := by
  refine ⟨fun i hi => ?_, fun i hi => ?_⟩
  · have hFar := h i hi
    omega
  · have hFar := h i hi
    rw [offsetFrom_next (by omega)]
    omega

/-- Sectors behind the first one. -/
theorem SectorsLoaded.append {mid fin : Memory} {edi slot sector left : Nat}
    (hFirst : SectorsLoaded disk mem mid edi slot sector 1)
    (hRest : SectorsLoaded disk mid fin (behind edi 512) slot (sector + 1) left)
    (hApart : StackApart edi slot (left + 1)) (hSmall : left + 1 ≤ 256) :
    SectorsLoaded disk mem fin edi slot sector (left + 1) := by
  refine ⟨fun i hi => ?_, fun x hFar hBelow => ?_⟩
  · by_cases hIn : i < 512
    · have hKept := hRest.others (behind edi i) (by unfold offsetFrom toWord behind; omega)
        (hApart.outside hi hSmall)
      exact hKept.trans (hFirst.loaded i hIn)
    · have hByte := hRest.loaded (i - 512) (by omega)
      rwa [behind_behind, show 512 + (i - 512) = i by omega,
        show 512 * (sector + 1) + (i - 512) = 512 * sector + i by omega] at hByte
  · rw [hRest.others x (by rw [offsetFrom_next (by omega)]; omega) hBelow]
    exact hFirst.others x (by omega) hBelow

end Boot

section Kernel

variable {disk : Disk} {path : DataPath} {text : UInt32} {reg : Reg → UInt32}
  {seg : SegReg → UInt16} {eflags : UInt32} {mem : Memory} {d : AtaDrive}

/-- The stack has room for two words below the boot sector. -/
def BootStack (esp : UInt32) : Prop := 8 ≤ esp.toNat ∧ esp.toNat ≤ 0x7C00

theorem BootStack.apart {esp : UInt32} (h : BootStack esp) :
    StackApart 0x100000 (esp - 4 - 4).toNat 100 ∧ (esp - 4).toNat = esp.toNat - 4 ∧
      (esp - 4 - 4).toNat = esp.toNat - 8 := by
  obtain ⟨hRoom, hPlace⟩ := h
  have hCall : (esp - 4).toNat = esp.toNat - 4 := by
    rw [UInt32.toNat_sub]
    simp
    omega
  have hCount : (esp - 4 - 4).toNat = esp.toNat - 8 := by
    rw [UInt32.toNat_sub, hCall]
    simp
    omega
  refine ⟨fun i hi => ?_, hCall, hCount⟩
  rw [hCount]
  unfold offsetFrom toWord behind
  omega

end Kernel

end LiebeOS
