import LiebeOS.Lib.X86

/-! Code of a 32-bit x86 processor that talks to a device through ports. What the device
answers, and whether it answers at all, is a parameter. So is the way that its words take to
memory: a segment register keeps the base and the limit it was last loaded with, whatever the
descriptor table says since, and address line 20 may be switched off. The direction flag is
clear. -/
namespace X86

open Bytes

universe u

/-- The base and the limit that `es` was last loaded with, and whether address line 20 is on. -/
structure DataPath where
  base : UInt32
  limit : UInt32
  a20 : Bool

/-- Where the byte at an offset stands in memory. -/
def DataPath.address (path : DataPath) (offset : UInt32) : UInt32 :=
  if path.a20 then path.base + offset else (path.base + offset) &&& ~~~0x100000

/-- The two bytes of `w` go to an offset, unless one of them is behind the limit. -/
def DataPath.storeHalf (path : DataPath) (mem : Memory) (offset : UInt32) (w : Nat) : Option Memory :=
  if offset < path.limit then
    let low := storeRange mem (path.address offset).toNat 1 fun _ => wordByte w 0
    some (storeRange low (path.address (offset + 1)).toNat 1 fun _ => wordByte w 1)
  else none

/-- The bytes below `size` stand where their offsets say. -/
structure DataPath.Flat (path : DataPath) (size : Nat) : Prop where
  base : path.base = 0
  a20 : path.a20
  limit : size ≤ path.limit.toNat + 1

theorem DataPath.Flat.storeHalf {path : DataPath} {size : Nat} (h : path.Flat size) {offset : UInt32}
    (hIn : offset.toNat + 2 ≤ size) (mem : Memory) (w : Nat) :
    path.storeHalf mem offset w = some (storeRange mem offset.toNat 2 (wordByte w)) := by
  have hLimit := h.limit
  have hBelow : offset < path.limit := UInt32.lt_iff_toNat_lt.mpr (by omega)
  have hAddress (p : UInt32) : path.address p = p := by
    rw [DataPath.address, if_pos h.a20, h.base, UInt32.zero_add]
  have hJoin := @storeRange_append mem offset.toNat 1 (wordByte w) 1 (by decide)
  have hNext : (offset + 1).toNat = behind offset.toNat 1 := UInt32.toNat_add offset 1
  rw [DataPath.storeHalf, if_pos hBelow, hAddress, hAddress, hNext, ← hJoin]
  refine congrArg some ?_
  have hLow : storeRange mem offset.toNat 1 (fun _ => wordByte w 0) =
      storeRange mem offset.toNat 1 (wordByte w) :=
    storeRange_congr fun i hi => by rw [Nat.lt_one_iff.mp hi]
  rw [hLow]
  exact storeRange_congr fun i hi => by rw [Nat.lt_one_iff.mp hi]

/-- The ports of a device, and the way to memory. An access for which the device has no
answer is `none`. -/
structure Ports (Device : Type u) where
  path : DataPath
  in8 : UInt16 → Device → Option (UInt8 × Device)
  in16 : UInt16 → Device → Option (Nat × Device)
  out8 : UInt16 → UInt8 → Device → Option Device

/-- The instructions of `Instr`, and the ones for ports and loops. Accesses to a port use
`dx` and `al`; the target of a jump is the number of an instruction. -/
inductive PortInstr where
  | base (i : Instr)
  | movImm (dst : Reg) (imm : UInt32)
  | movDx (imm : UInt16)
  | movAl (imm : UInt8)
  | shrImm (dst : Reg) (count : UInt32)
  | outAl
  | inAl
  | testAl (imm : UInt8)
  | jz (target : Nat)
  | repInsw
  | loop (target : Nat)
  | jmpFar (selector : UInt16) (target : UInt32)
  deriving DecidableEq

/-- The processor with the device. -/
structure Board (Device : Type u) where
  cpu : Cpu
  device : Device

/-- The flags that `shr` leaves. -/
def shrFlags (eflags a count : UInt32) : UInt32 :=
  let n := count % 32
  if n = 0 then eflags else
    logicFlags eflags (a >>> n) ||| flagIf carryFlag (a >>> (n - 1) % 2 = 1) |||
      flagIf overflowFlag (n = 1 ∧ 0x80000000 ≤ a)

/-- The flags that `test` of two bytes leaves when they have `v` in common. -/
def testFlags (eflags : UInt32) (v : UInt8) : UInt32 := resultFlags eflags v (v = 0) (0x80 ≤ v)

section Exec

variable {Device : Type u}

/-- `rep insw`, with `n` words to go. -/
def inWords (ports : Ports Device) (port : UInt16) :
    Nat → Device → UInt32 → Memory → Option (Device × UInt32 × Memory)
  | 0, device, edi, mem => some (device, edi, mem)
  | n + 1, device, edi, mem =>
      (ports.in16 port device).bind fun (w, device) =>
        (ports.path.storeHalf mem edi w).bind (inWords ports port n device (edi + 2))

def Cpu.dx (s : Cpu) : UInt16 := (s.reg .edx).toUInt16

def Cpu.al (s : Cpu) : UInt8 := (s.reg .eax).toUInt8

def Cpu.jump (s : Cpu) (target : UInt32) : Cpu := { s with eip := target }

def execPort (ports : Ports Device) (text : UInt32) (i : PortInstr) (b : Board Device) :
    Option (Board Device) :=
  let s := b.cpu
  match i with
  | .base i => some { b with cpu := exec text i s }
  | .movImm dst imm => some { b with cpu := (s.setReg dst imm).next }
  | .movDx imm =>
      some { b with cpu := (s.setReg .edx (s.reg .edx / 65536 * 65536 + imm.toUInt32)).next }
  | .movAl imm =>
      some { b with cpu := (s.setReg .eax (s.reg .eax / 256 * 256 + imm.toUInt32)).next }
  | .shrImm dst count =>
      let flags := shrFlags s.eflags (s.reg dst) count
      some { b with cpu := ((s.setReg dst (s.reg dst >>> count)).withFlags flags).next }
  | .outAl => (ports.out8 s.dx s.al b.device).map fun device => ⟨s.next, device⟩
  | .inAl => (ports.in8 s.dx b.device).map fun (v, device) =>
      ⟨(s.setReg .eax (s.reg .eax / 256 * 256 + v.toUInt32)).next, device⟩
  | .testAl imm => some { b with cpu := (s.withFlags (testFlags s.eflags (s.al &&& imm))).next }
  | .jz target =>
      some { b with cpu :=
        if s.eflags &&& zeroFlag = 0 then s.next else s.jump (text + UInt32.ofNat target) }
  | .repInsw => (inWords ports s.dx (s.reg .ecx).toNat b.device (s.reg .edi) s.mem).map
      fun (device, edi, mem) => ⟨{ ((s.setReg .ecx 0).setReg .edi edi).next with mem := mem }, device⟩
  | .loop target =>
      let left := s.reg .ecx - 1
      let t := s.setReg .ecx left
      some { b with cpu := if left = 0 then t.next else t.jump (text + UInt32.ofNat target) }
  | .jmpFar selector target => some { b with cpu := (s.setSeg .cs selector).jump target }

/-- The next step, unless control has left the program or the device does not answer. -/
def stepPort (ports : Ports Device) (text : UInt32) (program : List PortInstr) (b : Board Device) :
    Option (Board Device) :=
  program[(b.cpu.eip - text).toNat]?.bind fun i => execPort ports text i b

def runPort (ports : Ports Device) (text : UInt32) (program : List PortInstr) :
    Nat → Board Device → Option (Board Device)
  | 0, b => some b
  | n + 1, b => (stepPort ports text program b).bind (runPort ports text program n)

/-- The code comes from `b` to `c`. -/
def RunsTo (ports : Ports Device) (text : UInt32) (program : List PortInstr)
    (b c : Board Device) : Prop :=
  ∃ n, runPort ports text program n b = some c

variable {ports : Ports Device} {text : UInt32} {program : List PortInstr} {b c e : Board Device}

theorem RunsTo.refl (b : Board Device) : RunsTo ports text program b b := ⟨0, rfl⟩

theorem RunsTo.head (hStep : stepPort ports text program b = some c)
    (h : RunsTo ports text program c e) : RunsTo ports text program b e := by
  obtain ⟨n, hRun⟩ := h
  exact ⟨n + 1, by rw [runPort, hStep]; exact hRun⟩

theorem RunsTo.trans (h : RunsTo ports text program b c) (h' : RunsTo ports text program c e) :
    RunsTo ports text program b e := by
  obtain ⟨n, hRun⟩ := h
  induction n generalizing b with
  | zero =>
      obtain rfl := Option.some.inj hRun
      exact h'
  | succ n ih =>
      obtain ⟨_, hStep, hRest⟩ := Option.bind_eq_some_iff.mp hRun
      exact (ih hRest).head hStep

theorem RunsTo.step (hStep : stepPort ports text program b = some c) :
    RunsTo ports text program b c := (RunsTo.refl c).head hStep

end Exec

/-! ### Steps from a known place -/

section Steps

variable {Device : Type u} {ports : Ports Device} {text : UInt32} {program : List PortInstr}
  {reg : Reg → UInt32} {seg : SegReg → UInt16} {eflags : UInt32} {mem : Memory} {device : Device}
  {k : Nat}

/-- The processor is about to execute instruction `k`. -/
def boardAt (text : UInt32) (k : Nat) (reg : Reg → UInt32) (seg : SegReg → UInt16)
    (eflags : UInt32) (mem : Memory) (device : Device) : Board Device :=
  ⟨⟨reg, seg, eflags, text + UInt32.ofNat k, mem⟩, device⟩

theorem stepPort_at {i : PortInstr} (hCode : program[k]? = some i) (hSmall : k < 4294967296) :
    stepPort ports text program (boardAt text k reg seg eflags mem device) =
      execPort ports text i (boardAt text k reg seg eflags mem device) := by
  have hIndex : (text + UInt32.ofNat k - text).toNat = k := by
    rw [show text + UInt32.ofNat k - text = UInt32.ofNat k by grind, UInt32.toNat_ofNat']
    exact Nat.mod_eq_of_lt hSmall
  rw [stepPort]
  change program[(text + UInt32.ofNat k - text).toNat]?.bind _ = _
  rw [hIndex, hCode, Option.bind_some]

/-- One step from there. -/
theorem RunsTo.at {i : PortInstr} {c : Board Device} (hCode : program[k]? = some i)
    (hSmall : k < 4294967296)
    (hExec : execPort ports text i (boardAt text k reg seg eflags mem device) = some c) :
    RunsTo ports text program (boardAt text k reg seg eflags mem device) c :=
  RunsTo.step ((stepPort_at hCode hSmall).trans hExec)

variable (ports text reg seg eflags mem device k) (dst src : Reg) (imm : UInt32)

variable {ports reg device}

end Steps

end X86
