import LiebeOS.Lib.X86
import Mathlib.Logic.Relation

/-! Interrupts of a 32-bit x86 processor: the way through a gate to the stack of the
kernel and back, for code that lies anywhere in the address space. A function that was
compiled from C is called as a whole; the calling convention says what it leaves alone. -/
namespace X86

open Bytes

universe u

/-- An interrupt gate; `dpl` is the outermost level from which `int` may use it. -/
structure Gate where
  selector : UInt16
  offset : UInt32
  dpl : UInt16
  deriving DecidableEq

/-- The instructions of `Instr`, and the ones of interrupt handlers. `callC` calls
function number `function` of those compiled from C. -/
inductive GateInstr where
  | base (i : Instr)
  | movImm (dst : Reg) (imm : UInt32)
  | pushImm (imm : UInt32)
  | loadAbs (dst : Reg) (address : UInt32)
  | storeAbs (address : UInt32) (src : Reg)
  | pushad
  | popad
  | cli
  | sti
  | int (vector : UInt8)
  | callC (function : Nat)
  deriving DecidableEq

/-- The processor and what else there is. -/
structure Host (World : Type u) where
  cpu : Cpu
  world : World

/-- What a function compiled from C leaves: its result in `eax`, and in `data` the
selector of the data segments. The other registers and segments are as before. -/
structure CReturn (World : Type u) where
  result : UInt32
  ecx : UInt32
  edx : UInt32
  eflags : UInt32
  data : UInt16
  mem : Memory
  world : World

/-- The code at each address, the gates, the stack of the kernel, and the functions
compiled from C, which are given the address of their arguments. -/
structure Env (World : Type u) where
  code : UInt32 → Option GateInstr
  gate : UInt8 → Option Gate
  esp0 : UInt32
  ss0 : UInt16
  function : Nat → UInt32 → Memory → World → Option (CReturn World)

def interruptFlag : UInt32 := 0x200

namespace Cpu

/-- What `pushad` pushes, from the lowest address on. -/
def general (s : Cpu) : List UInt32 :=
  [s.reg .edi, s.reg .esi, s.reg .ebp, s.reg .esp, s.reg .ebx, s.reg .edx, s.reg .ecx, s.reg .eax]

def pushGeneral (s : Cpu) : Cpu :=
  { s.setReg .esp (s.reg .esp - 32) with mem := storeWords s.mem (s.reg .esp - 32) s.general }

/-- The stack pointer that `pushad` has pushed is passed over. -/
def popGeneral (s : Cpu) : Cpu :=
  { s with reg := fun
      | .edi => s.slot 0
      | .esi => s.slot 1
      | .ebp => s.slot 2
      | .ebx => s.slot 4
      | .edx => s.slot 5
      | .ecx => s.slot 6
      | .eax => s.slot 7
      | .esp => s.reg .esp + 32 }

/-- The processor goes through a gate, and will come back to `back`. On the way to an
inner level it changes to the stack of that level first. -/
def enter (s : Cpu) (g : Gate) (esp0 : UInt32) (ss0 : UInt16) (back : UInt32) : Cpu :=
  let t :=
    if rpl g.selector < rpl (s.seg .cs) then
      (((s.setReg .esp esp0).setSeg .ss ss0).push (s.seg .ss).toUInt32).push (s.reg .esp)
    else s
  { (((t.push s.eflags).push (s.seg .cs).toUInt32).push back).setSeg .cs g.selector with
    eip := g.offset, eflags := s.eflags &&& ~~~interruptFlag }

end Cpu

section Exec

variable {World : Type u}

/-- The segments after a function that has left `data` in those of data. -/
def withData (seg : SegReg → UInt16) (data : UInt16) : SegReg → UInt16
  | .cs => seg .cs
  | .ss => seg .ss
  | _ => data

def CReturn.cpu (r : CReturn World) (s : Cpu) : Cpu where
  reg := fun
    | .eax => r.result
    | .ecx => r.ecx
    | .edx => r.edx
    | r => s.reg r
  seg := withData s.seg r.data
  eflags := r.eflags
  eip := s.eip + 1
  mem := r.mem

def execGate (e : Env World) (i : GateInstr) (h : Host World) : Option (Host World) :=
  let s := h.cpu
  match i with
  | .base i => some { h with cpu := exec 0 i s }
  | .movImm dst imm => some { h with cpu := (s.setReg dst imm).next }
  | .pushImm imm => some { h with cpu := (s.push imm).next }
  | .loadAbs dst address => some { h with cpu := (s.setReg dst (load32 s.mem address)).next }
  | .storeAbs address src =>
      some { h with cpu := { s.next with mem := store32 s.mem address (s.reg src) } }
  | .pushad => some { h with cpu := s.pushGeneral.next }
  | .popad => some { h with cpu := s.popGeneral.next }
  | .cli => some { h with cpu := { s.next with eflags := s.eflags &&& ~~~interruptFlag } }
  | .sti => some { h with cpu := { s.next with eflags := s.eflags ||| interruptFlag } }
  | .int vector => (e.gate vector).bind fun g =>
      if g.dpl < Cpu.rpl (s.seg .cs) then none
      else some { h with cpu := s.enter g e.esp0 e.ss0 (s.eip + 1) }
  | .callC function => (e.function function (s.reg .esp) s.mem h.world).map fun r =>
      ⟨r.cpu s, r.world⟩

/-- The next step. There is none where there is no code or where a function does not
return. -/
def stepGate (e : Env World) (h : Host World) : Option (Host World) :=
  (e.code h.cpu.eip).bind fun i => execGate e i h

/-- A device or a fault interrupts the processor in front of an instruction. -/
def interrupted (e : Env World) (vector : UInt8) (h : Host World) : Option (Host World) :=
  (e.gate vector).map fun g => { h with cpu := h.cpu.enter g e.esp0 e.ss0 h.cpu.eip }

/-- The code comes from `h` to `h'`. -/
def Env.Reaches (e : Env World) : Host World → Host World → Prop :=
  Relation.ReflTransGen fun h h' => stepGate e h = some h'

/-- The code comes from `h` to `h'` and stays on the innermost level until then. -/
def Env.ReachesInner (e : Env World) : Host World → Host World → Prop :=
  Relation.ReflTransGen fun h h' => Cpu.rpl (h.cpu.seg .cs) = 0 ∧ stepGate e h = some h'

/-- `program` stands at `text`. -/
def Env.Holds (e : Env World) (text : UInt32) (program : List GateInstr) : Prop :=
  ∀ k i, program[k]? = some i → e.code (text + UInt32.ofNat k) = some i

/-- The processor is about to execute instruction `k`. -/
def hostAt (text : UInt32) (k : Nat) (reg : Reg → UInt32) (seg : SegReg → UInt16)
    (eflags : UInt32) (mem : Memory) (world : World) : Host World :=
  ⟨⟨reg, seg, eflags, text + UInt32.ofNat k, mem⟩, world⟩

end Exec

/-! ### Words on a stack -/

section Memory

variable {mem : Memory} {p q v : UInt32} {vals : List UInt32}

theorem store32_storeWords (mem : Memory) (p v : UInt32) (vals : List UInt32) :
    store32 (storeWords mem p vals) (p - 4) v = storeWords mem (p - 4) (v :: vals) := by
  rw [storeWords, show p - 4 + 4 = p by grind]

theorem storeWords_append (mem : Memory) (p : UInt32) (vals rest : List UInt32) :
    storeWords mem p (vals ++ rest) =
      storeWords (storeWords mem (p + 4 * UInt32.ofNat vals.length) rest) p vals := by
  induction vals generalizing p with
  | nil => simp [storeWords]
  | cons v vals ih =>
      have hBehind : p + 4 + 4 * UInt32.ofNat vals.length =
          p + 4 * UInt32.ofNat (v :: vals).length := by
        rw [List.length_cons, UInt32.ofNat_add]
        grind
      rw [List.cons_append, storeWords, storeWords, ih, hBehind]

/-- Words that are stored elsewhere. -/
theorem load32_storeWords_apart (hLow : 4 * vals.length ≤ (q - p).toNat)
    (hHigh : (q - p).toNat ≤ 4294967292) : load32 (storeWords mem p vals) q = load32 mem q := by
  induction vals generalizing p with
  | nil => rfl
  | cons v vals ih =>
      rw [List.length_cons] at hLow
      have hNext : (q - (p + 4)).toNat = (q - p).toNat - 4 := by
        rw [show q - (p + 4) = q - p - 4 by grind, UInt32.toNat_sub_of_le]
        · rfl
        · rw [UInt32.le_iff_toNat_le]
          exact Nat.le_trans (by decide) (show 4 ≤ (q - p).toNat by omega)
      rw [storeWords, load32_store32_apart (by omega) hHigh]
      exact ih (by omega) (by omega)

theorem store32_outside {x : Nat} (h : 4 ≤ offsetFrom p.toNat x) : store32 mem p v x = mem x :=
  storeRange_outside h

theorem storeWords_outside {x : Nat} (h : 4 * vals.length ≤ offsetFrom p.toNat x) :
    storeWords mem p vals x = mem x := by
  induction vals generalizing p with
  | nil => rfl
  | cons v vals ih =>
      rw [List.length_cons] at h
      have hp := p.toNat_lt
      have hNext : offsetFrom (p + 4).toNat x = offsetFrom p.toNat x - 4 := by
        rw [UInt32.toNat_add, show (4 : UInt32).toNat = 4 from rfl]
        unfold offsetFrom MachineInt.toWord at h ⊢
        omega
      rw [storeWords, store32_outside (by omega)]
      exact ih (by omega)

theorem Words.store_apart (h : Words mem q vals) (hLow : 4 * vals.length ≤ (p - q).toNat)
    (hHigh : (p - q).toNat ≤ 4294967292) : Words (store32 mem p v) q vals := by
  induction vals generalizing q with
  | nil => trivial
  | cons w vals ih =>
      rw [List.length_cons] at hLow
      have hBack : (q - p).toNat = 4294967296 - (p - q).toNat := by
        rw [UInt32.toNat_sub] at hLow hHigh ⊢
        rw [UInt32.toNat_sub]
        have hp := p.toNat_lt
        have hq := q.toNat_lt
        omega
      have hNext : (p - (q + 4)).toNat = (p - q).toNat - 4 := by
        rw [show p - (q + 4) = p - q - 4 by grind, UInt32.toNat_sub_of_le]
        · rfl
        · rw [UInt32.le_iff_toNat_le]
          exact Nat.le_trans (by decide) (show 4 ≤ (p - q).toNat by omega)
      refine ⟨?_, ih h.2 (by omega) (by omega)⟩
      rw [load32_store32_apart (by omega) (by omega)]
      exact h.1

theorem load32_congr {mem' : Memory}
    (h : ∀ i < 4, mem' (behind p.toNat i) = mem (behind p.toNat i)) :
    load32 mem' p = load32 mem p := by
  rw [load32, load32, loadWord_congr h]

theorem Words.congr {mem' : Memory} (hWords : Words mem p vals)
    (h : ∀ i < 4 * vals.length, mem' (behind p.toNat i) = mem (behind p.toNat i)) :
    Words mem' p vals := by
  induction vals generalizing p with
  | nil => trivial
  | cons v vals ih =>
      rw [List.length_cons] at h
      refine ⟨(load32_congr fun i hi => h i (by omega)).trans hWords.1, ih hWords.2 fun i hi => ?_⟩
      have hNext : behind (p + 4).toNat i = behind p.toNat (4 + i) := by
        rw [UInt32.toNat_add, show (4 : UInt32).toNat = 4 from rfl]
        exact behind_behind p.toNat 4 i
      rw [hNext]
      exact h (4 + i) (by omega)

end Memory

/-! ### From one level to another -/

section Levels

variable (s : Cpu) {g : Gate} {esp0 back : UInt32} {ss0 : UInt16}

/-- What the processor leaves on the stack of the kernel when it comes from user mode. -/
def Cpu.trapWords (s : Cpu) (back : UInt32) : List UInt32 :=
  [back, (s.seg .cs).toUInt32, s.eflags, s.reg .esp, (s.seg .ss).toUInt32]

/-- The segments of the kernel. -/
def kernelSegs (seg : SegReg → UInt16) (selector ss0 : UInt16) : SegReg → UInt16 :=
  Function.update (Function.update seg .ss ss0) .cs selector

/-- Pushing a word on a stack that has been filled from `p` on. -/
theorem Cpu.push_words {reg : Reg → UInt32} {p : UInt32} (hEsp : reg .esp = p)
    (seg : SegReg → UInt16) (eflags eip : UInt32) (mem : Memory) (v : UInt32) (vals : List UInt32) :
    (⟨reg, seg, eflags, eip, storeWords mem p vals⟩ : Cpu).push v =
      ⟨Function.update reg .esp (p - 4), seg, eflags, eip, storeWords mem (p - 4) (v :: vals)⟩ := by
  subst hEsp
  rw [← store32_storeWords]
  rfl

theorem Cpu.pushGeneral_words {reg : Reg → UInt32} {p : UInt32} (hEsp : reg .esp = p)
    (seg : SegReg → UInt16) (eflags eip : UInt32) (mem : Memory) (vals : List UInt32) :
    (⟨reg, seg, eflags, eip, storeWords mem p vals⟩ : Cpu).pushGeneral =
      ⟨Function.update reg .esp (p - 32), seg, eflags, eip, storeWords mem (p - 32) (reg .edi ::
        reg .esi :: reg .ebp :: p :: reg .ebx :: reg .edx :: reg .ecx :: reg .eax :: vals)⟩ := by
  have hStored := storeWords_append mem (p - 32)
    [reg .edi, reg .esi, reg .ebp, p, reg .ebx, reg .edx, reg .ecx, reg .eax] vals
  have hTop : p - 32 + 4 * UInt32.ofNat 8 = p := by
    rw [show (4 : UInt32) * UInt32.ofNat 8 = 32 from rfl]
    grind
  simp only [List.length_cons, List.length_nil, Nat.zero_add, Nat.reduceAdd, hTop,
    List.cons_append, List.nil_append] at hStored
  subst hEsp
  rw [hStored]
  rfl

theorem Cpu.enter_outer (hLevel : rpl g.selector < rpl (s.seg .cs)) :
    s.enter g esp0 ss0 back =
      ⟨Function.update s.reg .esp (esp0 - 20), kernelSegs s.seg g.selector ss0,
        s.eflags &&& ~~~interruptFlag, g.offset, storeWords s.mem (esp0 - 20) (s.trapWords back)⟩ := by
  have hDown : esp0 - 4 - 4 - 4 - 4 - 4 = esp0 - 20 := by grind
  have hSwitched : (s.setReg .esp esp0).setSeg .ss ss0 = ⟨Function.update s.reg .esp esp0,
      Function.update s.seg .ss ss0, s.eflags, s.eip, storeWords s.mem esp0 []⟩ := rfl
  unfold Cpu.enter
  rw [if_pos hLevel, hSwitched]
  simp only [Cpu.push_words (Function.update_self ..), Function.update_idem, hDown]
  rfl

/-- `iretd` on the way back to an outer level. -/
theorem Cpu.iret_outer {ip flags esp : UInt32} {cs ss : UInt16}
    (hWords : Words s.mem (s.reg .esp) [ip, cs.toUInt32, flags, esp, ss.toUInt32])
    (hLevel : rpl (s.seg .cs) < rpl cs) :
    s.iret = ⟨Function.update s.reg .esp esp, Function.update (Function.update s.seg .cs cs) .ss ss,
      flags, ip, s.mem⟩ := by
  have hSlot : ∀ k (hk : k < 5), s.slot (UInt32.ofNat k) =
      [ip, cs.toUInt32, flags, esp, ss.toUInt32].get ⟨k, hk⟩ := fun k hk => hWords.get hk
  have hIp : s.slot 0 = ip := hSlot 0 (by decide)
  have hCs : s.slot 1 = cs.toUInt32 := hSlot 1 (by decide)
  have hFlags : s.slot 2 = flags := hSlot 2 (by decide)
  have hEsp : s.slot 3 = esp := hSlot 3 (by decide)
  have hSs : s.slot 4 = ss.toUInt32 := hSlot 4 (by decide)
  unfold Cpu.iret
  simp only [hIp, hCs, hFlags, hEsp, hSs, UInt16.toUInt16_toUInt32]
  rw [if_pos hLevel]
  unfold Cpu.dropWords Cpu.setSeg Cpu.setReg
  simp only [Function.update_idem]

/-- The registers that `popad` finds. -/
theorem Cpu.popGeneral_eq {edi esi ebp skipped ebx edx ecx eax : UInt32} {vals : List UInt32}
    (hWords : Words s.mem (s.reg .esp) (edi :: esi :: ebp :: skipped :: ebx :: edx :: ecx :: eax :: vals)) :
    s.popGeneral = { s with reg := fun
      | .edi => edi
      | .esi => esi
      | .ebp => ebp
      | .ebx => ebx
      | .edx => edx
      | .ecx => ecx
      | .eax => eax
      | .esp => s.reg .esp + 32 } := by
  have hSlot : ∀ k (hk : k < 8), s.slot (UInt32.ofNat k) =
      [edi, esi, ebp, skipped, ebx, edx, ecx, eax].get ⟨k, hk⟩ := fun k hk => by
    rw [Cpu.slot, hWords.get (show k < _ by simp only [List.length_cons]; omega)]
    match k, hk with
    | 0, _ | 1, _ | 2, _ | 3, _ | 4, _ | 5, _ | 6, _ | 7, _ => rfl
  have hEdi : s.slot 0 = edi := hSlot 0 (by decide)
  have hEsi : s.slot 1 = esi := hSlot 1 (by decide)
  have hEbp : s.slot 2 = ebp := hSlot 2 (by decide)
  have hEbx : s.slot 4 = ebx := hSlot 4 (by decide)
  have hEdx : s.slot 5 = edx := hSlot 5 (by decide)
  have hEcx : s.slot 6 = ecx := hSlot 6 (by decide)
  have hEax : s.slot 7 = eax := hSlot 7 (by decide)
  unfold Cpu.popGeneral
  simp only [hEdi, hEsi, hEbp, hEbx, hEdx, hEcx, hEax]

end Levels

/-! ### Steps from a known place -/

section Steps

variable {World : Type u} {e : Env World} {text : UInt32} {program : List GateInstr} {k : Nat}
  {reg : Reg → UInt32} {seg : SegReg → UInt16} {eflags : UInt32} {mem : Memory} {world : World}

/-- One step from there. -/
theorem Env.Holds.step (h : e.Holds text program) {i : GateInstr} {c : Host World}
    (hCode : program[k]? = some i)
    (hExec : execGate e i (hostAt text k reg seg eflags mem world) = some c) :
    e.Reaches (hostAt text k reg seg eflags mem world) c := by
  refine Relation.ReflTransGen.single ?_
  rw [stepGate]
  change (e.code (text + UInt32.ofNat k)).bind _ = _
  rw [h k i hCode, Option.bind_some, hExec]

theorem Env.holds_of_code (h : ∀ k < program.length, e.code (text + UInt32.ofNat k) = program[k]?) :
    e.Holds text program := by
  intro k i hCode
  rw [h k (List.getElem?_eq_some_iff.mp hCode).1, hCode]

theorem Env.Holds.stepInner (h : e.Holds text program) (hLevel : Cpu.rpl (seg .cs) = 0)
    {i : GateInstr} {c : Host World} (hCode : program[k]? = some i)
    (hExec : execGate e i (hostAt text k reg seg eflags mem world) = some c) :
    e.ReachesInner (hostAt text k reg seg eflags mem world) c := by
  refine Relation.ReflTransGen.single ⟨hLevel, ?_⟩
  rw [stepGate]
  change (e.code (text + UInt32.ofNat k)).bind _ = _
  rw [h k i hCode, Option.bind_some, hExec]

theorem Env.ReachesInner.reaches {a b : Host World} (h : e.ReachesInner a b) : e.Reaches a b := by
  induction h with
  | refl => exact Relation.ReflTransGen.refl
  | tail _ hStep ih => exact ih.tail hStep.2

/-- Where the code leaves the innermost level, and where it gets stuck, is determined. -/
theorem Env.ReachesInner.unique {a b c : Host World} (h : e.ReachesInner a b)
    (h' : e.ReachesInner a c) (hb : Cpu.rpl (b.cpu.seg .cs) ≠ 0 ∨ stepGate e b = none)
    (hc : Cpu.rpl (c.cpu.seg .cs) ≠ 0 ∨ stepGate e c = none) : b = c := by
  have hEnds : ∀ {x y : Host World}, e.ReachesInner x y →
      (Cpu.rpl (x.cpu.seg .cs) ≠ 0 ∨ stepGate e x = none) → x = y := by
    intro x y hRun hEnd
    rcases Relation.ReflTransGen.cases_head hRun with hSame | ⟨_, ⟨hLevel, hStep⟩, _⟩
    · exact hSame
    · rcases hEnd with hOuter | hStuck
      · exact absurd hLevel hOuter
      · rw [hStuck] at hStep
        cases hStep
  have hUnique : Relator.RightUnique fun h h' : Host World =>
      Cpu.rpl (h.cpu.seg .cs) = 0 ∧ stepGate e h = some h' :=
    fun _ _ _ hx hy => Option.some.inj (hx.2.symm.trans hy.2)
  rcases Relation.ReflTransGen.total_of_right_unique hUnique h h' with hRun | hRun
  · exact hEnds hRun hb
  · exact (hEnds hRun hc).symm

theorem hostAt_zero (text : UInt32) (reg : Reg → UInt32) (seg : SegReg → UInt16) (eflags : UInt32)
    (mem : Memory) (world : World) :
    hostAt text 0 reg seg eflags mem world = ⟨⟨reg, seg, eflags, text, mem⟩, world⟩ := by
  rw [hostAt, show text + UInt32.ofNat 0 = text by simp]

theorem hostAt_next (text : UInt32) (k : Nat) (reg : Reg → UInt32) (seg : SegReg → UInt16)
    (eflags : UInt32) (mem : Memory) (world : World) :
    (⟨⟨reg, seg, eflags, text + UInt32.ofNat k + 1, mem⟩, world⟩ : Host World) =
      hostAt text (k + 1) reg seg eflags mem world := by
  rw [next_place]
  rfl

variable (e text reg seg eflags mem world k) (dst src : Reg)

theorem gate_movReg : execGate e (.base (.movReg dst src))
      (hostAt text k reg seg eflags mem world) =
    some (hostAt text (k + 1) (Function.update reg dst (reg src)) seg eflags mem world) :=
  congrArg some (hostAt_next ..)

theorem gate_addImm (imm : UInt32) : execGate e (.base (.addImm dst imm))
      (hostAt text k reg seg eflags mem world) =
    some (hostAt text (k + 1) (Function.update reg dst (reg dst + imm)) seg
      (addFlags eflags (reg dst) imm) mem world) :=
  congrArg some (hostAt_next ..)

theorem gate_movImm (imm : UInt32) : execGate e (.movImm dst imm)
      (hostAt text k reg seg eflags mem world) =
    some (hostAt text (k + 1) (Function.update reg dst imm) seg eflags mem world) :=
  congrArg some (hostAt_next ..)

theorem gate_loadAbs (address : UInt32) : execGate e (.loadAbs dst address)
      (hostAt text k reg seg eflags mem world) =
    some (hostAt text (k + 1) (Function.update reg dst (load32 mem address)) seg eflags mem world) :=
  congrArg some (hostAt_next ..)

theorem gate_storeAbs (address : UInt32) : execGate e (.storeAbs address src)
      (hostAt text k reg seg eflags mem world) =
    some (hostAt text (k + 1) reg seg eflags (store32 mem address (reg src)) world) :=
  congrArg some (hostAt_next ..)

theorem gate_popReg : execGate e (.base (.popReg dst)) (hostAt text k reg seg eflags mem world) =
    some (hostAt text (k + 1) (Function.update (Function.update reg .esp (reg .esp + 4)) dst
      (load32 mem (reg .esp))) seg eflags mem world) := by
  have hTop : reg .esp + 4 * 0 = reg .esp := by grind
  rw [← hostAt_next]
  nth_rewrite 2 [← hTop]
  rfl

variable {e reg}

theorem gate_pushReg {p : UInt32} (hEsp : reg .esp = p) (vals : List UInt32) :
    execGate e (.base (.pushReg src)) (hostAt text k reg seg eflags (storeWords mem p vals) world) =
      some (hostAt text (k + 1) (Function.update reg .esp (p - 4)) seg eflags
        (storeWords mem (p - 4) (reg src :: vals)) world) := by
  rw [← hostAt_next, execGate, exec, hostAt, Cpu.push_words hEsp]
  rfl

theorem gate_pushMem {p : UInt32} (hEsp : reg .esp = p) (base : Reg) (disp : UInt32)
    (vals : List UInt32) :
    execGate e (.base (.pushMem base disp))
        (hostAt text k reg seg eflags (storeWords mem p vals) world) =
      some (hostAt text (k + 1) (Function.update reg .esp (p - 4)) seg eflags
        (storeWords mem (p - 4) (load32 (storeWords mem p vals) (reg base + disp) :: vals)) world) := by
  rw [← hostAt_next, execGate, exec, hostAt, Cpu.push_words hEsp]
  rfl

theorem gate_pushad {p : UInt32} (hEsp : reg .esp = p) (vals : List UInt32) :
    execGate e .pushad (hostAt text k reg seg eflags (storeWords mem p vals) world) =
      some (hostAt text (k + 1) (Function.update reg .esp (p - 32)) seg eflags
        (storeWords mem (p - 32) (reg .edi :: reg .esi :: reg .ebp :: p :: reg .ebx :: reg .edx ::
          reg .ecx :: reg .eax :: vals)) world) := by
  rw [← hostAt_next, execGate, hostAt, Cpu.pushGeneral_words hEsp]
  rfl

variable {mem world}

theorem gate_popad {p edi esi ebp skipped ebx edx ecx eax : UInt32} {vals : List UInt32}
    (hEsp : reg .esp = p)
    (hWords : Words mem p (edi :: esi :: ebp :: skipped :: ebx :: edx :: ecx :: eax :: vals)) :
    execGate e .popad (hostAt text k reg seg eflags mem world) =
      some (hostAt text (k + 1) (fun
        | .edi => edi
        | .esi => esi
        | .ebp => ebp
        | .ebx => ebx
        | .edx => edx
        | .ecx => ecx
        | .eax => eax
        | .esp => p + 32) seg eflags mem world) := by
  subst hEsp
  rw [← hostAt_next, execGate, Cpu.popGeneral_eq _ hWords]
  rfl

theorem gate_int {g : Gate} {vector : UInt8} (hGate : e.gate vector = some g)
    (hAllowed : ¬ g.dpl < Cpu.rpl (seg .cs)) (hLevel : Cpu.rpl g.selector < Cpu.rpl (seg .cs)) :
    execGate e (.int vector) (hostAt text k reg seg eflags mem world) =
      some (hostAt g.offset 0 (Function.update reg .esp (e.esp0 - 20))
        (kernelSegs seg g.selector e.ss0) (eflags &&& ~~~interruptFlag)
        (storeWords mem (e.esp0 - 20) [text + UInt32.ofNat (k + 1), (seg .cs).toUInt32, eflags,
          reg .esp, (seg .ss).toUInt32]) world) := by
  rw [hostAt_zero, ← next_place, execGate, hGate, Option.bind_some]
  change (if g.dpl < Cpu.rpl (seg .cs) then none else _) = _
  rw [if_neg hAllowed, Cpu.enter_outer _ hLevel]
  rfl

theorem gate_callC {function : Nat} {r : CReturn World}
    (hReturns : e.function function (reg .esp) mem world = some r) :
    execGate e (.callC function) (hostAt text k reg seg eflags mem world) =
      some (hostAt text (k + 1) (fun
        | .eax => r.result
        | .ecx => r.ecx
        | .edx => r.edx
        | r => reg r) (withData seg r.data) r.eflags r.mem r.world) := by
  rw [← hostAt_next]
  exact congrArg (Option.map _) hReturns

theorem gate_ret {back : UInt32} (hTop : load32 mem (reg .esp) = back) :
    execGate e (.base .ret) (hostAt text k reg seg eflags mem world) =
      some ⟨⟨Function.update reg .esp (reg .esp + 4), seg, eflags, back, mem⟩, world⟩ := by
  have hSlot : reg .esp + 4 * 0 = reg .esp := by grind
  rw [← hTop]
  nth_rewrite 2 [← hSlot]
  rfl

theorem gate_iretd {ip flags esp : UInt32} {cs ss : UInt16}
    (hWords : Words mem (reg .esp) [ip, cs.toUInt32, flags, esp, ss.toUInt32])
    (hLevel : Cpu.rpl (seg .cs) < Cpu.rpl cs) :
    execGate e (.base .iretd) (hostAt text k reg seg eflags mem world) =
      some ⟨⟨Function.update reg .esp esp, Function.update (Function.update seg .cs cs) .ss ss,
        flags, ip, mem⟩, world⟩ :=
  congrArg (fun s => some (⟨s, world⟩ : Host World)) (Cpu.iret_outer _ hWords hLevel)

end Steps

end X86
