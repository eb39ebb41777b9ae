import LiebeOS.Lib.Words

/-! A 32-bit x86 processor, restricted to the instructions that save and
restore contexts, together with the laws of its stack. Instruction number `k`
of a program stands at address `text + k`. -/
namespace X86

open Bytes

inductive Reg where
  | eax | ecx | edx | ebx | esp | ebp | esi | edi
  deriving DecidableEq

inductive SegReg where
  | cs | ss | ds | es | fs | gs
  deriving DecidableEq

/-- The instructions. `load dst base disp` is `mov dst, [base+disp]`, `loadAx`
is its 16-bit form for `ax`, and `movSeg dst` is `mov dst, ax`. -/
inductive Instr where
  | movReg (dst src : Reg)
  | load (dst base : Reg) (disp : UInt32)
  | loadAx (base : Reg) (disp : UInt32)
  | movSeg (dst : SegReg)
  | orImm (dst : Reg) (imm : UInt32)
  | addImm (dst : Reg) (imm : UInt32)
  | pushReg (src : Reg)
  | pushMem (base : Reg) (disp : UInt32)
  | pushf
  | popReg (dst : Reg)
  | call (target : UInt32)
  | ret
  | iretd
  deriving DecidableEq

structure Cpu where
  reg : Reg → UInt32
  seg : SegReg → UInt16
  eflags : UInt32
  eip : UInt32
  mem : Memory

def load32 (mem : Memory) (p : UInt32) : UInt32 := UInt32.ofNat (loadWord mem p.toNat)

def store32 (mem : Memory) (p v : UInt32) : Memory := storeWord mem p.toNat v.toNat

namespace Cpu

def setReg (s : Cpu) (r : Reg) (v : UInt32) : Cpu := { s with reg := Function.update s.reg r v }

def setSeg (s : Cpu) (r : SegReg) (v : UInt16) : Cpu := { s with seg := Function.update s.seg r v }

def next (s : Cpu) : Cpu := { s with eip := s.eip + 1 }

def push (s : Cpu) (v : UInt32) : Cpu :=
  { s.setReg .esp (s.reg .esp - 4) with mem := store32 s.mem (s.reg .esp - 4) v }

/-- The word that is `k` words below the top of the stack. -/
def slot (s : Cpu) (k : UInt32) : UInt32 := load32 s.mem (s.reg .esp + 4 * k)

def dropWords (s : Cpu) (k : UInt32) : Cpu := s.setReg .esp (s.reg .esp + 4 * k)

/-- The requested privilege level of a selector. -/
def rpl (selector : UInt16) : UInt16 := selector % 4

/-- `iretd`. The stack pointer is part of what is popped only on the way to an
outer privilege level. -/
def iret (s : Cpu) : Cpu :=
  let cs := (s.slot 1).toUInt16
  let popped := { (s.dropWords 3).setSeg .cs cs with eip := s.slot 0, eflags := s.slot 2 }
  if rpl (s.seg .cs) < rpl cs then
    (popped.setReg .esp (s.slot 3)).setSeg .ss (s.slot 4).toUInt16
  else popped

end Cpu

/-! ### The flags of arithmetic -/

def carryFlag : UInt32 := 0x1
def parityFlag : UInt32 := 0x4
def adjustFlag : UInt32 := 0x10
def zeroFlag : UInt32 := 0x40
def signFlag : UInt32 := 0x80
def overflowFlag : UInt32 := 0x800

/-- The flags that arithmetic rewrites. -/
def statusFlags : UInt32 := 0x8D5

def flagIf (flag : UInt32) (set : Bool) : UInt32 := if set then flag else 0

/-- An even number of the bits are set. -/
def evenParity (v : UInt8) : Bool := (List.range 8).countP (fun i => v.toNat.testBit i) % 2 = 0

/-- Flags with those of a result in place of the ones before. `low` is its lowest byte. -/
def resultFlags (eflags : UInt32) (low : UInt8) (zero sign : Bool) : UInt32 :=
  eflags &&& ~~~statusFlags ||| flagIf parityFlag (evenParity low) ||| flagIf zeroFlag zero |||
    flagIf signFlag sign

/-- The flags that a bitwise operation leaves. The one that is undefined is cleared. -/
def logicFlags (eflags v : UInt32) : UInt32 :=
  resultFlags eflags v.toUInt8 (v = 0) (0x80000000 ≤ v)

/-- The flags that `add` leaves. -/
def addFlags (eflags a b : UInt32) : UInt32 :=
  logicFlags eflags (a + b) ||| flagIf carryFlag (a + b < a) |||
    flagIf adjustFlag (16 ≤ a % 16 + b % 16) |||
    flagIf overflowFlag (0x80000000 ≤ (a ^^^ (a + b)) &&& (b ^^^ (a + b)))

def Cpu.withFlags (s : Cpu) (eflags : UInt32) : Cpu := { s with eflags := eflags }

/-- One instruction. -/
def exec (text : UInt32) (i : Instr) (s : Cpu) : Cpu :=
  match i with
  | .movReg dst src => (s.setReg dst (s.reg src)).next
  | .load dst base disp => (s.setReg dst (load32 s.mem (s.reg base + disp))).next
  | .loadAx base disp =>
      let low := load32 s.mem (s.reg base + disp) % 65536
      (s.setReg .eax (s.reg .eax / 65536 * 65536 + low)).next
  | .movSeg dst => (s.setSeg dst (s.reg .eax).toUInt16).next
  | .orImm dst imm =>
      ((s.setReg dst (s.reg dst ||| imm)).withFlags (logicFlags s.eflags (s.reg dst ||| imm))).next
  | .addImm dst imm =>
      ((s.setReg dst (s.reg dst + imm)).withFlags (addFlags s.eflags (s.reg dst) imm)).next
  | .pushReg src => (s.push (s.reg src)).next
  | .pushMem base disp => (s.push (load32 s.mem (s.reg base + disp))).next
  | .pushf => (s.push s.eflags).next
  | .popReg dst => ((s.dropWords 1).setReg dst (s.slot 0)).next
  | .call target => { s.push (s.eip + 1) with eip := text + target }
  | .ret => { s.dropWords 1 with eip := s.slot 0 }
  | .iretd => s.iret

/-- The next step, unless control has left the program. -/
def step (text : UInt32) (program : List Instr) (s : Cpu) : Option Cpu :=
  program[(s.eip - text).toNat]?.map fun i => exec text i s

def run (text : UInt32) (program : List Instr) : Nat → Cpu → Option Cpu
  | 0, s => some s
  | n + 1, s => (step text program s).bind (run text program n)

/-! ### Memory -/

section Memory

variable {mem : Memory} {p q v : UInt32} {vals : List UInt32}

theorem load32_store32 (mem : Memory) (p v : UInt32) : load32 (store32 mem p v) p = v := by
  rw [load32, store32, loadWord_storeWord v.toNat_lt]
  exact UInt32.ofNat_toNat

/-- A store below a word, with room for a word in between, leaves it alone. -/
theorem load32_store32_apart (hLow : 4 ≤ (q - p).toNat) (hHigh : (q - p).toNat ≤ 4294967292) :
    load32 (store32 mem p v) q = load32 mem q := by
  have hp := p.toNat_lt
  have hq := q.toNat_lt
  rw [UInt32.toNat_sub] at hLow hHigh
  rw [load32, store32, storeWord, load32, loadWord_storeRange_apart]
  intro i hi
  unfold offsetFrom MachineInt.toWord behind
  omega

/-- The words `vals`, one behind the other from `p` on. -/
def Words (mem : Memory) : UInt32 → List UInt32 → Prop
  | _, [] => True
  | p, v :: vals => load32 mem p = v ∧ Words mem (p + 4) vals

theorem Words.get (h : Words mem p vals) {k : Nat} (hk : k < vals.length) :
    load32 mem (p + 4 * UInt32.ofNat k) = vals[k] := by
  induction vals generalizing p k with
  | nil => exact absurd hk (Nat.not_lt_zero k)
  | cons v vals ih =>
      cases k with
      | zero => simpa using h.1
      | succ k =>
          have hAddress : p + 4 * UInt32.ofNat (k + 1) = p + 4 + 4 * UInt32.ofNat k := by
            rw [UInt32.ofNat_add]
            grind
          rw [hAddress]
          exact ih h.2 (Nat.lt_of_succ_lt_succ hk)

/-- A store below the words, within the address space, leaves them alone. -/
theorem Words.store_below (h : Words mem q vals) (hLow : 4 ≤ (q - p).toNat)
    (hHigh : (q - p).toNat + 4 * vals.length ≤ 4294967296) :
    Words (store32 mem p v) q vals := by
  induction vals generalizing q with
  | nil => trivial
  | cons w vals ih =>
      simp only [List.length_cons] at hHigh
      refine ⟨?_, ?_⟩
      · rw [load32_store32_apart hLow (by omega)]
        exact h.1
      · cases vals with
        | nil => trivial
        | cons w' vals =>
            simp only [List.length_cons] at hHigh ih
            have hNext : (q + 4 - p).toNat = (q - p).toNat + 4 := by
              have hSum : q + 4 - p = q - p + 4 := by grind
              rw [hSum, UInt32.toNat_add]
              exact Nat.mod_eq_of_lt (by simp; omega)
            exact ih h.2 (by omega) (by omega)

/-- Pushing a word puts it in front. -/
theorem Words.push (h : Words mem p vals) (hLen : vals.length < 1073741823) :
    Words (store32 mem (p - 4) v) (p - 4) (v :: vals) := by
  have hBack : p - 4 + 4 = p := by grind
  have hDistance : p - (p - 4) = 4 := by grind
  refine ⟨load32_store32 mem (p - 4) v, ?_⟩
  rw [hBack]
  exact h.store_below (by rw [hDistance]; decide) (by rw [hDistance]; simp; omega)

def storeWords (mem : Memory) : UInt32 → List UInt32 → Memory
  | _, [] => mem
  | p, v :: vals => store32 (storeWords mem (p + 4) vals) p v

theorem words_storeWords (mem : Memory) (p : UInt32) {vals : List UInt32}
    (hLen : vals.length < 1073741823) : Words (storeWords mem p vals) p vals := by
  induction vals generalizing p with
  | nil => trivial
  | cons v vals ih =>
      rw [List.length_cons] at hLen
      have hBelow : p + 4 - 4 = p := by grind
      have hPush := (ih (p + 4) (by omega)).push (v := v) (by omega)
      rw [hBelow] at hPush
      exact hPush

end Memory

/-! ### Registers -/

section Registers

variable (s : Cpu) (r : Reg) (v : UInt32)

@[simp] theorem Cpu.setReg_self : (s.setReg r v).reg r = v := Function.update_self ..

@[simp] theorem Cpu.setReg_of_ne {r' : Reg} (h : r' ≠ r) : (s.setReg r v).reg r' = s.reg r' :=
  Function.update_of_ne h ..

@[simp] theorem Cpu.setReg_mem : (s.setReg r v).mem = s.mem := rfl

@[simp] theorem Cpu.setReg_seg : (s.setReg r v).seg = s.seg := rfl

@[simp] theorem Cpu.setReg_eip : (s.setReg r v).eip = s.eip := rfl

@[simp] theorem Cpu.push_esp : (s.push v).reg .esp = s.reg .esp - 4 := s.setReg_self .esp _

@[simp] theorem Cpu.push_of_ne (h : r ≠ .esp) : (s.push v).reg r = s.reg r :=
  s.setReg_of_ne .esp _ h

@[simp] theorem Cpu.push_mem : (s.push v).mem = store32 s.mem (s.reg .esp - 4) v := rfl

@[simp] theorem Cpu.dropWords_esp (k : UInt32) :
    (s.dropWords k).reg .esp = s.reg .esp + 4 * k := s.setReg_self .esp _

@[simp] theorem Cpu.dropWords_of_ne (k : UInt32) (h : r ≠ .esp) :
    (s.dropWords k).reg r = s.reg r := s.setReg_of_ne .esp _ h

@[simp] theorem Cpu.dropWords_mem (k : UInt32) : (s.dropWords k).mem = s.mem := rfl

@[simp] theorem Cpu.setSeg_reg (q : SegReg) (w : UInt16) : (s.setSeg q w).reg = s.reg := rfl

@[simp] theorem Cpu.setSeg_mem (q : SegReg) (w : UInt16) : (s.setSeg q w).mem = s.mem := rfl

@[simp] theorem Cpu.setSeg_self (q : SegReg) (w : UInt16) : (s.setSeg q w).seg q = w :=
  Function.update_self ..

@[simp] theorem Cpu.setSeg_of_ne {q q' : SegReg} (w : UInt16) (h : q' ≠ q) :
    (s.setSeg q w).seg q' = s.seg q' :=
  Function.update_of_ne h ..

@[simp] theorem Cpu.push_seg : (s.push v).seg = s.seg := rfl

@[simp] theorem Cpu.dropWords_seg (k : UInt32) : (s.dropWords k).seg = s.seg := rfl

@[simp] theorem Cpu.next_reg : s.next.reg = s.reg := rfl

@[simp] theorem Cpu.next_seg : s.next.seg = s.seg := rfl

@[simp] theorem Cpu.next_mem : s.next.mem = s.mem := rfl

end Registers

/-! ### Straight-line code -/

/-- The instruction hands control to the one behind it. -/
def Instr.Sequential : Instr → Bool
  | .call _ | .ret | .iretd => false
  | _ => true

/-- The instruction does not write register `r`. -/
def Instr.Keeps (r : Reg) : Instr → Bool
  | .movReg dst _ | .load dst _ _ | .orImm dst _ | .addImm dst _ => r ≠ dst
  | .loadAx _ _ => r ≠ .eax
  | .movSeg _ => true
  | .pushReg _ | .pushMem _ _ | .pushf | .call _ | .ret => r ≠ .esp
  | .popReg dst => r ≠ .esp ∧ r ≠ dst
  | .iretd => false

/-- The instruction does not write segment register `r`. -/
def Instr.KeepsSeg (r : SegReg) : Instr → Bool
  | .movSeg dst => r ≠ dst
  | .iretd => false
  | _ => true

/-- The instruction stores nothing. -/
def Instr.KeepsMem : Instr → Bool
  | .pushReg _ | .pushMem _ _ | .pushf | .call _ => false
  | _ => true

theorem exec_reg {i : Instr} {r : Reg} (h : i.Keeps r) (text : UInt32) (s : Cpu) :
    (exec text i s).reg r = s.reg r := by
  cases i with
  | movSeg dst => rfl
  | iretd => cases h
  | popReg dst =>
      obtain ⟨hEsp, hDst⟩ := of_decide_eq_true h
      exact (Cpu.setReg_of_ne _ dst _ hDst).trans (s.dropWords_of_ne r 1 hEsp)
  | ret => exact s.dropWords_of_ne r 1 (of_decide_eq_true h)
  | pushReg src => exact s.push_of_ne r (s.reg src) (of_decide_eq_true h)
  | pushMem base disp => exact s.push_of_ne r (load32 s.mem (s.reg base + disp)) (of_decide_eq_true h)
  | pushf => exact s.push_of_ne r s.eflags (of_decide_eq_true h)
  | call target => exact s.push_of_ne r (s.eip + 1) (of_decide_eq_true h)
  | loadAx base disp =>
      rw [exec, Cpu.next_reg]
      exact s.setReg_of_ne .eax _ (of_decide_eq_true h)
  | movReg dst src => exact s.setReg_of_ne dst _ (of_decide_eq_true h)
  | load dst base disp => exact s.setReg_of_ne dst _ (of_decide_eq_true h)
  | orImm dst imm => exact s.setReg_of_ne dst _ (of_decide_eq_true h)
  | addImm dst imm => exact s.setReg_of_ne dst _ (of_decide_eq_true h)

theorem exec_seg {i : Instr} {r : SegReg} (h : i.KeepsSeg r) (text : UInt32) (s : Cpu) :
    (exec text i s).seg r = s.seg r := by
  cases i with
  | movSeg dst => exact s.setSeg_of_ne _ (of_decide_eq_true h)
  | iretd => cases h
  | _ => rfl

theorem exec_mem {i : Instr} (h : i.KeepsMem) (text : UInt32) (s : Cpu) :
    (exec text i s).mem = s.mem := by
  cases i with
  | iretd =>
      rw [exec, Cpu.iret]
      split <;> rfl
  | pushReg src => cases h
  | pushMem base disp => cases h
  | pushf => cases h
  | call target => cases h
  | _ => rfl

theorem exec_eip {i : Instr} (h : i.Sequential) (text : UInt32) (s : Cpu) :
    (exec text i s).eip = s.eip + 1 := by
  cases i <;> first | rfl | cases h

theorem step_at {text k : UInt32} {program : List Instr} {s : Cpu} {i : Instr}
    (hEip : s.eip = text + k) (hFetch : program[k.toNat]? = some i) :
    step text program s = some (exec text i s) := by
  have hIndex : text + k - text = k := by grind
  rw [step, hEip, hIndex, hFetch, Option.map_some]

theorem run_succ {text : UInt32} {program : List Instr} {s s' : Cpu} (n : Nat)
    (h : step text program s = some s') :
    run text program (n + 1) s = run text program n s' := by
  rw [run, h, Option.bind_some]

/-- The instructions of `is`, one after the other. -/
def execAll (text : UInt32) (is : List Instr) (s : Cpu) : Cpu :=
  is.foldl (fun s i => exec text i s) s

theorem execAll_cons (text : UInt32) (i : Instr) (is : List Instr) (s : Cpu) :
    execAll text (i :: is) s = execAll text is (exec text i s) := List.foldl_cons

theorem execAll_nil (text : UInt32) (s : Cpu) : execAll text [] s = s := List.foldl_nil

theorem execAll_reg {r : Reg} (text : UInt32) {is : List Instr} (h : ∀ i ∈ is, i.Keeps r)
    (s : Cpu) : (execAll text is s).reg r = s.reg r := by
  induction is generalizing s with
  | nil => rfl
  | cons i is ih =>
      rw [execAll_cons, ih (fun j hj => h j (List.mem_cons_of_mem i hj))]
      exact exec_reg (h i List.mem_cons_self) text s

theorem execAll_seg {r : SegReg} (text : UInt32) {is : List Instr} (h : ∀ i ∈ is, i.KeepsSeg r)
    (s : Cpu) : (execAll text is s).seg r = s.seg r := by
  induction is generalizing s with
  | nil => rfl
  | cons i is ih =>
      rw [execAll_cons, ih (fun j hj => h j (List.mem_cons_of_mem i hj))]
      exact exec_seg (h i List.mem_cons_self) text s

theorem execAll_append (text : UInt32) (is js : List Instr) (s : Cpu) :
    execAll text (is ++ js) s = execAll text js (execAll text is s) := List.foldl_append

/-- What instruction `j` puts into a register that the rest does not write. -/
theorem execAll_at {r : Reg} (text : UInt32) {is : List Instr} {j : Nat} {i : Instr}
    (hAt : is[j]? = some i) (hRest : ∀ i ∈ is.drop (j + 1), i.Keeps r) (s : Cpu) :
    (execAll text is s).reg r = (exec text i (execAll text (is.take j) s)).reg r := by
  have hSplit : is = is.take j ++ i :: is.drop (j + 1) := by
    obtain ⟨hLength, hGet⟩ := List.getElem?_eq_some_iff.mp hAt
    rw [← hGet, List.getElem_cons_drop, List.take_append_drop]
  conv_lhs => rw [hSplit]
  rw [execAll_append, execAll_cons]
  exact execAll_reg text hRest _

/-- Straight-line code runs through. -/
theorem run_sequential (text : UInt32) (program is : List Instr) {s : Cpu} {k : Nat}
    (hSequential : ∀ i ∈ is, i.Sequential) (hEip : s.eip = text + UInt32.ofNat k)
    (hCode : ∀ j < is.length, program[k + j]? = is[j]?) (hSize : k + is.length < 4294967296)
    (n : Nat) :
    run text program (is.length + n) s = run text program n (execAll text is s) ∧
      (execAll text is s).eip = text + UInt32.ofNat (k + is.length) := by
  induction is generalizing s k with
  | nil => exact ⟨by rw [List.length_nil, Nat.zero_add]; rfl, hEip⟩
  | cons i is ih =>
      rw [List.length_cons] at hSize
      have hIndex : (UInt32.ofNat k).toNat = k := by
        rw [UInt32.toNat_ofNat']
        exact Nat.mod_eq_of_lt (by omega)
      have hFetch : program[(UInt32.ofNat k).toNat]? = some i := by
        rw [hIndex]
        exact hCode 0 (Nat.succ_pos _)
      have hNext : (exec text i s).eip = text + UInt32.ofNat (k + 1) := by
        rw [exec_eip (hSequential i List.mem_cons_self), hEip, UInt32.ofNat_add]
        grind
      obtain ⟨hRun, hEnd⟩ := ih (fun j hj => hSequential j (List.mem_cons_of_mem i hj)) hNext
        (fun j hj => by
          have hShift := hCode (j + 1) (by rw [List.length_cons]; omega)
          rw [Nat.add_assoc, Nat.add_comm 1 j, hShift]
          rfl) (by omega)
      have hTotal : (i :: is).length + n = is.length + n + 1 := by
        rw [List.length_cons]
        omega
      refine ⟨?_, ?_⟩
      · rw [hTotal, run_succ _ (step_at hEip hFetch), hRun]
        rfl
      · rw [List.length_cons, ← Nat.add_assoc, Nat.add_right_comm]
        exact hEnd

/-- The place behind instruction `k`. -/
theorem next_place (text : UInt32) (k : Nat) :
    text + UInt32.ofNat k + 1 = text + UInt32.ofNat (k + 1) := by
  rw [UInt32.ofNat_add]
  grind

/-! ### A stack beside a record -/

/-- The stack pointer stands `room` words above `base`, the stack holds
`stack` from there on, and the words from `p` on hold `fields`. -/
structure View (base p : UInt32) (fields : List UInt32) (s : Cpu) (room : Nat)
    (stack : List UInt32) : Prop where
  esp : s.reg .esp = base + 4 * UInt32.ofNat room
  depth : stack.length + room < 1073741823
  stack : Words s.mem (s.reg .esp) stack
  fields : Words s.mem p fields

/-- The record shares no byte with the `size` words from `base` on. -/
structure Apart (base : UInt32) (size : Nat) (p : UInt32) (fields : List UInt32) : Prop where
  low : 4 * size ≤ (p - base).toNat
  high : (p - base).toNat + 4 * fields.length ≤ 4294967296

section View

variable {base p : UInt32} {size room : Nat} {fields stack : List UInt32} {s s' : Cpu}

/-- Instructions that leave the memory and the stack pointer alone. -/
theorem View.keep (h : View base p fields s room stack) (hMem : s'.mem = s.mem)
    (hEsp : s'.reg .esp = s.reg .esp) : View base p fields s' room stack := by
  refine ⟨hEsp.trans h.esp, h.depth, ?_, ?_⟩
  · rw [hMem, hEsp]
    exact h.stack
  · rw [hMem]
    exact h.fields

theorem View.after (h : View base p fields s room stack) {i : Instr} (hMem : i.KeepsMem)
    (hEsp : i.Keeps .esp) (text : UInt32) : View base p fields (exec text i s) room stack :=
  h.keep (exec_mem hMem text s) (exec_reg hEsp text s)

theorem View.afterAll (h : View base p fields s room stack) (is : List Instr)
    (hMem : ∀ i ∈ is, i.KeepsMem) (hEsp : ∀ i ∈ is, i.Keeps .esp) (text : UInt32) :
    View base p fields (execAll text is s) room stack := by
  induction is generalizing s with
  | nil => exact h
  | cons i is ih =>
      rw [execAll_cons]
      exact ih (h.after (hMem i List.mem_cons_self) (hEsp i List.mem_cons_self) text)
        (fun j hj => hMem j (List.mem_cons_of_mem i hj))
        (fun j hj => hEsp j (List.mem_cons_of_mem i hj))

theorem View.push (h : View base p fields s (room + 1) stack) (hApart : Apart base size p fields)
    (hRoom : room < size) (v : UInt32) :
    View base p fields (s.push v) room (v :: stack) := by
  have hBelow : s.reg .esp - 4 = base + 4 * UInt32.ofNat room := by
    rw [h.esp, UInt32.ofNat_add]
    grind
  have hSize := hApart.low
  have hHigh := hApart.high
  have hp := (p - base).toNat_lt
  have hDistance : (p - (s.reg .esp - 4)).toNat = (p - base).toNat - 4 * room := by
    have hSum : p - (s.reg .esp - 4) = p - base - 4 * UInt32.ofNat room := by
      rw [hBelow]
      grind
    have hOffset : (4 * UInt32.ofNat room).toNat = 4 * room := by
      rw [UInt32.toNat_mul, UInt32.toNat_ofNat']
      simp
      omega
    rw [hSum, UInt32.toNat_sub_of_le, hOffset]
    rw [UInt32.le_iff_toNat_le, hOffset]
    omega
  have hDepth := h.depth
  refine ⟨?_, ?_, ?_, ?_⟩
  · rw [Cpu.push_esp, hBelow]
  · rw [List.length_cons]
    omega
  · rw [Cpu.push_esp, Cpu.push_mem]
    exact h.stack.push (by omega)
  · rw [Cpu.push_mem]
    exact h.fields.store_below (by omega) (by omega)

theorem View.pop {v : UInt32} (h : View base p fields s room (v :: stack)) (hMem : s'.mem = s.mem)
    (hEsp : s'.reg .esp = s.reg .esp + 4) : View base p fields s' (room + 1) stack := by
  have hDepth := h.depth
  rw [List.length_cons] at hDepth
  refine ⟨?_, by omega, ?_, ?_⟩
  · rw [hEsp, h.esp, UInt32.ofNat_add]
    grind
  · rw [hMem, hEsp]
    exact h.stack.2
  · rw [hMem]
    exact h.fields

theorem View.pushMem (h : View base p fields s (room + 1) stack)
    (hApart : Apart base size p fields) (hRoom : room < size) {source : Reg} {disp v : UInt32}
    (hLoad : load32 s.mem (s.reg source + disp) = v) (text : UInt32) :
    View base p fields (exec text (.pushMem source disp) s) room (v :: stack) := by
  rw [← hLoad]
  exact (h.push hApart hRoom _).keep rfl rfl

end View

end X86
