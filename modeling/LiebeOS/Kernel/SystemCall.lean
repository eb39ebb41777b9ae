import LiebeOS.Kernel.Idt

/-! System calls from the library of the programs, `liebeos.asm`, through the gate of
`int 0x80` to the kernel, `idt.asm`, and back. Memory is what the calling task sees under
its directory, in which the kernel stands at its own addresses. -/
namespace LiebeOS

open Bytes X86

/-- The kernel's stack begins where `kernel_main` has the task segment point. -/
def tssEsp0 : UInt32 := 0x600000

/-- The functions of the kernel that `idt.asm` calls. -/
def isr80hHandlerFunction : Nat := 0
def interruptHandlerFunction : Nat := 1

/-- `isr80h_wrapper`, with `tmp_res` at `tmpRes`. -/
def isr80hWrapper (tmpRes : UInt32) : List GateInstr :=
  [ .pushad,
    .base (.pushReg .esp),
    .base (.pushReg .eax),
    .callC isr80hHandlerFunction,
    .storeAbs tmpRes .eax,
    .base (.addImm .esp 8),
    .popad,
    .loadAbs .eax tmpRes,
    .base .iretd ]

/-- A function of `liebeos.asm` without an argument. -/
def plainCall (command : UInt32) : List GateInstr :=
  [ .base (.pushReg .ebp),
    .base (.movReg .ebp .esp),
    .movImm .eax command,
    .int 0x80,
    .base (.popReg .ebp),
    .base .ret ]

/-- One that passes its argument on. -/
def argumentCall (command : UInt32) : List GateInstr :=
  [ .base (.pushReg .ebp),
    .base (.movReg .ebp .esp),
    .movImm .eax command,
    .base (.pushMem .ebp 8),
    .int 0x80,
    .base (.addImm .esp 4),
    .base (.popReg .ebp),
    .base .ret ]

/-- Here the argument is pushed before the command is chosen. -/
def printCall : List GateInstr :=
  [ .base (.pushReg .ebp),
    .base (.movReg .ebp .esp),
    .base (.pushMem .ebp 8),
    .movImm .eax 1,
    .int 0x80,
    .base (.addImm .esp 4),
    .base (.popReg .ebp),
    .base .ret ]

def liebeosGetkey : List GateInstr := plainCall 2
def liebeosPutchar : List GateInstr := argumentCall 3
def liebeosMalloc : List GateInstr := argumentCall 4
def liebeosFree : List GateInstr := argumentCall 5
def liebeosProcessLoadStart : List GateInstr := argumentCall 6
def liebeosSystem : List GateInstr := argumentCall 7
def liebeosProcessGetArguments : List GateInstr := argumentCall 8
def liebeosExit : List GateInstr := plainCall 9

/-- The registers of a caller at `int 0x80`. -/
def callRegs (command top : UInt32) (reg : Reg → UInt32) : Reg → UInt32
  | .eax => command
  | .ebp => reg .esp - 4
  | .esp => top
  | r => reg r

/-- The functions of `liebeos.asm`. -/
inductive LibraryCall where
  | print
  | getkey
  | putchar
  | malloc
  | free
  | processLoadStart
  | system
  | getArguments
  | exit
  deriving DecidableEq

namespace LibraryCall

def code : LibraryCall → List GateInstr
  | print => printCall
  | getkey => liebeosGetkey
  | putchar => liebeosPutchar
  | malloc => liebeosMalloc
  | free => liebeosFree
  | processLoadStart => liebeosProcessLoadStart
  | system => liebeosSystem
  | getArguments => liebeosProcessGetArguments
  | exit => liebeosExit

/-- The function of the kernel that a call is for. -/
def handler (c : Isr80hCommands) : LibraryCall → Isr80hCommand
  | print => c.print
  | getkey => c.getkey
  | putchar => c.putchar
  | malloc => c.malloc
  | free => c.free
  | processLoadStart => c.processLoadStart
  | system => c.invokeSystemCommand
  | getArguments => c.getProgramArguments
  | exit => c.exit

def argument : LibraryCall → Bool
  | getkey | exit => false
  | _ => true

/-- The number of the call, as it stands in `eax` at `int 0x80`. -/
def command : LibraryCall → UInt32
  | print => 1
  | getkey => 2
  | putchar => 3
  | malloc => 4
  | free => 5
  | processLoadStart => 6
  | system => 7
  | getArguments => 8
  | exit => 9

/-- The flags behind the call. An argument is dropped by `add`, which rewrites some. -/
def flags (call : LibraryCall) (esp eflags : UInt32) : UInt32 :=
  if call.argument then addFlags eflags (esp - 8) 4 else eflags

/-- The place of `int 0x80`. -/
def place (call : LibraryCall) : Nat := if call.argument then 4 else 3

/-- The stack pointer there, of a caller with stack pointer `esp`. -/
def top (call : LibraryCall) (esp : UInt32) : UInt32 := if call.argument then esp - 8 else esp - 4

/-- The registers there. -/
def reg (call : LibraryCall) (reg : Reg → UInt32) : Reg → UInt32 :=
  callRegs call.command (call.top (reg .esp)) reg

/-- What has been pushed: the base pointer of the caller, and the argument. -/
def pushed (call : LibraryCall) (reg : Reg → UInt32) (mem : Memory) : List UInt32 :=
  if call.argument then [load32 mem (reg .esp + 4), reg .ebp] else [reg .ebp]

end LibraryCall

/-! ### The frame -/

def InterruptFrame.words (f : InterruptFrame) : List UInt32 :=
  [f.edi, f.esi, f.ebp, f.reserved, f.ebx, f.edx, f.ecx, f.eax, f.ip, f.cs, f.flags, f.esp, f.ss]

/-- `*frame` -/
def frameAt (mem : Memory) (p : UInt32) : InterruptFrame where
  edi := load32 mem p
  esi := load32 mem (p + 4)
  ebp := load32 mem (p + 4 + 4)
  reserved := load32 mem (p + 4 + 4 + 4)
  ebx := load32 mem (p + 4 + 4 + 4 + 4)
  edx := load32 mem (p + 4 + 4 + 4 + 4 + 4)
  ecx := load32 mem (p + 4 + 4 + 4 + 4 + 4 + 4)
  eax := load32 mem (p + 4 + 4 + 4 + 4 + 4 + 4 + 4)
  ip := load32 mem (p + 4 + 4 + 4 + 4 + 4 + 4 + 4 + 4)
  cs := load32 mem (p + 4 + 4 + 4 + 4 + 4 + 4 + 4 + 4 + 4)
  flags := load32 mem (p + 4 + 4 + 4 + 4 + 4 + 4 + 4 + 4 + 4 + 4)
  esp := load32 mem (p + 4 + 4 + 4 + 4 + 4 + 4 + 4 + 4 + 4 + 4 + 4)
  ss := load32 mem (p + 4 + 4 + 4 + 4 + 4 + 4 + 4 + 4 + 4 + 4 + 4 + 4)

theorem frameAt_words {mem : Memory} {p : UInt32} {f : InterruptFrame} (h : Words mem p f.words) :
    frameAt mem p = f := by
  obtain ⟨h0, h1, h2, h3, h4, h5, h6, h7, h8, h9, h10, h11, h12, _⟩ := h
  simp only [frameAt, h0, h1, h2, h3, h4, h5, h6, h7, h8, h9, h10, h11, h12]

/-- What an interrupt saves of a program that would go on at `ip`. -/
def trapFrame (reg : Reg → UInt32) (eflags ip : UInt32) : InterruptFrame where
  edi := reg .edi
  esi := reg .esi
  ebp := reg .ebp
  reserved := tssEsp0 - 20
  ebx := reg .ebx
  edx := reg .edx
  ecx := reg .ecx
  eax := reg .eax
  ip := ip
  cs := 0x1b
  flags := eflags
  esp := reg .esp
  ss := 0x23

/-- The place of the frame on the kernel's stack. -/
def framePlace : UInt32 := tssEsp0 - 52

section Gate

variable {World : Type} {e : Env World} {text : UInt32} {program : List GateInstr}
  {reg : Reg → UInt32} {seg : SegReg → UInt16} {eflags flags ip : UInt32} {mem : Memory}
  {world : World}

theorem kernel_level (hCs : seg .cs = kernelCodeSelector) : Cpu.rpl (seg .cs) = 0 := by
  rw [hCs]
  rfl

/-- The first two instructions of a handler. -/
theorem handler_saves (hHolds : e.Holds text program) (h0 : program[0]? = some .pushad)
    (h1 : program[1]? = some (.base (.pushReg .esp))) (hCs : seg .cs = kernelCodeSelector) :
    e.ReachesInner (hostAt text 0 (Function.update reg .esp (tssEsp0 - 20)) seg eflags
        (storeWords mem (tssEsp0 - 20) [ip, 0x1b, flags, reg .esp, 0x23]) world)
      (hostAt text 2 (Function.update reg .esp (tssEsp0 - 56)) seg eflags
        (storeWords mem (tssEsp0 - 56) (framePlace :: (trapFrame reg flags ip).words)) world) := by
  have hLevel := kernel_level hCs
  have hTop : (Function.update reg .esp (tssEsp0 - 20)) .esp = tssEsp0 - 20 := Function.update_self ..
  have hFrame : (Function.update reg .esp framePlace) .esp = framePlace := Function.update_self ..
  have hSaved := hHolds.stepInner hLevel h0 (@gate_pushad _ e text _ _ seg eflags mem world _ hTop
    [ip, 0x1b, flags, reg .esp, 0x23])
  rw [Function.update_idem, show tssEsp0 - 20 - 32 = framePlace from rfl] at hSaved
  have hPushed := hHolds.stepInner hLevel h1 (@gate_pushReg _ e text _ _ seg eflags mem world .esp _ hFrame
    (trapFrame reg flags ip).words)
  rw [Function.update_idem, Function.update_self] at hPushed
  exact hSaved.trans hPushed

/-- The registers come back from the frame. -/
theorem frame_popped {k : Nat} {user : Reg → UInt32} (hHolds : e.Holds text program)
    (hCode : program[k]? = some .popad) (hCs : seg .cs = kernelCodeSelector)
    (hEsp : reg .esp = framePlace) (hFrame : Words mem framePlace (trapFrame user flags ip).words) :
    e.ReachesInner (hostAt text k reg seg eflags mem world)
      (hostAt text (k + 1) (Function.update user .esp (tssEsp0 - 20)) seg eflags mem world) := by
  refine hHolds.stepInner (kernel_level hCs) hCode ((gate_popad _ _ _ _ hEsp hFrame).trans ?_)
  refine congrArg (fun r => some (hostAt text (k + 1) r seg eflags mem world)) (funext fun r => ?_)
  cases r <;> rfl

/-- The arguments are dropped first. The flags that this leaves do not outlive `iretd`. -/
theorem handler_restores {k : Nat} {user : Reg → UInt32} (hHolds : e.Holds text program)
    (h0 : program[k]? = some (.base (.addImm .esp 8))) (h1 : program[k + 1]? = some .popad)
    (hCs : seg .cs = kernelCodeSelector) (hEsp : reg .esp = tssEsp0 - 60)
    (hFrame : Words mem framePlace (trapFrame user flags ip).words) :
    e.ReachesInner (hostAt text k reg seg eflags mem world)
      (hostAt text (k + 2) (Function.update user .esp (tssEsp0 - 20)) seg
        (addFlags eflags (tssEsp0 - 60) 8) mem world) := by
  have hPlace : reg .esp + 8 = framePlace := by rw [hEsp]; rfl
  have hTop : (Function.update reg .esp (reg .esp + 8)) .esp = framePlace :=
    (Function.update_self ..).trans hPlace
  have hDropped := hHolds.stepInner (kernel_level hCs) h0
    (gate_addImm e text k reg seg eflags mem world .esp 8)
  rw [← hEsp]
  exact hDropped.trans (frame_popped hHolds h1 hCs hTop hFrame)

/-- The last instruction of a handler. -/
theorem handler_leaves {k : Nat} (hHolds : e.Holds text program)
    (h0 : program[k]? = some (.base .iretd)) (hCs : seg .cs = kernelCodeSelector)
    (hEsp : reg .esp = tssEsp0 - 20) {user : Reg → UInt32}
    (hFrame : Words mem framePlace (trapFrame user flags ip).words) :
    e.ReachesInner (hostAt text k reg seg eflags mem world)
      ⟨⟨Function.update reg .esp (user .esp), Function.update (Function.update seg .cs 0x1b) .ss 0x23,
        flags, ip, mem⟩, world⟩ := by
  have hLevel := kernel_level hCs
  have hWords : Words mem (reg .esp) [ip, (0x1b : UInt16).toUInt32, flags, user .esp,
      (0x23 : UInt16).toUInt32] := by
    rw [hEsp]
    exact hFrame.2.2.2.2.2.2.2.2
  refine hHolds.stepInner hLevel h0 (gate_iretd _ _ _ _ hWords ?_)
  rw [hCs]
  decide

/-! ### `isr80h_wrapper` -/

/-- A system call, from the instruction that raises it to the one behind it: the kernel's
function gets the frame, and its result takes the place of the command. -/
theorem systemCall_gate {handlers : IdtHandlers} {tmpRes : UInt32} {j : Nat} {r : CReturn World}
    (hGate : e.gate = idtGate (idtInit handlers)) (hEsp0 : e.esp0 = tssEsp0)
    (hSs0 : e.ss0 = kernelDataSelector)
    (hWrapper : e.Holds handlers.isr80hWrapper (isr80hWrapper tmpRes))
    (hTmpRes : 52 ≤ (tmpRes - framePlace).toNat ∧ (tmpRes - framePlace).toNat ≤ 4294967292)
    (hHolds : e.Holds text program) (hInt : program[j]? = some (.int 0x80))
    (hCs : seg .cs = 0x1b) (hSs : seg .ss = 0x23)
    (hCall : e.function isr80hHandlerFunction (tssEsp0 - 60)
      (storeWords mem (tssEsp0 - 60) (reg .eax :: framePlace ::
        (trapFrame reg eflags (text + UInt32.ofNat (j + 1))).words)) world = some r)
    (hKept : Words r.mem framePlace (trapFrame reg eflags (text + UInt32.ofNat (j + 1))).words) :
    e.Reaches (hostAt text j reg seg eflags mem world)
      (hostAt text (j + 1) (Function.update reg .eax r.result) (withData seg r.data) eflags
        (store32 r.mem tmpRes r.result) r.world) := by
  have hDecoded : e.gate 0x80 = some ⟨kernelCodeSelector, handlers.isr80hWrapper, 3⟩ := by
    rw [hGate]
    exact idtInit_gate handlers 0x80
  have hEnter := hHolds.step hInt (@gate_int World e text j reg seg eflags mem world _ _ hDecoded
    (by rw [hCs]; exact show ¬ (3 : UInt16) < Cpu.rpl 0x1b by decide)
    (by rw [hCs]; exact show Cpu.rpl 0x08 < Cpu.rpl 0x1b by decide))
  rw [hEsp0, hSs0, hCs, hSs] at hEnter
  have hSaved := hEnter.trans (handler_saves hWrapper rfl rfl rfl).reaches
  have hPushed := hSaved.trans (hWrapper.step (k := 2) rfl
    (gate_pushReg _ _ _ _ _ _ _ (Function.update_self ..) _))
  have hReturned := hPushed.trans (hWrapper.step (k := 3) rfl (@gate_callC World e _ _ _ _ _ _ _ _ r hCall))
  have hNoted := hReturned.trans (hWrapper.step (k := 4) rfl (gate_storeAbs ..))
  have hFrame := hKept.store_apart (v := r.result) hTmpRes.1 hTmpRes.2
  have hRestored := hNoted.trans (handler_restores (k := 5) hWrapper rfl rfl rfl rfl hFrame).reaches
  have hResult := hRestored.trans (hWrapper.step (k := 7) rfl (gate_loadAbs ..))
  rw [load32_store32] at hResult
  have hUser := hResult.trans (handler_leaves (k := 8) hWrapper rfl rfl rfl hFrame).reaches
  have hReg : Function.update (Function.update (Function.update reg .esp (tssEsp0 - 20)) .eax
      r.result) .esp (reg .esp) = Function.update reg .eax r.result := by
    funext x
    cases x <;> rfl
  have hSeg : Function.update (Function.update (withData
      (kernelSegs seg kernelCodeSelector kernelDataSelector) r.data) .cs 0x1b) .ss 0x23 =
      withData seg r.data := by
    funext x
    cases x with
    | cs => exact hCs.symm
    | ss => exact hSs.symm
    | _ => rfl
  rw [hReg, hSeg] at hUser
  exact hUser

/-! ### The functions of the library -/

/-- The argument that the caller has pushed, after one more word. -/
theorem argument_found (mem : Memory) (esp v : UInt32) :
    load32 (storeWords mem (esp - 4) [v]) (esp - 4 + 8) = load32 mem (esp + 4) := by
  rw [show esp - 4 + 8 = esp + 4 by grind]
  have hDistance : (esp + 4 - (esp - 4)).toNat = 8 := by
    rw [show esp + 4 - (esp - 4) = 8 by grind]
    rfl
  exact load32_storeWords_apart (by rw [hDistance, List.length_singleton]; decide)
    (by rw [hDistance]; decide)

/-- The first two instructions of every call. -/
theorem library_prologue (hHolds : e.Holds text program)
    (h0 : program[0]? = some (.base (.pushReg .ebp)))
    (h1 : program[1]? = some (.base (.movReg .ebp .esp))) :
    e.Reaches (hostAt text 0 reg seg eflags mem world)
      (hostAt text 2 (Function.update (Function.update reg .esp (reg .esp - 4)) .ebp (reg .esp - 4))
        seg eflags (storeWords mem (reg .esp - 4) [reg .ebp]) world) :=
  (hHolds.step h0 (gate_pushReg text 0 seg eflags mem world .ebp rfl [])).trans
    (hHolds.step h1 (gate_movReg ..))

theorem plainCall_enters {c : UInt32} (hHolds : e.Holds text (plainCall c)) :
    e.Reaches (hostAt text 0 reg seg eflags mem world)
      (hostAt text 3 (callRegs c (reg .esp - 4) reg) seg eflags
        (storeWords mem (reg .esp - 4) [reg .ebp]) world) := by
  have hEnd := (@library_prologue World e text _ reg seg eflags mem world hHolds rfl rfl).trans
    (hHolds.step (k := 2) rfl (gate_movImm ..))
  have hReg : Function.update (Function.update (Function.update reg .esp (reg .esp - 4)) .ebp
      (reg .esp - 4)) .eax c = callRegs c (reg .esp - 4) reg := by
    funext r
    cases r <;> rfl
  rw [hReg] at hEnd
  exact hEnd

theorem argumentCall_enters {c : UInt32} (hHolds : e.Holds text (argumentCall c)) :
    e.Reaches (hostAt text 0 reg seg eflags mem world)
      (hostAt text 4 (callRegs c (reg .esp - 8) reg) seg eflags
        (storeWords mem (reg .esp - 8) [load32 mem (reg .esp + 4), reg .ebp]) world) := by
  have hDown : reg .esp - 4 - 4 = reg .esp - 8 := by grind
  have hReg : Function.update (Function.update (Function.update (Function.update reg .esp
      (reg .esp - 4)) .ebp (reg .esp - 4)) .eax c) .esp (reg .esp - 8) =
      callRegs c (reg .esp - 8) reg := by
    funext r
    cases r <;> rfl
  have hPush := hHolds.step (k := 3) rfl (@gate_pushMem _ e text 3 (Function.update (Function.update
    (Function.update reg .esp (reg .esp - 4)) .ebp (reg .esp - 4)) .eax c) seg eflags mem world
    (reg .esp - 4) rfl .ebp 8 [reg .ebp])
  rw [hDown, hReg] at hPush
  have hItem := argument_found mem (reg .esp) (reg .ebp)
  have hEnd := ((@library_prologue World e text _ reg seg eflags mem world hHolds rfl rfl).trans
    (hHolds.step (k := 2) rfl (gate_movImm ..))).trans hPush
  rw [← hItem]
  exact hEnd

theorem printCall_enters (hHolds : e.Holds text printCall) :
    e.Reaches (hostAt text 0 reg seg eflags mem world)
      (hostAt text 4 (callRegs 1 (reg .esp - 8) reg) seg eflags
        (storeWords mem (reg .esp - 8) [load32 mem (reg .esp + 4), reg .ebp]) world) := by
  have hDown : reg .esp - 4 - 4 = reg .esp - 8 := by grind
  have hReg : Function.update (Function.update (Function.update (Function.update reg .esp
      (reg .esp - 4)) .ebp (reg .esp - 4)) .esp (reg .esp - 8)) .eax 1 =
      callRegs 1 (reg .esp - 8) reg := by
    funext r
    cases r <;> rfl
  have hPush := hHolds.step (k := 2) rfl (@gate_pushMem _ e text 2 (Function.update
    (Function.update reg .esp (reg .esp - 4)) .ebp (reg .esp - 4)) seg eflags mem world
    (reg .esp - 4) rfl .ebp 8 [reg .ebp])
  rw [hDown] at hPush
  have hItem := argument_found mem (reg .esp) (reg .ebp)
  have hEnd := ((@library_prologue World e text _ reg seg eflags mem world hHolds rfl rfl).trans
    hPush).trans (hHolds.step (k := 3) rfl (gate_movImm ..))
  rw [hReg] at hEnd
  rw [← hItem]
  exact hEnd

/-- Every call comes to its `int 0x80`. -/
theorem LibraryCall.enters (call : LibraryCall) (hHolds : e.Holds text call.code) :
    e.Reaches (hostAt text 0 reg seg eflags mem world)
      (hostAt text call.place (call.reg reg) seg eflags
        (storeWords mem (call.top (reg .esp)) (call.pushed reg mem)) world) := by
  cases call with
  | print => exact printCall_enters hHolds
  | getkey => exact plainCall_enters hHolds
  | exit => exact plainCall_enters hHolds
  | _ => exact argumentCall_enters hHolds

/-- The last two instructions of every call. -/
theorem library_epilogue {k : Nat} {caller : Reg → UInt32} {back : UInt32}
    (hHolds : e.Holds text program) (h0 : program[k]? = some (.base (.popReg .ebp)))
    (h1 : program[k + 1]? = some (.base .ret)) (hEsp : reg .esp = caller .esp - 4)
    (hKept : Words mem (caller .esp - 4) [caller .ebp, back]) :
    e.Reaches (hostAt text k reg seg eflags mem world)
      ⟨⟨Function.update (Function.update reg .ebp (caller .ebp)) .esp (caller .esp + 4), seg, eflags,
        back, mem⟩, world⟩ := by
  have hUp : caller .esp - 4 + 4 = caller .esp := by grind
  have hPop := hHolds.step h0 (gate_popReg e text k reg seg eflags mem world .ebp)
  rw [hEsp, hKept.1, hUp] at hPop
  have hBack : load32 mem ((Function.update (Function.update reg .esp (caller .esp)) .ebp
      (caller .ebp)) .esp) = back := by
    have hWord := hKept.2.1
    rwa [hUp] at hWord
  have hEnd := hPop.trans (hHolds.step h1 (gate_ret _ _ _ _ hBack))
  have hReg : Function.update (Function.update (Function.update reg .esp (caller .esp)) .ebp
      (caller .ebp)) .esp (caller .esp + 4) =
      Function.update (Function.update reg .ebp (caller .ebp)) .esp (caller .esp + 4) := by
    funext r
    cases r <;> rfl
  rw [← hReg]
  exact hEnd

theorem LibraryCall.leaves (call : LibraryCall) (hHolds : e.Holds text call.code)
    {caller : Reg → UInt32} {back : UInt32} (hEsp : reg .esp = call.top (caller .esp))
    (hKept : Words mem (caller .esp - 4) [caller .ebp, back]) :
    e.Reaches (hostAt text (call.place + 1) reg seg eflags mem world)
      ⟨⟨Function.update (Function.update reg .ebp (caller .ebp)) .esp (caller .esp + 4), seg,
        call.flags (caller .esp) eflags, back, mem⟩, world⟩ := by
  -- a call with an argument drops it first
  have hDropped : ∀ program, e.Holds text program → program[5]? = some (.base (.addImm .esp 4)) →
      program[6]? = some (.base (.popReg .ebp)) → program[7]? = some (.base .ret) →
      reg .esp = caller .esp - 8 →
      e.Reaches (hostAt text 5 reg seg eflags mem world)
        ⟨⟨Function.update (Function.update reg .ebp (caller .ebp)) .esp (caller .esp + 4), seg,
          addFlags eflags (caller .esp - 8) 4, back, mem⟩, world⟩ := by
    intro program hHolds h5 h6 h7 hTop
    have hUp : caller .esp - 8 + 4 = caller .esp - 4 := by grind
    have hAdd := hHolds.step h5 (gate_addImm e text 5 reg seg eflags mem world .esp 4)
    rw [hTop, hUp] at hAdd
    have hEnd := hAdd.trans (library_epilogue hHolds h6 h7 (Function.update_self ..) hKept)
    have hReg : Function.update (Function.update (Function.update reg .esp (caller .esp - 4)) .ebp
        (caller .ebp)) .esp (caller .esp + 4) =
        Function.update (Function.update reg .ebp (caller .ebp)) .esp (caller .esp + 4) := by
      funext r
      cases r <;> rfl
    rw [← hReg]
    exact hEnd
  cases call with
  | getkey => exact library_epilogue hHolds rfl rfl hEsp hKept
  | exit => exact library_epilogue hHolds rfl rfl hEsp hKept
  | _ => exact hDropped _ hHolds rfl rfl rfl hEsp

end Gate

/-! ### A whole call -/

/-- Where the kernel keeps its stack, which reaches down to `low`, the word `tmp_res`, and
in `data` what `Kernel` stands for and the screen. -/
structure KernelPlaces where
  low : Nat
  tmpRes : UInt32
  data : Nat → Prop
  noted : tmpRes.toNat + 4 ≤ low
  room : low + 60 ≤ tssEsp0.toNat
  stack : ∀ x, low ≤ x → x < tssEsp0.toNat → ¬ data x

/-- An address that the kernel has no use of its own for. -/
def OutsideKernel (places : KernelPlaces) (x : Nat) : Prop :=
  x < 4294967296 ∧ (x < places.low ∨ tssEsp0.toNat ≤ x) ∧
    (x < places.tmpRes.toNat ∨ places.tmpRes.toNat + 4 ≤ x) ∧ ¬ places.data x

/-- The kernel as it is linked. `isr80h_handler` leaves the user's selector in the data
segments, and uses the stack below its arguments and these themselves as it likes. -/
structure KernelLinked (e : Env Kernel) (handlers : IdtHandlers) (places : KernelPlaces)
    (commands : Nat → Option Isr80hCommand) : Prop where
  gate : e.gate = idtGate (idtInit handlers)
  esp0 : e.esp0 = tssEsp0
  ss0 : e.ss0 = kernelDataSelector
  wrapper : e.Holds handlers.isr80hWrapper (isr80hWrapper places.tmpRes)
  handler : ∀ args mem k res mem' k',
    isr80hHandler commands (signed (load32 mem args).toNat) (frameAt mem (load32 mem (args + 4)))
      mem k = some (res, mem', k') →
    ∃ r, e.function isr80hHandlerFunction args mem k = some r ∧ r.result = res ∧ r.world = k' ∧
      r.data = 0x23 ∧ ∀ x, x < places.low ∨ args.toNat + 8 ≤ x → ¬ places.data x → r.mem x = mem' x

/-- A program about to execute the first instruction of a call. The two words that the
call may push, the return address and the argument are its own. -/
structure Caller (places : KernelPlaces) (s : Cpu) : Prop where
  cs : s.seg .cs = 0x1b
  ss : s.seg .ss = 0x23
  room : 8 ≤ (s.reg .esp).toNat ∧ (s.reg .esp).toNat + 8 ≤ 4294967296
  apart : ∀ i < 16, OutsideKernel places ((s.reg .esp).toNat - 8 + i)

/-- What the kernel is told about the program. -/
def LibraryCall.frame (call : LibraryCall) (s : Cpu) : InterruptFrame :=
  trapFrame (call.reg s.reg) s.eflags (s.eip + UInt32.ofNat (call.place + 1))

/-- Memory as `isr80h_handler` finds it. -/
def LibraryCall.memory (call : LibraryCall) (s : Cpu) : Memory :=
  storeWords (storeWords s.mem (call.top (s.reg .esp)) (call.pushed s.reg s.mem)) (tssEsp0 - 60)
    (call.command :: framePlace :: (call.frame s).words)

/-- The call has returned `res` to its caller, to whom everything else is as before, but for
the flags of arithmetic behind a call with an argument. -/
structure CallReturned (call : LibraryCall) (s : Cpu) (res : UInt32) (t : Cpu) : Prop where
  eip : t.eip = load32 s.mem (s.reg .esp)
  esp : t.reg .esp = s.reg .esp + 4
  eax : t.reg .eax = res
  others : ∀ r, r ≠ .eax → r ≠ .esp → t.reg r = s.reg r
  cs : t.seg .cs = s.seg .cs
  ss : t.seg .ss = s.seg .ss
  data : ∀ r, r ≠ .cs → r ≠ .ss → t.seg r = 0x23
  eflags : t.eflags = call.flags (s.reg .esp) s.eflags

section Call

variable {e : Env Kernel} {handlers : IdtHandlers} {places : KernelPlaces}
  {commands : Nat → Option Isr80hCommand} {c : Isr80hCommands} {s : Cpu} {k : Kernel}

/-- The number of a call is the one that its function is registered with. -/
theorem LibraryCall.handled (call : LibraryCall) (c : Isr80hCommands) (f : InterruptFrame)
    (mem : Memory) (k : Kernel) :
    isr80hHandleCommand (fun n => c.list[n]?) (signed call.command.toNat) f mem k =
      call.handler c f mem k := by
  cases call <;> rfl

theorem LibraryCall.int_at (call : LibraryCall) : call.code[call.place]? = some (.int 0x80) := by
  cases call <;> rfl

/-- The arguments of `isr80h_handler`. -/
theorem LibraryCall.memory_words (call : LibraryCall) (s : Cpu) :
    Words (call.memory s) (tssEsp0 - 60) (call.command :: framePlace :: (call.frame s).words) :=
  words_storeWords _ _ (show 15 < 1073741823 by decide)

/-- The handler does what the function of the call does. -/
theorem KernelLinked.answers (link : KernelLinked e handlers places fun n => c.list[n]?)
    (call : LibraryCall) (hTask : taskCurrent k ≠ 0) {res : UInt32} {mem' : Memory} {k' : Kernel}
    (hAnswer : call.handler c (call.frame s) (call.memory s)
      (taskCurrentSaveState k (call.frame s)) = some (res, mem', k')) :
    ∃ r, e.function isr80hHandlerFunction (tssEsp0 - 60) (call.memory s) k = some r ∧
      r.result = res ∧ r.world = k' ∧ r.data = 0x23 ∧
      ∀ x, x < places.low ∨ framePlace.toNat ≤ x → ¬ places.data x → r.mem x = mem' x := by
  have hWords := call.memory_words s
  have hFrame : frameAt (call.memory s) (load32 (call.memory s) (tssEsp0 - 60 + 4)) =
      call.frame s := by
    rw [hWords.2.1]
    exact frameAt_words hWords.2.2
  refine link.handler (tssEsp0 - 60) (call.memory s) k res mem' k' ?_
  rw [hWords.1, hFrame, isr80hHandler, if_neg hTask, call.handled]
  exact hAnswer

/-- The words of the caller lie where the kernel does not write. -/
theorem Caller.words_kept {mem mem' : Memory} {vals : List UInt32} (h : Caller places s)
    (hLength : vals.length = 2) (hWords : Words mem (s.reg .esp - 4) vals)
    (hSame : ∀ x, OutsideKernel places x → mem' x = mem x) :
    Words mem' (s.reg .esp - 4) vals := by
  refine hWords.congr fun i hi => hSame _ ?_
  have hRoom := h.room
  have hPlace : (s.reg .esp - 4).toNat = (s.reg .esp).toNat - 4 := by
    rw [UInt32.toNat_sub_of_le]
    · rfl
    · rw [UInt32.le_iff_toNat_le]
      exact Nat.le_trans (show (4 : UInt32).toNat ≤ 8 by decide) hRoom.1
  rw [hLength] at hi
  rw [hPlace, behind_of_lt (by omega)]
  have hApart := h.apart (4 + i) (by omega)
  rwa [show (s.reg .esp).toNat - 8 + (4 + i) = (s.reg .esp).toNat - 4 + i by omega] at hApart

theorem LibraryCall.returns (link : KernelLinked e handlers places fun n => c.list[n]?)
    (call : LibraryCall) (hCode : e.Holds s.eip call.code) (hCaller : Caller places s)
    (hTask : taskCurrent k ≠ 0) {res : UInt32} {mem' : Memory} {k' : Kernel}
    (hAnswer : call.handler c (call.frame s) (call.memory s)
      (taskCurrentSaveState k (call.frame s)) = some (res, mem', k'))
    (hFrame : Words mem' framePlace (call.frame s).words)
    (hStack : Words mem' (s.reg .esp - 4) [s.reg .ebp, load32 s.mem (s.reg .esp)]) :
    ∃ t, e.Reaches ⟨s, k⟩ ⟨t, k'⟩ ∧ CallReturned call s res t ∧
      ∀ x, OutsideKernel places x → t.mem x = mem' x := by
  obtain ⟨r, hCall, rfl, rfl, hData, hMem⟩ := link.answers call hTask hAnswer
  have hNoted := places.noted
  have hRoom := places.room
  have hTop : tssEsp0.toNat = 0x600000 := rfl
  have hPlace : framePlace.toNat = 0x5FFFCC := rfl
  -- the frame, and the words of the caller, are still there when `eax` has been noted
  have hFrame' : Words r.mem framePlace (call.frame s).words :=
    hFrame.congr fun i hi => by
      have hSmall : i < 52 := hi
      rw [hPlace, behind_of_lt (by omega)]
      exact hMem _ (Or.inr (by omega)) (places.stack _ (by omega) (by omega))
  have hApart : 52 ≤ (places.tmpRes - framePlace).toNat ∧
      (places.tmpRes - framePlace).toNat ≤ 4294967292 := by
    rw [UInt32.toNat_sub, hPlace]
    omega
  have hSame : ∀ x, OutsideKernel places x → store32 r.mem places.tmpRes r.result x = mem' x := by
    intro x hx
    obtain ⟨hx, hStack, hOut, hData⟩ := hx
    have hFar : 4 ≤ offsetFrom places.tmpRes.toNat x := by
      have hLt := places.tmpRes.toNat_lt
      unfold offsetFrom MachineInt.toWord
      omega
    rw [store32_outside hFar]
    exact hMem x (by omega) hData
  have hStack' := hCaller.words_kept rfl hStack hSame
  have hEnter := @LibraryCall.enters Kernel e s.eip s.reg s.seg s.eflags s.mem k call hCode
  rw [hostAt_zero] at hEnter
  have hGate := hEnter.trans (systemCall_gate link.gate link.esp0 link.ss0 link.wrapper hApart hCode
    call.int_at hCaller.cs hCaller.ss hCall hFrame')
  refine ⟨_, hGate.trans (call.leaves hCode rfl hStack'), ?_, hSame⟩
  exact
    { eip := rfl
      esp := rfl
      eax := rfl
      others := fun r hEax hEsp => by
        cases r with
        | eax => exact absurd rfl hEax
        | esp => exact absurd rfl hEsp
        | _ => rfl
      cs := rfl
      ss := rfl
      data := fun r hCs hSs => by
        cases r with
        | cs => exact absurd rfl hCs
        | ss => exact absurd rfl hSs
        | _ => exact hData
      eflags := rfl }

/-- The argument is the first item of the caller's stack. -/
theorem LibraryCall.argument_item (call : LibraryCall) (hCaller : Caller places s)
    (hArgument : call.argument = true) :
    callerStackItem (call.memory s) (taskCurrentSaveState k (call.frame s)) 0 =
      load32 s.mem (s.reg .esp + 4) := by
  have hTop : call.top (s.reg .esp) = s.reg .esp - 8 := if_pos hArgument
  have hPushed : call.pushed s.reg s.mem = [load32 s.mem (s.reg .esp + 4), s.reg .ebp] :=
    if_pos hArgument
  have hSaved : ((taskCurrentSaveState k (call.frame s)).sched.tasks
      (taskCurrent (taskCurrentSaveState k (call.frame s)))).registers.esp =
      (call.top (s.reg .esp)).toNat := by
    change (Function.update k.sched.tasks (taskCurrent k) (taskSaveState _ (call.frame s))
      (taskCurrent k)).registers.esp = _
    rw [Function.update_self]
    rfl
  have hItem : s.reg .esp - 8 + 4 * 0 = s.reg .esp - 8 := by grind
  rw [callerStackItem, hSaved, UInt32.ofNat_toNat, hTop, hItem, LibraryCall.memory, hTop, hPushed]
  have hRoom := hCaller.room
  have hLow := places.room
  have hFirst := hCaller.apart 0 (by decide)
  have hLast := hCaller.apart 3 (by decide)
  have hPlace : (s.reg .esp - 8).toNat = (s.reg .esp).toNat - 8 := UInt32.toNat_sub_of_le _ _
    (UInt32.le_iff_toNat_le.mpr hRoom.1)
  have hEsp0 : (tssEsp0 - 60).toNat = 0x5FFFC4 := rfl
  have hEsp0' : tssEsp0.toNat = 0x600000 := rfl
  unfold OutsideKernel at hFirst hLast
  have hFar : (s.reg .esp - 8 - (tssEsp0 - 60)).toNat =
      (4294967296 - 0x5FFFC4 + ((s.reg .esp).toNat - 8)) % 4294967296 := by
    rw [UInt32.toNat_sub, hPlace, hEsp0]
  rw [load32_storeWords_apart]
  · exact (@words_storeWords s.mem (s.reg .esp - 8) [load32 s.mem (s.reg .esp + 4), s.reg .ebp]
      (show 2 < 1073741823 by decide)).1
  · rw [hFar]
    change 60 ≤ _
    omega
  · rw [hFar]
    omega

/-- Apart from what it has pushed, the kernel finds the caller's memory. -/
theorem LibraryCall.memory_kept (call : LibraryCall) (hCaller : Caller places s) {x : Nat}
    (hx : OutsideKernel places x)
    (hPushed : x + 8 < (s.reg .esp).toNat ∨ (s.reg .esp).toNat ≤ x) :
    call.memory s x = s.mem x := by
  obtain ⟨hx, hStack, _⟩ := hx
  have hRoom := hCaller.room
  have hLow := places.room
  have hEsp0 : (tssEsp0 - 60).toNat = 0x5FFFC4 := rfl
  have hEsp0' : tssEsp0.toNat = 0x600000 := rfl
  rw [LibraryCall.memory, storeWords_outside, storeWords_outside]
  · unfold LibraryCall.top LibraryCall.pushed
    cases call.argument with
    | true =>
        have hPlace : (s.reg .esp - 8).toNat = (s.reg .esp).toNat - 8 := UInt32.toNat_sub_of_le _ _
          (UInt32.le_iff_toNat_le.mpr hRoom.1)
        change 8 ≤ offsetFrom (s.reg .esp - 8).toNat x
        rw [hPlace, offsetFrom, MachineInt.toWord]
        omega
    | false =>
        have hPlace : (s.reg .esp - 4).toNat = (s.reg .esp).toNat - 4 := UInt32.toNat_sub_of_le _ _
          (UInt32.le_iff_toNat_le.mpr (Nat.le_trans (show (4 : UInt32).toNat ≤ 8 by decide) hRoom.1))
        change 4 ≤ offsetFrom (s.reg .esp - 4).toNat x
        rw [hPlace, offsetFrom, MachineInt.toWord]
        omega
  · change 60 ≤ offsetFrom (tssEsp0 - 60).toNat x
    rw [hEsp0, offsetFrom, MachineInt.toWord]
    omega

/-- The two words that a caller wants back. -/
theorem LibraryCall.pushed_words (call : LibraryCall) (s : Cpu) :
    Words (storeWords s.mem (call.top (s.reg .esp)) (call.pushed s.reg s.mem)) (s.reg .esp - 4)
      [s.reg .ebp, load32 s.mem (s.reg .esp)] := by
  have hUp : s.reg .esp - 4 + 4 = s.reg .esp := by grind
  unfold LibraryCall.top LibraryCall.pushed
  cases call.argument with
  | true =>
      simp only [if_true]
      have hItems := @words_storeWords s.mem (s.reg .esp - 8)
        [load32 s.mem (s.reg .esp + 4), s.reg .ebp] (show 2 < 1073741823 by decide)
      have hBase : s.reg .esp - 8 + 4 = s.reg .esp - 4 := by grind
      have hFar : s.reg .esp - (s.reg .esp - 8) = 8 := by grind
      refine ⟨?_, ?_, trivial⟩
      · rw [← hBase]
        exact hItems.2.1
      · rw [hUp]
        exact load32_storeWords_apart (by rw [hFar]; exact show 8 ≤ 8 by decide)
          (by rw [hFar]; decide)
  | false =>
      simp only [Bool.false_eq_true, if_false]
      have hFar : s.reg .esp - (s.reg .esp - 4) = 4 := by grind
      refine ⟨?_, ?_, trivial⟩
      · exact (@words_storeWords s.mem (s.reg .esp - 4) [s.reg .ebp]
          (show 1 < 1073741823 by decide)).1
      · rw [hUp]
        exact load32_storeWords_apart (by rw [hFar]; exact show 4 ≤ 4 by decide)
          (by rw [hFar]; decide)

/-- The kernel finds them where they are. -/
theorem LibraryCall.memory_stack (call : LibraryCall) (hCaller : Caller places s) :
    Words (call.memory s) (s.reg .esp - 4) [s.reg .ebp, load32 s.mem (s.reg .esp)] := by
  refine hCaller.words_kept rfl (call.pushed_words s) fun x hx => storeWords_outside ?_
  obtain ⟨hx, hStack, _⟩ := hx
  have hLow := places.room
  have hEsp0 : (tssEsp0 - 60).toNat = 0x5FFFC4 := rfl
  have hEsp0' : tssEsp0.toNat = 0x600000 := rfl
  change 60 ≤ offsetFrom (tssEsp0 - 60).toNat x
  rw [hEsp0, offsetFrom, MachineInt.toWord]
  omega

end Call

/-- A program that calls the library gets to the function of the kernel that the call is
for, with its argument as the first item on its stack. When the function returns, having
left the frame and the caller's two words alone, the program goes on behind the call with
the function's result, its registers as before and the memory that the function has left. -/
theorem systemCall_returns (e : Env Kernel) (handlers : IdtHandlers) (places : KernelPlaces)
    (commands : Nat → Option Isr80hCommand) (c : Isr80hCommands)
    (hRegistered : isr80hRegisterCommands c = some commands)
    (link : KernelLinked e handlers places commands) (call : LibraryCall) (s : Cpu) (k : Kernel)
    (hCode : e.Holds s.eip call.code) (hCaller : Caller places s) (hTask : taskCurrent k ≠ 0) :
    (call.argument = true →
      callerStackItem (call.memory s) (taskCurrentSaveState k (call.frame s)) 0 =
        load32 s.mem (s.reg .esp + 4)) ∧
    (∀ x, OutsideKernel places x →
      (x + 8 < (s.reg .esp).toNat ∨ (s.reg .esp).toNat ≤ x) → call.memory s x = s.mem x) ∧
    ∀ res mem' k', call.handler c (call.frame s) (call.memory s)
        (taskCurrentSaveState k (call.frame s)) = some (res, mem', k') →
      Words mem' framePlace (call.frame s).words →
      Words mem' (s.reg .esp - 4) [s.reg .ebp, load32 s.mem (s.reg .esp)] →
      ∃ t, e.Reaches ⟨s, k⟩ ⟨t, k'⟩ ∧ CallReturned call s res t ∧
        ∀ x, OutsideKernel places x → t.mem x = mem' x := by
  rw [isr80hRegisterCommands_eq] at hRegistered
  obtain rfl := Option.some.inj hRegistered
  exact ⟨call.argument_item hCaller, fun x hx => call.memory_kept hCaller hx,
    fun res mem' k' hAnswer => call.returns link hCode hCaller hTask hAnswer⟩

/-- Commands of which only `malloc` does anything; it always has the same block. -/
def oneBlockCommands : Isr80hCommands :=
  let nothing : Isr80hCommand := fun _ mem k => some (0, mem, k)
  { sum := isr80hCommand0Sum
    print := nothing
    getkey := isr80hCommand2Getkey
    putchar := nothing
    malloc := fun _ mem k => some (0x01400000, mem, k)
    free := nothing
    processLoadStart := nothing
    invokeSystemCommand := nothing
    getProgramArguments := nothing
    exit := nothing }

def oneBlockHandlers : IdtHandlers := ⟨fun i => 0x101000 + 16 * UInt32.ofNat i, 0x104000, 0x103000⟩

/-- `liebeos_malloc` stands at 0x400100. -/
def oneBlockEnv : Env Kernel where
  code a := (isr80hWrapper 0x105000)[(a - 0x103000).toNat]?.or liebeosMalloc[(a - 0x400100).toNat]?
  gate := idtGate (idtInit oneBlockHandlers)
  esp0 := tssEsp0
  ss0 := kernelDataSelector
  function _ args mem k :=
    (isr80hHandler (fun n => oneBlockCommands.list[n]?) (signed (load32 mem args).toNat)
      (frameAt mem (load32 mem (args + 4))) mem k).map fun (res, mem, k) => ⟨res, 0, 0, 2, 0x23, mem, k⟩

/-- The records of the kernel stand behind `tmp_res`. -/
def oneBlockPlaces : KernelPlaces where
  low := 0x5FF000
  tmpRes := 0x105000
  data x := 0x105004 ≤ x ∧ x < 0x110000
  noted := by decide
  room := by decide
  stack x hLow _ hData := by omega

theorem oneBlockEnv_linked : KernelLinked oneBlockEnv oneBlockHandlers oneBlockPlaces
    fun n => oneBlockCommands.list[n]? where
  gate := rfl
  esp0 := rfl
  ss0 := rfl
  wrapper := Env.holds_of_code (by decide)
  handler args mem k res mem' k' h :=
    ⟨⟨res, 0, 0, 2, 0x23, mem', k'⟩, congrArg (Option.map _) h, rfl, rfl, rfl, fun _ _ _ => rfl⟩

/-- The program wants 64 bytes and goes on at 0x400050. -/
def mallocCaller : Cpu where
  reg := fun r => if r = .esp then 0x3FEFC0 else 7
  seg := fun r => if r = .cs then 0x1b else 0x23
  eflags := 0x202
  eip := 0x400100
  mem := storeWords (fun _ => 0) 0x3FEFC0 [0x400050, 64]

theorem mallocCaller_room : Caller oneBlockPlaces mallocCaller where
  cs := rfl
  ss := rfl
  room := by decide
  apart := by unfold OutsideKernel oneBlockPlaces; decide

theorem systemCall_returns_malloc :
    ∃ t k', oneBlockEnv.Reaches ⟨mallocCaller, oneProgram⟩ ⟨t, k'⟩ ∧
      CallReturned .malloc mallocCaller 0x01400000 t := by
  obtain ⟨_, _, hReturns⟩ := systemCall_returns oneBlockEnv oneBlockHandlers oneBlockPlaces _
    oneBlockCommands (isr80hRegisterCommands_eq _) oneBlockEnv_linked .malloc mallocCaller oneProgram
    (Env.holds_of_code (by decide)) mallocCaller_room (by decide)
  obtain ⟨t, hRun, hDone, _⟩ := hReturns _ _ _ rfl
    (LibraryCall.memory_words .malloc mallocCaller).2.2
    (LibraryCall.memory_stack .malloc mallocCaller_room)
  exact ⟨t, _, hRun, hDone⟩

end LiebeOS
