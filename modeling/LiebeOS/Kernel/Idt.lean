import LiebeOS.Lib.X86Gate
import LiebeOS.Kernel.ClassicKeyboard

/-! The interrupt descriptor table of `idt.c`, the callbacks and commands that are
registered with it, and the two functions that its handlers call. -/
namespace LiebeOS

open Bytes X86

def liebeOsTotalInterrupts : Nat := 512
def liebeOsIsr80hMaxCommands : Nat := 1024
def kernelCodeSelector : UInt16 := 0x08
def kernelDataSelector : UInt16 := 0x10

/-- `struct idt_desc` -/
structure IdtDesc where
  offset1 : UInt16
  selector : UInt16
  zero : UInt8
  typeAttr : UInt8
  offset2 : UInt16
  deriving DecidableEq

/-- The addresses of the handlers of `idt.asm`. -/
structure IdtHandlers where
  interruptPointerTable : Nat → UInt32
  int0Handler : UInt32
  isr80hWrapper : UInt32

/-- The descriptor that `idt_set` writes. -/
def idtDesc (address : UInt32) : IdtDesc where
  offset1 := (address &&& 0x0000ffff).toUInt16
  selector := kernelCodeSelector
  zero := 0x00
  typeAttr := 0xEE
  offset2 := (address >>> 16).toUInt16

def idtSet (idt : Nat → IdtDesc) (interruptNo : Nat) (address : UInt32) : Nat → IdtDesc :=
  Function.update idt interruptNo (idtDesc address)

/-- The descriptors that `idt_init` writes. -/
def idtInit (handlers : IdtHandlers) : Nat → IdtDesc :=
  let idt := fun _ => ⟨0, 0, 0, 0, 0⟩
  let idt := (List.range liebeOsTotalInterrupts).foldl
    (fun idt i => idtSet idt i (handlers.interruptPointerTable i)) idt
  let idt := idtSet idt 0 handlers.int0Handler
  idtSet idt 0x80 handlers.isr80hWrapper

/-- The packed layout of a descriptor. -/
def IdtDesc.bytes (d : IdtDesc) : List UInt8 :=
  [d.offset1.toUInt8, (d.offset1 >>> 8).toUInt8, d.selector.toUInt8, (d.selector >>> 8).toUInt8,
    d.zero, d.typeAttr, d.offset2.toUInt8, (d.offset2 >>> 8).toUInt8]

/-- How the processor reads a gate: it has to be present, and only 32-bit interrupt gates
are known here. -/
def decodeGate : List UInt8 → Option Gate
  | [b0, b1, b2, b3, _, b5, b6, b7] =>
      if b5 &&& 0x80 ≠ 0 ∧ b5 &&& 0x1F = 0x0E then
        some
          { selector := UInt16.ofNat (b2.toNat + 256 * b3.toNat)
            offset := UInt32.ofNat (b0.toNat + 256 * b1.toNat + 65536 * b6.toNat +
              16777216 * b7.toNat)
            dpl := ((b5 >>> 5) &&& 3).toUInt16 }
      else none
  | _ => none

/-- The gate of a vector. The limit of the table lets every vector through. -/
def idtGate (idt : Nat → IdtDesc) (vector : UInt8) : Option Gate :=
  decodeGate (idt vector.toNat).bytes

/-- Where `idt_init` sends a vector. -/
def IdtHandlers.entry (handlers : IdtHandlers) (vector : UInt8) : UInt32 :=
  if vector = 0x80 then handlers.isr80hWrapper
  else if vector = 0 then handlers.int0Handler
  else handlers.interruptPointerTable vector.toNat

section Gates

variable (handlers : IdtHandlers)

theorem idtSet_loop (n : Nat) (idt : Nat → IdtDesc) {i : Nat} (hi : i < n) :
    (List.range n).foldl (fun idt i => idtSet idt i (handlers.interruptPointerTable i)) idt i =
      idtDesc (handlers.interruptPointerTable i) := by
  induction n with
  | zero => exact absurd hi (Nat.not_lt_zero i)
  | succ n ih =>
      rw [List.range_succ, List.foldl_concat]
      by_cases hLast : i = n
      · subst hLast
        exact Function.update_self ..
      · exact (Function.update_of_ne hLast ..).trans (ih (by omega))

/-- The two halves of an address make up the address. -/
theorem idtDesc_offset (address : UInt32) :
    UInt32.ofNat ((idtDesc address).offset1.toUInt8.toNat +
      256 * ((idtDesc address).offset1 >>> 8).toUInt8.toNat +
      65536 * (idtDesc address).offset2.toUInt8.toNat +
      16777216 * ((idtDesc address).offset2 >>> 8).toUInt8.toNat) = address := by
  have hLt := address.toNat_lt
  have hHalf : ∀ x, x &&& 65535 = x % 65536 := fun x => Nat.and_two_pow_sub_one_eq_mod x 16
  have hByte : ∀ x, x &&& 255 = x % 256 := fun x => Nat.and_two_pow_sub_one_eq_mod x 8
  apply UInt32.toNat.inj
  rw [UInt32.toNat_ofNat']
  simp [idtDesc, Nat.shiftRight_eq_div_pow, hHalf, hByte]
  omega

/-- A descriptor leads to the address it was made from, also out of user mode. -/
theorem decodeGate_idtDesc (address : UInt32) :
    decodeGate (idtDesc address).bytes = some ⟨kernelCodeSelector, address, 3⟩ := by
  have hOffset := idtDesc_offset address
  unfold decodeGate IdtDesc.bytes
  dsimp only
  rw [hOffset, show (idtDesc address).typeAttr = 0xEE from rfl,
    show (idtDesc address).selector = 0x08 from rfl, if_pos (by decide)]
  rfl

/-- Every vector leads to its handler, and a program may raise any of them. -/
theorem idtInit_gate (vector : UInt8) :
    idtGate (idtInit handlers) vector = some ⟨kernelCodeSelector, handlers.entry vector, 3⟩ := by
  have hVector := vector.toNat_lt
  have hDesc : idtInit handlers vector.toNat = idtDesc (handlers.entry vector) := by
    unfold idtInit IdtHandlers.entry
    by_cases h80 : vector = 0x80
    · subst h80
      exact Function.update_self ..
    · rw [if_neg h80]
      refine (Function.update_of_ne (fun h => h80 (UInt8.toNat.inj h)) ..).trans ?_
      by_cases h0 : vector = 0
      · subst h0
        exact Function.update_self ..
      · rw [if_neg h0]
        refine (Function.update_of_ne (fun h => h0 (UInt8.toNat.inj h)) ..).trans ?_
        exact idtSet_loop handlers _ _ (show vector.toNat < 512 by omega)
  rw [idtGate, hDesc]
  exact decodeGate_idtDesc _

end Gates

/-! ### Commands and callbacks -/

/-- A function of the kernel that answers a system call. `Memory` is what the task sees
under its directory. There is no answer where the program does not go on. -/
abbrev Isr80hCommand := InterruptFrame → Memory → Kernel → Option (UInt32 × Memory × Kernel)

/-- Without a valid number or a free entry the kernel panics. -/
def isr80hRegisterCommand (commands : Nat → Option Isr80hCommand) (commandId : Int)
    (command : Isr80hCommand) : Option (Nat → Option Isr80hCommand) :=
  if commandId < 0 ∨ liebeOsIsr80hMaxCommands ≤ commandId then none
  else if (commands commandId.toNat).isSome then none
  else some (Function.update commands commandId.toNat (some command))

def isr80hHandleCommand (commands : Nat → Option Isr80hCommand) (command : Int)
    (frame : InterruptFrame) (mem : Memory) (k : Kernel) : Option (UInt32 × Memory × Kernel) :=
  if command < 0 ∨ liebeOsIsr80hMaxCommands ≤ command then some (0, mem, k)
  else
    match commands command.toNat with
    | none => some (0, mem, k)
    | some fn => fn frame mem k

/-- Without a task the kernel panics. -/
def isr80hHandler (commands : Nat → Option Isr80hCommand) (command : Int)
    (frame : InterruptFrame) (mem : Memory) (k : Kernel) : Option (UInt32 × Memory × Kernel) :=
  if taskCurrent k = 0 then none
  else isr80hHandleCommand commands command frame mem (taskCurrentSaveState k frame)

/-- The functions of `isr80h_register_commands`, by the number they are registered with. -/
structure Isr80hCommands where
  sum : Isr80hCommand
  print : Isr80hCommand
  getkey : Isr80hCommand
  putchar : Isr80hCommand
  malloc : Isr80hCommand
  free : Isr80hCommand
  processLoadStart : Isr80hCommand
  invokeSystemCommand : Isr80hCommand
  getProgramArguments : Isr80hCommand
  exit : Isr80hCommand

/-- The functions in the order of `enum SystemCommands`. -/
def Isr80hCommands.list (c : Isr80hCommands) : List Isr80hCommand :=
  [c.sum, c.print, c.getkey, c.putchar, c.malloc, c.free, c.processLoadStart,
    c.invokeSystemCommand, c.getProgramArguments, c.exit]

def isr80hRegisterCommands (c : Isr80hCommands) : Option (Nat → Option Isr80hCommand) :=
  c.list.zipIdx.foldlM (fun commands (command, id) => isr80hRegisterCommand commands id command)
    fun _ => none

/-- `task_get_stack_item` of the task that has called. -/
def callerStackItem (mem : Memory) (k : Kernel) (index : UInt32) : UInt32 :=
  load32 mem (UInt32.ofNat (k.sched.tasks (taskCurrent k)).registers.esp + 4 * index)

def isr80hCommand0Sum : Isr80hCommand := fun _ mem k =>
  let v2 := callerStackItem mem k 1
  let v1 := callerStackItem mem k 0
  some (v1 + v2, mem, k)

/-- A `char` as an `int`: above 127 it is negative. -/
def charWord (c : UInt8) : UInt32 := if c < 0x80 then c.toUInt32 else c.toUInt32 + 0xFFFFFF00

def isr80hCommand2Getkey : Isr80hCommand := fun _ mem k =>
  let (c, k) := keyboardPop k
  some (charWord c, mem, k)

section Callbacks

variable {Devices : Type}

/-- A function that is registered for an interrupt, on the kernel and the devices that it
talks to. There is no answer if it does not return. -/
abbrev InterruptCallback (Devices : Type) :=
  InterruptFrame → Memory → Kernel × Devices → Option (Memory × Kernel × Devices)

/-- Without a task the kernel panics, or follows a null pointer on its way back. -/
def interruptHandler (callbacks : Nat → Option (InterruptCallback Devices)) (interrupt : Nat)
    (frame : InterruptFrame) (mem : Memory) (k : Kernel × Devices) :
    Option (Memory × Kernel × Devices) :=
  if taskCurrent k.1 = 0 then none
  else
    match callbacks interrupt with
    | none => some (mem, k)
    | some callback => callback frame mem (taskCurrentSaveState k.1 frame, k.2)

end Callbacks

section Commands

variable {commands : Nat → Option Isr80hCommand} {c : Isr80hCommands}

/-- Registering the next command after those of a list. -/
theorem isr80hRegisterCommand_next (l : List Isr80hCommand) (hFits : l.length < 1024)
    (command : Isr80hCommand) :
    isr80hRegisterCommand (fun n => l[n]?) l.length command =
      some fun n => (l ++ [command])[n]? := by
  have hIn : ¬ ((l.length : Int) < 0 ∨ (liebeOsIsr80hMaxCommands : Int) ≤ l.length) := by
    unfold liebeOsIsr80hMaxCommands
    omega
  have hFree : l[l.length]? = none := List.getElem?_eq_none (Nat.le_refl _)
  rw [isr80hRegisterCommand, if_neg hIn, Int.toNat_natCast, hFree]
  refine congrArg some (funext fun n => ?_)
  rcases Nat.lt_trichotomy n l.length with hBefore | rfl | hBehind
  · rw [Function.update_of_ne (Nat.ne_of_lt hBefore), List.getElem?_append_left hBefore]
  · rw [Function.update_self, List.getElem?_concat_length]
  · rw [Function.update_of_ne (Nat.ne_of_gt hBehind), List.getElem?_eq_none (Nat.le_of_lt hBehind),
      List.getElem?_eq_none (by rw [List.length_append, List.length_singleton]; omega)]

/-- The kernel registers its commands without a panic. -/
theorem isr80hRegisterCommands_eq (c : Isr80hCommands) :
    isr80hRegisterCommands c = some fun n => c.list[n]? := by
  have hLoop : ∀ (l done : List Isr80hCommand), done.length + l.length ≤ 1024 →
      (l.zipIdx done.length).foldlM
        (fun commands (command, id) => isr80hRegisterCommand commands id command)
        (fun n => done[n]?) = some fun n => (done ++ l)[n]? := by
    intro l
    induction l with
    | nil => simp
    | cons command l ih =>
        intro done hFits
        rw [List.length_cons] at hFits
        rw [List.zipIdx_cons, List.foldlM_cons]
        dsimp only
        rw [isr80hRegisterCommand_next done (by omega) command, Option.bind_eq_bind, Option.bind_some]
        have hRest := ih (done ++ [command]) (by rw [List.length_append, List.length_singleton]; omega)
        rw [List.length_append, List.length_singleton, List.append_assoc] at hRest
        exact hRest
  exact hLoop c.list [] (show 0 + 10 ≤ 1024 by decide)

end Commands

section Callbacks

variable {Devices : Type}

end Callbacks

end LiebeOS
