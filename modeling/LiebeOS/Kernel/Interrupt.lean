import Mathlib.Data.List.TakeWhile
import LiebeOS.Lib.X86Interleave
import LiebeOS.Kernel.SystemCall
import LiebeOS.Kernel.Terminal

/-! Interrupts of devices and faults, `idt.asm`: the two macros that make handlers, and
what the interrupted program notices of them. -/
namespace LiebeOS

open Bytes X86

/-- The macro `interrupt`, for interrupt `n`. -/
def interruptMacro (n : UInt32) : List GateInstr :=
  [ .pushad,
    .base (.pushReg .esp),
    .pushImm n,
    .callC interruptHandlerFunction,
    .base (.addImm .esp 8),
    .popad,
    .base .iretd ]

/-- The macro `interrupt_wrapper`, for function number `function`. -/
def interruptWrapper (function : Nat) : List GateInstr :=
  [ .cli,
    .pushad,
    .callC function,
    .popad,
    .sti,
    .base .iretd ]

def int0Function : Nat := 2

def int0Handler : List GateInstr := interruptWrapper int0Function

/-- Memory as `interrupt_handler` finds it. -/
def interruptMemory (n : UInt32) (s : Cpu) : Memory :=
  storeWords s.mem (tssEsp0 - 60) (n :: framePlace :: (trapFrame s.reg s.eflags s.eip).words)

section Handlers

variable {World : Type} {e : Env World} {handlers : IdtHandlers} {vector : UInt8} {n : UInt32}
  {s : Cpu} {world : World} {r : CReturn World}

end Handlers

/-! ### Programs that are interrupted -/

/-- A function of the kernel has left alone what the kernel has no use of its own for. -/
structure FunctionKeeps {World : Type} (places : KernelPlaces) (top : UInt32) (mem : Memory)
    (r : CReturn World) : Prop where
  data : r.data = 0x23
  mem : ∀ x, x < places.low ∨ top.toNat ≤ x → ¬ places.data x → r.mem x = mem x

/-- `"Divide by zero found"` -/
def divideLine : List UInt8 :=
  [68, 105, 118, 105, 100, 101, 32, 98, 121, 32, 122, 101, 114, 111, 32, 102, 111, 117, 110, 100]

/-- The line is printed between two newlines. -/
def divideText : List UInt8 := 10 :: (divideLine ++ [10])

/-- What `int_0_fn` does to the kernel, its terminal and the devices. -/
def int0Fn {Devices : Type} (k : Kernel × Terminal × Devices) : Kernel × Terminal × Devices :=
  (k.1, print k.2.1 divideText, k.2.2)

/-- Rows of the text memory, from 0xB8000 up to 0xC0000. What a terminal behind them stores
goes to other memory. -/
def textMemoryRows : Nat := 204

/-- The text of `int_0_fn` goes to the text memory. -/
def DivideTextFits (t : Terminal) : Prop := t.row + 1 < textMemoryRows

section DivideText

variable {t : Terminal}

end DivideText

/-! ### The handlers as they are linked -/

/-- `interrupt_handler` uses the stack as `isr80h_handler` does, and `int_0_fn` prints. -/
structure InterruptsLinked {Devices : Type} (e : Env (Kernel × Terminal × Devices))
    (handlers : IdtHandlers) (places : KernelPlaces)
    (callbacks : Nat → Option (InterruptCallback (Terminal × Devices))) : Prop where
  gate : e.gate = idtGate (idtInit handlers)
  esp0 : e.esp0 = tssEsp0
  ss0 : e.ss0 = kernelDataSelector
  macros : ∀ vector : UInt8, vector ≠ 0 → vector ≠ 0x80 →
    e.Holds (handlers.entry vector) (interruptMacro vector.toUInt32)
  int0 : e.Holds handlers.int0Handler int0Handler
  interrupt : ∀ args mem k, Option.Rel
    (fun r (mem', k') => r.world = k' ∧ FunctionKeeps places (args + 8) mem' r)
    (e.function interruptHandlerFunction args mem k)
    (interruptHandler callbacks (load32 mem args).toNat (frameAt mem (load32 mem (args + 4))) mem k)
  divide : ∀ top mem k, DivideTextFits k.2.1 → ∃ r, e.function int0Function top mem k = some r ∧
    r.world = int0Fn k ∧ FunctionKeeps places top mem r

/-- What the kernel does about an interrupt of a program. -/
def interruptHandled {Devices : Type}
    (callbacks : Nat → Option (InterruptCallback (Terminal × Devices))) (vector : UInt8) (s : Cpu)
    (k : Kernel × Terminal × Devices) : Option (Memory × Kernel × Terminal × Devices) :=
  interruptHandler callbacks vector.toNat (trapFrame s.reg s.eflags s.eip)
    (interruptMemory vector.toUInt32 s) k

section Programs

variable {Devices : Type} {e : Env (Kernel × Terminal × Devices)} {handlers : IdtHandlers}
  {places : KernelPlaces} {callbacks : Nat → Option (InterruptCallback (Terminal × Devices))}
  {own : Nat → Prop} {s : Cpu} {k : Kernel × Terminal × Devices}
  {r : CReturn (Kernel × Terminal × Devices)} {mem : Memory} {vector : UInt8}
  {h' : Host (Kernel × Terminal × Devices)}

/-- The frame of the program is still there when the function returns. -/
theorem FunctionKeeps.frame {top : UInt32} (h : FunctionKeeps places top mem r)
    (hTop : top.toNat ≤ framePlace.toNat)
    (hFrame : Words mem framePlace (trapFrame s.reg s.eflags s.eip).words) :
    Words r.mem framePlace (trapFrame s.reg s.eflags s.eip).words := by
  have hRoom := places.room
  have hPlace : framePlace.toNat = 0x5FFFCC := rfl
  have hEsp0 : tssEsp0.toNat = 0x600000 := rfl
  refine hFrame.congr fun i hi => ?_
  have hSmall : i < 52 := hi
  rw [hPlace, behind_of_lt (by omega)]
  exact h.mem _ (Or.inr (by omega)) (places.stack _ (by omega) (by omega))

theorem interruptMemory_words (n : UInt32) (s : Cpu) : Words (interruptMemory n s) (tssEsp0 - 60)
    (n :: framePlace :: (trapFrame s.reg s.eflags s.eip).words) :=
  words_storeWords _ _ (show 15 < 1073741823 by decide)

/-- `interrupt_handler` finds the number of the interrupt and the frame, and does what the
callback does. -/
theorem InterruptsLinked.handled (link : InterruptsLinked e handlers places callbacks)
    (vector : UInt8) (s : Cpu) (k : Kernel × Terminal × Devices) : Option.Rel
      (fun r (mem', k') => r.world = k' ∧ FunctionKeeps places framePlace mem' r)
      (e.function interruptHandlerFunction (tssEsp0 - 60) (interruptMemory vector.toUInt32 s) k)
      (interruptHandled callbacks vector s k) := by
  obtain ⟨hNumber, hPlace, hFrame⟩ := interruptMemory_words vector.toUInt32 s
  have hSaved : frameAt (interruptMemory vector.toUInt32 s) framePlace = _ := frameAt_words hFrame
  have hRel := link.interrupt (tssEsp0 - 60) (interruptMemory vector.toUInt32 s) k
  rw [hNumber, UInt8.toNat_toUInt32, hPlace, hSaved] at hRel
  exact hRel

end Programs

end LiebeOS
