import LiebeOS.Status
import LiebeOS.Lib.MachineInt
import LiebeOS.Task.Task

/-! The process table of `process.c` with the calls that start and end
programs, and the keyboard queue of the processes. What the heap, the file
system and the page mapping answer while a program is loaded is an input. -/
namespace LiebeOS

open MachineInt

def liebeOsMaxProcesses : Nat := 12
def liebeOsKeyboardBufferSize : Nat := 1024

structure KeyboardBuffer where
  buffer : Int → UInt8
  head : Int
  tail : Int

/-- The part of `struct process` that scheduling and the keyboard use. -/
structure Process where
  id : Nat
  task : Nat
  keyboard : KeyboardBuffer

structure Kernel where
  sched : Scheduler
  processes : Nat → Nat
  records : Nat → Process
  currentProcess : Nat

/-- How a call ends: it returns, the kernel panics, or it goes through a null
pointer and nothing is known about what follows. -/
inductive Outcome (α : Type) where
  | returned (a : α)
  | halted
  | undefined

/-- The answers met by one `process_load`: the process record, the result of
loading the file, the stack, the task with its page directory and entry point,
and the result of mapping the memory. -/
structure LoadAnswers where
  process : Nat
  data : Int
  stack : Nat
  task : Nat
  pageDirectory : Nat
  ip : Nat
  map : Int

def processInit : Process := ⟨0, 0, ⟨fun _ => 0, 0, 0⟩⟩

def Kernel.storeProcess (k : Kernel) (process : Nat) (record : Process) : Kernel :=
  { k with records := Function.update k.records process record }

def processCurrent (k : Kernel) : Nat := k.currentProcess

def taskCurrent (k : Kernel) : Nat := k.sched.currentTask

def processGetFreeSlot (k : Kernel) : Option Nat :=
  (List.range liebeOsMaxProcesses).find? fun i => k.processes i = 0

/-- The null check behind the allocation of the record looks at the wrong
variable, so a refused record is written through. The check behind `task_new`
never sees its error values, and `task_new` itself does not survive a refusal. -/
def processLoadForSlot (k : Kernel) (a : LoadAnswers) (slot : Nat) :
    Outcome (Int × Nat × Kernel) :=
  if a.process = 0 then .undefined
  else
    let k := k.storeProcess a.process processInit
    if a.data < 0 then .returned (a.data, 0, k)
    else if a.stack = 0 then .returned (-enomem, 0, k)
    else
      let k := k.storeProcess a.process { processInit with id := slot }
      match taskNew k.sched a.task a.pageDirectory a.process a.ip with
      | none => .undefined
      | some sched =>
          let k := { k with sched := sched }
          let k := k.storeProcess a.process { processInit with id := slot, task := a.task }
          if a.map < 0 then .returned (a.map, 0, { k with sched := taskFree k.sched a.task })
          else
            .returned (a.map, a.process,
              { k with processes := Function.update k.processes slot a.process })

def processLoad (k : Kernel) (a : LoadAnswers) : Outcome (Int × Nat × Kernel) :=
  match processGetFreeSlot k with
  | none => .returned (-eistkn, 0, k)
  | some slot => processLoadForSlot k a slot

def processSwitch (k : Kernel) (process : Nat) : Kernel := { k with currentProcess := process }

def processLoadSwitch (k : Kernel) (a : LoadAnswers) : Outcome (Int × Nat × Kernel) :=
  match processLoad k a with
  | .returned (res, process, k) =>
      .returned (res, process, if res = 0 then processSwitch k process else k)
  | .halted => .halted
  | .undefined => .undefined

def processSwitchToAny (k : Kernel) : Outcome Kernel :=
  match (List.range liebeOsMaxProcesses).find? fun i => k.processes i ≠ 0 with
  | some i => .returned (processSwitch k (k.processes i))
  | none => .halted

def processUnlink (k : Kernel) (process : Nat) : Outcome Kernel :=
  let k := { k with processes := Function.update k.processes (k.records process).id 0 }
  if k.currentProcess = process then processSwitchToAny k else .returned k

/-- The memory that is given back before the task is of no concern here. -/
def processTerminate (k : Kernel) (process : Nat) : Outcome Kernel :=
  processUnlink { k with sched := taskFree k.sched (k.records process).task } process

/-- Both ways to end a program: end the process of the current task, then
switch to the next task. -/
def terminateCurrent (k : Kernel) : Outcome Kernel :=
  match processTerminate k (k.sched.process (taskCurrent k)) with
  | .returned k =>
      match taskNext k.sched with
      | some sched => .returned { k with sched := sched }
      | none => .halted
  | .halted => .halted
  | .undefined => .undefined

/-! ### System calls and faults -/

/-- `copied` is the result of fetching the file name from the caller. -/
def isr80hCommand6ProcessLoadStart (k : Kernel) (copied : Int) (a : LoadAnswers) :
    Outcome Kernel :=
  if copied < 0 then .returned k
  else
    match processLoadSwitch k a with
    | .returned (res, process, k) =>
        if res < 0 then .returned k
        else .returned { k with sched := taskSwitch k.sched (k.records process).task }
    | .halted => .halted
    | .undefined => .undefined

/-- `named` says that the caller passed a program name, `inject` is the result
of handing the arguments to the new process. -/
def isr80hCommand7InvokeSystemCommand (k : Kernel) (named : Bool) (a : LoadAnswers)
    (inject : Int) : Outcome Kernel :=
  if !named then .returned k
  else
    match processLoadSwitch k a with
    | .returned (res, process, k) =>
        if res < 0 then .returned k
        else if inject < 0 then .returned k
        else .returned { k with sched := taskSwitch k.sched (k.records process).task }
    | .halted => .halted
    | .undefined => .undefined

def isr80hCommand9Exit (k : Kernel) : Outcome Kernel := terminateCurrent k

def idtHandleException (k : Kernel) : Outcome Kernel := terminateCurrent k

def taskRunFirstEverTask (k : Kernel) : Outcome Kernel :=
  if taskCurrent k = 0 then .halted
  else .returned { k with sched := taskSwitch k.sched k.sched.taskHead }

/-- The end of `kernel_main`: load the shell and run it. -/
def kernelMain (k : Kernel) (a : LoadAnswers) : Outcome Kernel :=
  match processLoadSwitch k a with
  | .returned (res, _, k) => if res ≠ 0 then .halted else taskRunFirstEverTask k
  | .halted => .halted
  | .undefined => .undefined

/-! ### The keyboard queue -/

def keyboardGetTailIndex (p : Process) : Int :=
  toWord p.keyboard.tail % liebeOsKeyboardBufferSize

def keyboardPush (k : Kernel) (c : UInt8) : Kernel :=
  let process := processCurrent k
  if process = 0 then k
  else if c = 0 then k
  else
    let p := k.records process
    k.storeProcess process { p with keyboard := { p.keyboard with
      buffer := Function.update p.keyboard.buffer (keyboardGetTailIndex p) c
      tail := toInt (p.keyboard.tail + 1) } }

def keyboardPop (k : Kernel) : UInt8 × Kernel :=
  if taskCurrent k = 0 then (0, k)
  else
    let process := k.sched.process (taskCurrent k)
    let p := k.records process
    let realIndex : Int := toWord p.keyboard.head % liebeOsKeyboardBufferSize
    let c := p.keyboard.buffer realIndex
    if c = 0 then (0, k)
    else
      (c, k.storeProcess process { p with keyboard := { p.keyboard with
        buffer := Function.update p.keyboard.buffer realIndex 0
        head := toInt (p.keyboard.head + 1) } })

end LiebeOS
