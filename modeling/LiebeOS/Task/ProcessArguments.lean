import LiebeOS.Lib.Attempt
import LiebeOS.Kernel.Strings
import LiebeOS.Task.Focus
import LiebeOS.Task.ProcessMemory

/-! Handing a command's arguments to the program that was loaded for it. The
arguments are a list in memory, which the kernel follows under its own directory;
the copies are memory of the new process. -/
namespace LiebeOS

open Attempts MachineInt Bytes

def sizeOfArgument : Nat := 512

/-- `current->next` -/
def commandArgumentNext (mem : Memory) (current : Nat) : Nat :=
  loadWord mem (behind current sizeOfArgument)

/-- The loop of `process_count_commnad_arguments`. There are no more nodes than
addresses, so a walk that takes longer does not end. -/
def processCountLoop (mem : Memory) : Nat → Nat → Nat → Attempt Nat
  | 0, _, _ => .endless
  | fuel + 1, current, count =>
      if current = 0 then .returned count
      else processCountLoop mem fuel (commandArgumentNext mem current) (count + 1)

def processCountCommandArguments (mem : Memory) (rootArgument : Nat) : Attempt Nat :=
  processCountLoop mem 4294967297 rootArgument 0

/-- A process with its memory and the arguments noted for it. -/
structure ArgumentsProcess where
  process : ProcessMemory
  argc : Nat
  argv : Nat

/-- The loop that copies the arguments, at argument `i`. Every round takes a slot of
the process, so the rounds are bounded by the slots. -/
def processInjectLoop (argv : Nat) :
    Nat → Nat → Nat → KernelMemory → ProcessMemory → Attempt (Int × KernelMemory × ProcessMemory)
  | 0, _, _, _, _ => .endless
  | fuel + 1, i, current, k, process =>
      if current = 0 then .returned (0, k, process)
      else
        let (argumentStr, k, process) := processMalloc k process sizeOfArgument
        if argumentStr = 0 then .returned (-enomem, k, process)
        else
          match kernelStrncpy identityTranslation argumentStr current sizeOfArgument ⟨k.mem, []⟩ with
          | none => .undefined
          | some s =>
              let mem := storeWord s.mem (behind argv (4 * i)) argumentStr
              processInjectLoop argv fuel (i + 1) (commandArgumentNext mem current)
                { k with mem := mem } process

def processInjectArguments (k : KernelMemory) (p : ArgumentsProcess) (rootArgument : Nat) :
    Attempt (Int × KernelMemory × ArgumentsProcess) := do
  let argc ← processCountCommandArguments k.mem rootArgument
  if argc = 0 then .returned (-eio, k, p)
  else
    let (argv, k, process) := processMalloc k p.process (toWord (4 * argc))
    if argv = 0 then .returned (-enomem, k, { p with process := process })
    else do
      let (res, k, process) ← processInjectLoop argv (liebeOsMaxProgramAllocations + 1) 0
        rootArgument k process
      .returned (res, k, if res < 0 then { p with process := process } else ⟨process, argc, argv⟩)

/-- What loading a program comes to: the answers that it meets, and what it leaves
of memory. -/
structure LoadedMemory where
  answers : LoadAnswers
  memory : KernelMemory

/-- The kernel and its memory after a system call, with the result of the call and
the process it was about. -/
structure Invoked where
  res : Int
  kernel : Kernel
  memory : KernelMemory
  process : ArgumentsProcess

/-- A process that has just been loaded. -/
def LoadedMemory.process (l : LoadedMemory) : ArgumentsProcess where
  process := ⟨loadWord l.memory.mem l.answers.pageDirectory, fun _ => ⟨0, 0⟩⟩
  argc := 0
  argv := 0

/-- From the load on, what `isr80h_command7_invoke_system_command` does with the
list at `rootArgument`. -/
def isr80hCommand7InvokeSystemCommandArguments (k : Kernel) (rootArgument : Nat)
    (l : LoadedMemory) : Attempt Invoked :=
  match processLoadSwitch k l.answers with
  | .returned (res, process, k) =>
      if res < 0 then .returned ⟨res, k, l.memory, l.process⟩
      else do
        let (res, memory, p) ← processInjectArguments l.memory l.process rootArgument
        if res < 0 then .returned ⟨res, k, memory, p⟩
        else .returned ⟨0, { k with sched := taskSwitch k.sched (k.records process).task }, memory, p⟩
  | .halted => .endless
  | .undefined => .undefined

/-- Nothing of the new process is left: it is neither in the table nor in the run
queue, the kernel is with the process and the task it was with, and all blocks have
been given back. -/
structure InvocationUndone (k : Kernel) (memory : KernelMemory) (x : Invoked) : Prop where
  processes : x.kernel.processes = k.processes
  queue : x.kernel.sched.taskHead = k.sched.taskHead ∧ x.kernel.sched.taskTail = k.sched.taskTail
  currentProcess : x.kernel.currentProcess = k.currentProcess
  currentTask : x.kernel.sched.currentTask = k.sched.currentTask
  entries : x.memory.heap.table.entries = memory.heap.table.entries

/-- A load that has not failed has filled a slot that was free. -/
theorem processLoadSwitch_loaded {k k' : Kernel} {a : LoadAnswers} {res : Int} {process : Nat}
    (h : processLoadSwitch k a = .returned (res, process, k')) (hRes : ¬ res < 0) :
    ∃ slot, k.processes slot = 0 ∧ k'.processes slot ≠ 0 := by
  unfold processLoadSwitch at h
  split at h
  · rename_i hLoad
    obtain ⟨rfl, hRest⟩ := Prod.mk.inj (Outcome.returned.inj h)
    obtain ⟨rfl, rfl⟩ := Prod.mk.inj hRest
    unfold processLoad at hLoad
    split at hLoad
    · obtain ⟨rfl, _⟩ := Prod.mk.inj (Outcome.returned.inj hLoad)
      exact absurd (show -eistkn < 0 by decide) hRes
    · rename_i slot hSlot
      refine ⟨slot, (processGetFreeSlot_some hSlot).2, ?_⟩
      rw [processLoadForSlot] at hLoad
      split_ifs at hLoad with hProcess hData hStack hMap
      · exact absurd (Prod.mk.inj (Outcome.returned.inj hLoad)).1 (by omega)
      · obtain ⟨rfl, _⟩ := Prod.mk.inj (Outcome.returned.inj hLoad)
        exact absurd (show -enomem < 0 by decide) hRes
      · dsimp only at hLoad
        split at hLoad
        · cases hLoad
        · exact absurd (Prod.mk.inj (Outcome.returned.inj hLoad)).1 (by omega)
      · dsimp only at hLoad
        split at hLoad
        · cases hLoad
        · obtain ⟨_, hDone⟩ := Prod.mk.inj (Outcome.returned.inj hLoad)
          obtain ⟨_, rfl⟩ := Prod.mk.inj hDone
          have hFilled : Function.update k.processes slot a.process slot ≠ 0 := by
            rwa [Function.update_self]
          split
          · exact hFilled
          · exact hFilled
  · cases h
  · cases h

/-- When the arguments cannot be handed over, nothing is undone: the kernel stays as
the load has left it, with the process in the slot that was free before. -/
theorem isr80hCommand7_not_undone {k loaded : Kernel} {l : LoadedMemory} {rootArgument process : Nat}
    {res : Int} {x : Invoked}
    (hLoad : processLoadSwitch k l.answers = .returned (res, process, loaded)) (hLoaded : ¬ res < 0)
    (hReturned : isr80hCommand7InvokeSystemCommandArguments k rootArgument l = .returned x)
    (hFailed : x.res < 0) (memory : KernelMemory) :
    x.kernel = loaded ∧ ¬ InvocationUndone k memory x := by
  obtain ⟨slot, hFree, hFilled⟩ := processLoadSwitch_loaded hLoad hLoaded
  rw [isr80hCommand7InvokeSystemCommandArguments, hLoad] at hReturned
  dsimp only at hReturned
  rw [if_neg hLoaded] at hReturned
  obtain ⟨⟨injected, memory', p⟩, _, hEnd⟩ := Attempt.bind_returned_iff.mp hReturned
  dsimp only at hEnd
  have hKernel : x.kernel = loaded := by
    split at hEnd
    · cases hEnd
      rfl
    · cases hEnd
      exact absurd (show (0 : Int) < 0 from hFailed) (by decide)
  refine ⟨hKernel, fun hUndone => ?_⟩
  rw [← hKernel, hUndone.processes] at hFilled
  exact hFilled hFree

theorem processMalloc_none {k : KernelMemory} {size : Nat} (process : ProcessMemory)
    (h : heapMalloc k.heap size = (0, k.heap)) : processMalloc k process size = (0, k, process) := by
  simp only [processMalloc, kzalloc, kmalloc, h]
  rfl

/-- Without memory for the pointers nothing is copied. -/
theorem processInjectArguments_refused {k : KernelMemory} {p : ArgumentsProcess}
    {rootArgument argc : Nat}
    (hCount : processCountCommandArguments k.mem rootArgument = .returned argc) (hSome : argc ≠ 0)
    (hRefused : processMalloc k p.process (toWord (4 * argc)) = (0, k, p.process)) :
    processInjectArguments k p rootArgument = .returned (-enomem, k, p) := by
  rw [processInjectArguments, hCount]
  change (if argc = 0 then _ else _) = _
  rw [if_neg hSome, hRefused]
  rfl

/-- A command that has been loaded and whose arguments are refused. -/
theorem isr80hCommand7_refused {k loaded : Kernel} {l : LoadedMemory} {rootArgument process : Nat}
    {res : Int} {memory : KernelMemory} {p : ArgumentsProcess}
    (hLoad : processLoadSwitch k l.answers = .returned (0, process, loaded))
    (hInject : processInjectArguments l.memory l.process rootArgument = .returned (res, memory, p))
    (hRes : res < 0) :
    isr80hCommand7InvokeSystemCommandArguments k rootArgument l =
      .returned ⟨res, loaded, memory, p⟩ := by
  rw [isr80hCommand7InvokeSystemCommandArguments, hLoad]
  dsimp only
  rw [if_neg (Int.lt_irrefl 0), hInject]
  exact if_pos hRes

/-! ### A command without memory for its arguments -/

/-- One program is running, with its process in the first slot. -/
def shellRunning : Kernel where
  sched := ⟨fun _ => taskInit 0x01003000 0x01000000 0x400000, 0x01404000, 0x01404000, 0x01404000, []⟩
  processes i := if i = 0 then 0x01000000 else 0
  records _ := ⟨0, 0x01404000, ⟨fun _ => 0, 0, 0⟩⟩
  currentProcess := 0x01000000

/-- The new program has taken the last blocks. At 5 MB there is an argument list of
one node, with the text `a`. -/
def lastBlocks : LoadedMemory where
  answers := ⟨0x01500000, 0, 0x01503000, 0x01507000, 0x01508000, 0x400000, 0⟩
  memory := ⟨⟨⟨fun _ => onePageEntry, 25600, []⟩, 0x01000000⟩,
    fun x => if x = 0x500000 then 0x61 else 0⟩

theorem processCountLoop_null (mem : Memory) (fuel count : Nat) :
    processCountLoop mem (fuel + 1) 0 count = .returned count := rfl

theorem processCountLoop_node (mem : Memory) (fuel count : Nat) {current : Nat} (h : current ≠ 0) :
    processCountLoop mem (fuel + 1) current count =
      processCountLoop mem fuel (commandArgumentNext mem current) (count + 1) := if_neg h

theorem lastBlocks_refused :
    processInjectArguments lastBlocks.memory lastBlocks.process 0x500000 =
      .returned (-enomem, lastBlocks.memory, lastBlocks.process) := by
  have hNext : commandArgumentNext lastBlocks.memory.mem 0x500000 = 0 := by decide
  have hCount : processCountCommandArguments lastBlocks.memory.mem 0x500000 = .returned 1 := by
    rw [processCountCommandArguments, processCountLoop_node _ 4294967296 0 (by decide), hNext]
    exact processCountLoop_null _ 4294967295 1
  have hFull : ¬ HasFree lastBlocks.memory.heap := fun ⟨_, _, hFree⟩ =>
    absurd (show entryTaken onePageEntry = false from hFree) (by decide)
  have hRefused : processMalloc lastBlocks.memory lastBlocks.process.process (toWord (4 * (1 : Nat))) =
      (0, lastBlocks.memory, lastBlocks.process.process) := by
    rcases heapMalloc_one lastBlocks.memory.heap (show 1 ≤ toWord (4 * (1 : Nat)) by decide) (by decide) with
      ⟨_, hNone⟩ | ⟨b, hb, hFree, _⟩
    · exact processMalloc_none _ hNone
    · exact absurd ⟨b, hb, hFree⟩ hFull
  exact processInjectArguments_refused hCount Nat.one_ne_zero hRefused

/-- The call returns with the error, and the kernel that the load has left. -/
theorem lastBlocks_returned :
    ∃ loaded, processLoadSwitch shellRunning lastBlocks.answers = .returned (0, 0x01500000, loaded) ∧
      isr80hCommand7InvokeSystemCommandArguments shellRunning 0x500000 lastBlocks =
        .returned ⟨-enomem, loaded, lastBlocks.memory, lastBlocks.process⟩ := by
  obtain ⟨loaded, hLoad⟩ : ∃ loaded, processLoadSwitch shellRunning lastBlocks.answers =
      .returned (0, 0x01500000, loaded) := ⟨_, rfl⟩
  exact ⟨loaded, hLoad, isr80hCommand7_refused hLoad lastBlocks_refused (show -enomem < 0 by decide)⟩

/-- The second program cannot be given its argument. It stays all the same. -/
theorem isr80hCommand7_not_undone_lastBlocks :
    ∃ x, isr80hCommand7InvokeSystemCommandArguments shellRunning 0x500000 lastBlocks = .returned x ∧
      x.res = -enomem ∧ ¬ InvocationUndone shellRunning lastBlocks.memory x := by
  obtain ⟨loaded, hLoad, hReturned⟩ := lastBlocks_returned
  exact ⟨_, hReturned, rfl, (isr80hCommand7_not_undone hLoad (Int.lt_irrefl 0) hReturned
    (show -enomem < 0 by decide) lastBlocks.memory).2⟩

/-- Failing commands are not always undone: the second slot is taken. -/
theorem isr80hCommand7_failed_stays :
    ¬ ∀ (k loaded : Kernel) (l : LoadedMemory) (memory : KernelMemory) (rootArgument process : Nat)
      (x : Invoked), processLoadSwitch k l.answers = .returned (0, process, loaded) →
      isr80hCommand7InvokeSystemCommandArguments k rootArgument l = .returned x → x.res < 0 →
      InvocationUndone k memory x := by
  intro hClaim
  obtain ⟨loaded, hLoad, hReturned⟩ := lastBlocks_returned
  have hUndone := hClaim _ loaded _ lastBlocks.memory _ _ _ hLoad hReturned
    (show -enomem < 0 by decide)
  obtain ⟨slot, hFree, hFilled⟩ := processLoadSwitch_loaded hLoad (Int.lt_irrefl 0)
  rw [show loaded.processes = shellRunning.processes from hUndone.processes] at hFilled
  exact hFilled hFree

end LiebeOS
