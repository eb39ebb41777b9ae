import LiebeOS.Loader.ElfBounds
import LiebeOS.Task.LoadKeeps
import LiebeOS.Task.ProgramStart
import LiebeOS.Task.RunQueue

/-! What a failed `process_load` leaves behind. None of its exits gives back the
process record, so that every failure behind the request for it shows in the table
of the heap. -/
namespace LiebeOS

open Attempts MachineInt Bytes

/-- None of the tables of the kernel has changed. `live` are the tasks of the queue. -/
structure NothingChanged (live : List Nat) (s s' : System) : Prop where
  processes : s'.kernel.processes = s.kernel.processes
  queue : QueueShape s'.kernel.sched live
  current : s'.kernel.sched.currentTask = s.kernel.sched.currentTask
  descriptors : s'.storage.files.table.fileDescriptors = s.storage.files.table.fileDescriptors
  heap : s'.storage.files.heap.table.entries = s.storage.files.heap.table.entries

/-- The page directory of a process. -/
def LoadedProcess.directory (p : LoadedProcess) : Nat := p.arguments.process.directory

/-- One process stands in the slot, and behind the last task of the queue. Its task
starts the program that was loaded, and finds its stack. -/
structure ProcessReady (live : List Nat) (s s' : System) (slot process task : Nat) : Prop where
  notNull : process ≠ 0
  slots : s'.kernel.processes = Function.update s.kernel.processes slot process
  record : s'.kernel.records process = { processInit with id := slot, task := task }
  queue : QueueShape s'.kernel.sched (live ++ [task])
  owner : (s'.kernel.sched.tasks task).process = process
  registers : (s'.kernel.sched.tasks task).registers = (taskInit 0 0
    (entryPoint s'.storage.mem (s'.loaded process).program.data)).registers
  directory : getPageDirectoryEntry s'.storage.mem (s'.kernel.sched.tasks task).pageDirectory =
    (s'.loaded process).directory
  tables : ∃ table, PageTables s'.storage.mem (s'.loaded process).directory table
  stack : ∀ w < 4294967296, w % 4096 = 0 → InUserStack w →
    pagingGet s'.storage.mem (s'.loaded process).directory w =
      ((s'.loaded process).program.stack + (w - liebeOsProgramVirtualStackAddressEnd)) |||
        userFlags true

/-- `process_load` returns. Either all that it was to set up is there, or nothing has
changed. -/
def LoadAtomic (d : DiskFiles) (live : List Nat) (s : System) (filename : List UInt8) : Prop :=
  ∃ res process s', systemProcessLoad d s filename = .returned (res, process, s') ∧
    ((res = 0 ∧ ∃ slot task, processGetFreeSlot s.kernel = some slot ∧
        ProcessReady live s s' slot process task) ∨
      (res < 0 ∧ NothingChanged live s s'))

/-! ### What failure leaves behind -/

section Failure

variable {d : DiskFiles} {m m' : Storage} {filename : List UInt8} {size ptr : Nat}

/-- Behind the request for its record, a load leaves blocks in use alone. -/
theorem processLoadAnswers_untouched :
    (processLoadAnswers d m filename).Ensures fun res =>
      ∃ process m₁, m.kzalloc sizeOfProcess = .returned (process, m₁) ∧ process ≠ 0 ∧
        ∀ {r n mem}, Untouched r n mem m₁ → Untouched r n mem res.2.2 := by
  intro res hCall
  obtain ⟨⟨process, m₁⟩, hProcess, hRest⟩ := Attempt.bind_returned_iff.mp hCall
  obtain ⟨hSome, hRest⟩ := Attempt.guard_returned_iff.mp hRest
  refine ⟨process, m₁, hProcess, hSome, fun {r n mem} h => ?_⟩
  refine Attempt.ensures_bind (R := fun res => Untouched r n mem res.2.2)
    (processLoadData_untouched h) (fun loaded hLoaded => ?_) res hRest
  obtain ⟨result, m₂⟩ := loaded
  cases result with
  | error _ => exact Attempt.ensures_returned hLoaded
  | ok program =>
      refine Attempt.ensures_bind (Storage.kzalloc_untouched hLoaded _) fun stacked hStack => ?_
      obtain ⟨stack, m₃⟩ := stacked
      dsimp only
      split_ifs
      · exact Attempt.ensures_returned hStack.1
      · exact processLoadTask_untouched hStack.1 process _

/-- The records of a load are not in blocks that are in use. -/
theorem processLoadAnswers_beside {r : Int} {n : Nat} (h : Keeps r n m.files.heap) :
    (processLoadAnswers d m filename).Ensures fun res =>
      Beside r n res.1.process ∧ Beside r n res.1.task := by
  have hNone : Beside r n 0 := Beside.null h.block.inside.1 n
  refine Attempt.ensures_bind (m.kzalloc_keeps h sizeOfProcess) fun first hFirst => ?_
  obtain ⟨process, m₁⟩ := first
  obtain ⟨hKeeps, hProcess, _⟩ := hFirst
  dsimp only at hKeeps hProcess ⊢
  split_ifs
  · exact Attempt.ensures_undefined
  refine Attempt.ensures_bind (processLoadData_untouched hKeeps.untouched) fun loaded hLoaded => ?_
  obtain ⟨result, m₂⟩ := loaded
  cases result with
  | error _ => exact Attempt.ensures_returned ⟨hProcess, hNone⟩
  | ok program =>
      refine Attempt.ensures_bind (m₂.kzalloc_keeps hLoaded.toKeeps _) fun stacked hStack => ?_
      obtain ⟨stack, m₃⟩ := stacked
      dsimp only
      split_ifs
      · exact Attempt.ensures_returned ⟨hProcess, hNone⟩
      · intro res hCall
        obtain ⟨⟨task, m₄⟩, hRequest, hRest⟩ := Attempt.bind_returned_iff.mp hCall
        obtain ⟨_, hTask, _⟩ := m₃.kzalloc_keeps hStack.1 _ _ hRequest
        obtain ⟨_, hRest⟩ := Attempt.guard_returned_iff.mp hRest
        obtain ⟨_, hRest⟩ := Attempt.guard_returned_iff.mp hRest
        obtain rfl := Attempt.returned.inj hRest
        exact ⟨hProcess, hTask⟩

theorem processLoadAnswers_inOrder (hHeap : HeapInOrder m.files.heap) :
    (processLoadAnswers d m filename).Ensures fun res => HeapInOrder res.2.2.files.heap := by
  refine Attempt.ensures_bind (m.kzalloc_inOrder hHeap sizeOfProcess) fun first hFirst => ?_
  obtain ⟨process, m₁⟩ := first
  dsimp only at hFirst ⊢
  split_ifs
  · exact Attempt.ensures_undefined
  refine Attempt.ensures_bind (processLoadData_inOrder hFirst) fun loaded hLoaded => ?_
  obtain ⟨result, m₂⟩ := loaded
  cases result with
  | error _ => exact Attempt.ensures_returned hLoaded
  | ok program =>
      refine Attempt.ensures_bind (m₂.kzalloc_inOrder hLoaded _) fun stacked hStack => ?_
      obtain ⟨stack, m₃⟩ := stacked
      dsimp only
      split_ifs
      · exact Attempt.ensures_returned hStack
      · exact processLoadTask_inOrder hStack process _

/-- The process record takes blocks that were free, and they stay in use whatever
becomes of the load. -/
theorem processLoadAnswers_leaks (hHeap : HeapInOrder m.files.heap) :
    (processLoadAnswers d m filename).Ensures fun res =>
      ∃ r, entryTaken (m.files.heap.table.entries r) = false ∧
        Keeps r (blocksOf sizeOfProcess) res.2.2.files.heap := by
  intro res hCall
  obtain ⟨process, m₁, hProcess, hSome, hUntouched⟩ := processLoadAnswers_untouched res hCall
  have hGranted := Storage.kzalloc_granted hHeap (by decide) hProcess hSome
  have hPositive := blocksOf_pos sizeOfProcess
  exact ⟨blockOf process, hGranted.free _ (Int.le_refl _) (by omega),
    (hUntouched (Keeps.untouched (m := m₁) hGranted.keeps)).toKeeps⟩

/-- Every way out of `process_load_for_slot` but the last is an error. -/
theorem processLoadForSlot_fails {k k' : Kernel} {a : LoadAnswers} {slot process : Nat} {res : Int}
    (hCall : processLoadForSlot k a slot = .returned (res, process, k'))
    (hFail : a.stack = 0 ∨ a.map < 0) : res < 0 := by
  rw [processLoadForSlot] at hCall
  dsimp only at hCall
  split_ifs at hCall with hProcess hData hStack hMap
  · obtain ⟨rfl, _⟩ := Prod.mk.inj (Outcome.returned.inj hCall)
    exact hData
  · obtain ⟨rfl, _⟩ := Prod.mk.inj (Outcome.returned.inj hCall)
    decide
  · split at hCall
    · cases hCall
    · obtain ⟨rfl, _⟩ := Prod.mk.inj (Outcome.returned.inj hCall)
      exact hMap
  · exact absurd hFail (not_or.mpr ⟨hStack, hMap⟩)

/-- Records other than the new ones are as before, up to the links of a task. -/
theorem processLoadForSlot_others {k k' : Kernel} {a : LoadAnswers} {slot process : Nat} {res : Int}
    (hCall : processLoadForSlot k a slot = .returned (res, process, k')) :
    (∀ p, p ≠ a.process → k'.records p = k.records p) ∧
      (∀ t, t ≠ a.task → (k'.sched.tasks t).pageDirectory = (k.sched.tasks t).pageDirectory) ∧
      (res < 0 → k'.processes = k.processes) := by
  rw [processLoadForSlot] at hCall
  dsimp only at hCall
  have hOnce : ∀ record p, p ≠ a.process → (k.storeProcess a.process record).records p = k.records p :=
    fun _ _ hp => Function.update_of_ne hp _ _
  have hThrice : ∀ first second third p, p ≠ a.process →
      (((k.storeProcess a.process first).storeProcess a.process second).storeProcess a.process
        third).records p = k.records p := fun _ _ _ _ hp => by
    refine (Function.update_of_ne hp _ _).trans ?_
    exact (Function.update_of_ne hp _ _).trans (Function.update_of_ne hp _ _)
  split_ifs at hCall with hProcess hData hStack hMap
  · obtain ⟨_, hPair⟩ := Prod.mk.inj (Outcome.returned.inj hCall)
    obtain ⟨_, rfl⟩ := Prod.mk.inj hPair
    exact ⟨hOnce _, fun _ _ => rfl, fun _ => rfl⟩
  · obtain ⟨_, hPair⟩ := Prod.mk.inj (Outcome.returned.inj hCall)
    obtain ⟨_, rfl⟩ := Prod.mk.inj hPair
    exact ⟨hOnce _, fun _ _ => rfl, fun _ => rfl⟩
  · split at hCall
    · cases hCall
    · rename_i sched hNew
      obtain ⟨_, hPair⟩ := Prod.mk.inj (Outcome.returned.inj hCall)
      obtain ⟨_, rfl⟩ := Prod.mk.inj hPair
      refine ⟨hThrice _ _ _, fun t ht => ?_, fun _ => rfl⟩
      refine (taskFree_others Task.pageDirectory (fun _ _ => rfl) _ a.task t).trans ?_
      exact taskNew_others Task.pageDirectory (fun _ _ => rfl) (fun _ _ => rfl) hNew ht
  · split at hCall
    · cases hCall
    · rename_i sched hNew
      obtain ⟨rfl, hPair⟩ := Prod.mk.inj (Outcome.returned.inj hCall)
      obtain ⟨_, rfl⟩ := Prod.mk.inj hPair
      exact ⟨hThrice _ _ _, fun t ht => taskNew_others Task.pageDirectory (fun _ _ => rfl)
        (fun _ _ => rfl) hNew ht, fun hFail => absurd hFail hMap⟩

/-- What a load that returns has met, and what it leaves behind. -/
theorem systemProcessLoad_returned {s s' : System} {slot process : Nat} {res : Int}
    (hSlot : processGetFreeSlot s.kernel = some slot)
    (hCall : systemProcessLoad d s filename = .returned (res, process, s')) :
    ∃ a program m k, processLoadAnswers d s.storage filename = .returned (a, program, m) ∧
      processLoadForSlot s.kernel a slot = .returned (res, process, k) ∧
      s' = ⟨m, k, Function.update s.loaded a.process
        (newProcess program (getPageDirectoryEntry m.mem a.pageDirectory))⟩ := by
  rw [systemProcessLoad, hSlot] at hCall
  obtain ⟨⟨a, program, m⟩, hAnswers, hRest⟩ := Attempt.bind_returned_iff.mp hCall
  dsimp only at hRest
  cases hLoad : processLoadForSlot s.kernel a slot with
  | halted =>
      rw [hLoad] at hRest
      cases hRest
  | undefined =>
      rw [hLoad] at hRest
      cases hRest
  | returned result =>
      obtain ⟨res', process', k⟩ := result
      rw [hLoad] at hRest
      obtain ⟨rfl, hPair⟩ := Prod.mk.inj (Attempt.returned.inj hRest)
      obtain ⟨rfl, rfl⟩ := Prod.mk.inj hPair
      exact ⟨a, program, m, k, hAnswers, hLoad, rfl⟩

end Failure

/-! ### A load in which nothing fails -/

section Success

variable {d : DiskFiles} {m m' : Storage} {filename : List UInt8} {program : Program} {size ptr : Nat}

theorem ProgramRead.keeps {r : Int} {n : Nat} (h : ProgramRead d m filename program m')
    (hKeeps : Keeps r n m.files.heap) : Keeps r n m'.files.heap :=
  (processLoadData_untouched hKeeps.untouched _ (processLoadData_ok_iff.mpr h)).toKeeps

theorem ProgramStart.keeps {r : Int} {n : Nat} (s : ProgramStart d m filename)
    (h : Keeps r n s.afterProcess.files.heap) :
    Keeps r n s.afterProgram.files.heap ∧ Keeps r n s.afterTask.files.heap ∧ Beside r n s.task := by
  have hProgram := s.programRead.keeps h
  have hStack := (s.afterProgram.kzalloc_keeps hProgram _ _ s.stackGranted.1).1
  have hTask := s.afterStack.kzalloc_keeps hStack sizeOfTask _ s.taskGranted.1
  exact ⟨hProgram, hTask.1, hTask.2.1⟩

/-- The image of an ELF file is in use once the file has been read. -/
theorem ProgramRead.image {elfFile : Nat} {file : ElfFile} (h : ProgramRead d m filename program m')
    (hHeap : HeapInOrder m.files.heap) (hData : program.data = .elf elfFile file) :
    file.elfMemory % 4096 = 0 ∧ file.elfMemory + 28 < 4294967296 ∧
      Held m'.files.heap file.elfMemory := by
  cases h with
  | flat => cases hData
  | @elf _ elfMemory fd res entry a m₁ m₂ m₃ mem image hRecord _ hOpen _ hStat hBuffer hFull hRead hLoad
      hAccepted =>
      obtain ⟨_, rfl⟩ := ProgramData.elf.inj hData
      have hWhole : ¬ a.Unread := fun hUnread => by
        have hError := (@elfLoad_unread m₃.mem elfMemory a hUnread).1
        rw [hLoad] at hError
        omega
      have hMemory := (@elfLoad_value m₃.mem elfMemory a hWhole).2
      rw [hLoad] at hMemory
      obtain rfl : image.elfMemory = elfMemory := hMemory
      have hSize := readAnswers_size a hRead
      have hSome : 1 ≤ entry.filesize := by
        unfold FileAnswers.Unread at hWhole
        omega
      have hGranted := Storage.buffer_keeps (m.kzalloc_inOrder hHeap _ _ hRecord) hOpen hStat hBuffer
        (by omega) hSome mem
      have hAddress := hGranted.1.address
      have hInside := hGranted.2.block.inside
      have hTotal := hGranted.2.kernel.total_eq
      have hPositive := blocksOf_pos entry.filesize
      refine ⟨by omega, by omega, blockOf image.elfMemory, ⟨hInside.1, by omega⟩, ?_, ?_⟩
      · have hBlock := hGranted.2.kernel.address (b := blockOf image.elfMemory) ⟨hInside.1, by omega⟩
        omega
      · exact hGranted.2.block.protected.taken

/-- The directory of the task is complete, and it maps the stack over the program. -/
theorem ProgramStart.maps (s : ProgramStart d m filename) (hHeap : HeapInOrder m.files.heap) :
    s.stack % 4096 = 0 ∧ s.stack + 16384 ≤ liebeOsHeapEnd ∧
      ∃ table, DirectoryRecord s.afterTask.memory (taskDirectory s.afterTask).2
        (taskDirectory s.afterTask).1 s.directory (pagingIsPresent ||| pagingAccessFromAll) table ∧
      s.mapping.1 = 0 ∧ TablesOnly table (taskDirectory s.afterTask).2.mem s.mapping.2 ∧
      Maps s.mapping.2 s.directory table (mapStack s.stack
        (pagingGet (mapData (taskDirectory s.afterTask).2.mem s.directory s.loaded).2
          s.directory)) := by
  have hProcess := (Storage.kzalloc_granted hHeap (by decide) s.processGranted.1
    s.processGranted.2).keeps
  obtain ⟨hProgram, hTask, _⟩ := s.keeps hProcess
  obtain ⟨directory, table, hRecord⟩ := taskDirectory_built hTask.kernel s.directoryGranted
  have hDirectory : s.directory = directory := hRecord.points
  rw [← hDirectory] at hRecord
  have hTables := (hRecord.built.maps (by decide)).toPageTables
  obtain ⟨hAligned, hInside⟩ := Storage.kzalloc_page hProgram.kernel s.stackGranted.1
    s.stackGranted.2
  have hEnd : s.stack + 16384 ≤ 0x07400000 := hInside
  obtain ⟨hRes, hOnly⟩ := processMapMemory_tables hTables s.loaded
  have hMaps := (processMapMemory_maps (p := s.loaded) hTables hAligned
    (show s.stack < 4294967296 by omega) s.mapped).2
  exact ⟨hAligned, hInside, table, hRecord, Int.le_antisymm hRes s.mapped, hOnly, hMaps⟩

theorem taskNew_some {task chunk : Nat} (sched : Scheduler) (process ip : Nat) (hTask : task ≠ 0)
    (hChunk : chunk ≠ 0) : ∃ sched', taskNew sched task chunk process ip = some sched' := by
  rw [taskNew, if_neg (not_or.mpr ⟨hTask, hChunk⟩)]
  dsimp only
  split_ifs
  · exact ⟨_, rfl⟩
  · exact ⟨_, rfl⟩

/-- The last way out of `process_load_for_slot`. -/
theorem processLoadForSlot_succeeds {k : Kernel} {a : LoadAnswers} {sched : Scheduler}
    (slot : Nat) (hProcess : a.process ≠ 0) (hData : 0 ≤ a.data) (hStack : a.stack ≠ 0)
    (hNew : taskNew k.sched a.task a.pageDirectory a.process a.ip = some sched) (hMap : a.map = 0) :
    ∃ k', processLoadForSlot k a slot = .returned (0, a.process, k') ∧ k'.sched = sched ∧
      k'.processes = Function.update k.processes slot a.process ∧
      k'.records a.process = { processInit with id := slot, task := a.task } := by
  have hNew' : taskNew ((k.storeProcess a.process processInit).storeProcess a.process
      { processInit with id := slot }).sched a.task a.pageDirectory a.process a.ip = some sched := hNew
  rw [processLoadForSlot, if_neg hProcess]
  dsimp only at hNew' ⊢
  rw [if_neg (Int.not_lt.mpr hData), if_neg hStack, hNew', hMap]
  exact ⟨_, rfl, rfl, rfl, Function.update_self ..⟩

theorem ProgramStart.entryPoint_kept (s : ProgramStart d m filename) (hHeap : HeapInOrder m.files.heap) :
    entryPoint s.mapping.2 s.program.data =
      entryPoint (taskDirectory s.afterTask).2.mem s.program.data := by
  have hProcess := Storage.kzalloc_inOrder hHeap _ _ s.processGranted.1
  obtain ⟨_, _, table, hRecord, _, hOnly, _⟩ := s.maps hHeap
  cases hData : s.program.data with
  | binary ptr => rfl
  | elf elfFile file =>
      obtain ⟨hAligned, hHigh, hHeld⟩ := s.programRead.image hProcess hData
      refine loadWord_congr fun i hi => ?_
      rw [behind_of_lt (by omega)]
      refine hOnly _ (by omega) fun ⟨t, ht, hPage⟩ => ?_
      obtain ⟨_, hFresh, _⟩ := hRecord.built.tables t ht
      rw [show table t = file.elfMemory by omega] at hFresh
      have hStack := Storage.kzalloc_survives (P := fun heap => Held heap file.elfMemory)
        (hHeld.malloc _) _ s.stackGranted.1
      exact hFresh (Storage.kzalloc_survives (P := fun heap => Held heap file.elfMemory)
        (hStack.malloc _) _ s.taskGranted.1)

/-- The process is ready when nothing has failed. -/
theorem ProgramStart.ready {live : List Nat} {s : System} (p : ProgramStart d s.storage filename)
    (hHeap : HeapInOrder s.storage.files.heap) (hQueue : QueueShape s.kernel.sched live)
    (hLive : ∀ task ∈ live, Allotted s.storage.files.heap (blockOf task) 1) {slot : Nat}
    (hSlot : processGetFreeSlot s.kernel = some slot) :
    ∃ s', systemProcessLoad d s filename = .returned (0, p.process, s') ∧
      ProcessReady live s s' slot p.process p.task := by
  obtain ⟨hAligned, hInside, table, hRecord, hDone, hOnly, hMaps⟩ := p.maps hHeap
  have hEnd : p.stack + 16384 ≤ 0x07400000 := hInside
  have hFresh : p.task ∉ live := fun hMem => by
    have hKeeps : Keeps (blockOf p.task) 1 s.storage.files.heap := ⟨hHeap.kernel, hLive _ hMem⟩
    have hBeside := (p.keeps (s.storage.kzalloc_keeps hKeeps _ _ p.processGranted.1).1).2.2
    unfold Beside at hBeside
    omega
  obtain ⟨sched, hNew⟩ := taskNew_some s.kernel.sched p.process
    (entryPoint (taskDirectory p.afterTask).2.mem p.program.data) p.taskGranted.2 p.directoryGranted
  obtain ⟨k', hCall, rfl, hProcesses, hEntry⟩ := processLoadForSlot_succeeds (k := s.kernel)
    (a := p.answers) slot p.processGranted.2 (Int.le_refl 0) p.stackGranted.2 hNew hDone
  have hPoints : getPageDirectoryEntry p.mapping.2 (taskDirectory p.afterTask).1 = p.directory :=
    hRecord.points_kept hOnly
  have hSystem : systemProcessLoad d s filename = .returned (0, p.process, ⟨p.finish, k',
      Function.update s.loaded p.process (newProcess p.loaded p.directory)⟩) := by
    rw [systemProcessLoad, hSlot]
    dsimp only
    rw [Attempt.bind_returned_iff]
    refine ⟨_, p.processLoadAnswers, ?_⟩
    dsimp only
    rw [hCall, ← hPoints]
    rfl
  obtain ⟨hShape, _, _⟩ := hQueue.taskNew hFresh hNew
  refine ⟨_, hSystem, ?_⟩
  have hLoaded : Function.update s.loaded p.process (newProcess p.loaded p.directory) p.process =
      newProcess p.loaded p.directory := Function.update_self ..
  refine ⟨p.processGranted.2, hProcesses, hEntry, hShape, ?_, ?_, ?_, ?_, ?_⟩
  · exact taskNew_field Task.process (fun _ _ => rfl) (fun _ _ => rfl) hNew
  · have hRegisters := taskNew_field Task.registers (fun _ _ => rfl) (fun _ _ => rfl) hNew
    refine hRegisters.trans ?_
    dsimp only
    rw [hLoaded]
    exact congrArg (fun ip => (taskInit 0 0 ip).registers) (p.entryPoint_kept hHeap).symm
  · have hDirectory := taskNew_field Task.pageDirectory (fun _ _ => rfl) (fun _ _ => rfl) hNew
    dsimp only
    rw [hLoaded, hDirectory]
    exact hPoints
  · dsimp only
    rw [hLoaded]
    exact ⟨table, hMaps.toPageTables⟩
  · intro w hw hPage hIn
    dsimp only
    rw [hLoaded]
    exact (hMaps.entries w hw hPage).trans (mapStack_in hAligned (by omega) hw hPage hIn)

/-- What the system has of a program that was started in `slot`. -/
structure ProgramStart.Started {s : System} (p : ProgramStart d s.storage filename) (s' : System)
    (slot : Nat) : Prop where
  storage : s'.storage = p.finish
  processes : s'.kernel.processes = Function.update s.kernel.processes slot p.process
  record : s'.kernel.records p.process = { processInit with id := slot, task := p.task }
  directory : (s'.kernel.sched.tasks p.task).pageDirectory = (taskDirectory p.afterTask).1
  loaded : s'.loaded p.process = newProcess p.loaded p.directory

theorem ProgramStart.started {s s' : System} (p : ProgramStart d s.storage filename)
    (hHeap : HeapInOrder s.storage.files.heap) {slot process : Nat} {res : Int}
    (hSlot : processGetFreeSlot s.kernel = some slot)
    (hCall : systemProcessLoad d s filename = .returned (res, process, s')) :
    res = 0 ∧ process = p.process ∧ p.Started s' slot := by
  obtain ⟨a, program, m, k, hAnswers, hLoad, rfl⟩ := systemProcessLoad_returned hSlot hCall
  obtain ⟨rfl, hRest⟩ := Prod.mk.inj (Attempt.returned.inj (p.processLoadAnswers.symm.trans hAnswers))
  obtain ⟨rfl, rfl⟩ := Prod.mk.inj hRest
  obtain ⟨_, _, table, hRecord, hDone, hOnly, _⟩ := p.maps hHeap
  obtain ⟨sched, hNew⟩ := taskNew_some s.kernel.sched p.process
    (entryPoint (taskDirectory p.afterTask).2.mem p.program.data) p.taskGranted.2 p.directoryGranted
  obtain ⟨k', hReturned, rfl, hProcesses, hEntry⟩ := processLoadForSlot_succeeds (k := s.kernel)
    (a := p.answers) slot p.processGranted.2 (Int.le_refl 0) p.stackGranted.2 hNew hDone
  obtain ⟨rfl, hPair⟩ := Prod.mk.inj (Outcome.returned.inj (hReturned.symm.trans hLoad))
  obtain ⟨rfl, rfl⟩ := Prod.mk.inj hPair
  refine ⟨rfl, rfl, rfl, hProcesses, hEntry,
    taskNew_field Task.pageDirectory (fun _ _ => rfl) (fun _ _ => rfl) hNew, ?_⟩
  refine (Function.update_self ..).trans ?_
  exact congrArg (newProcess p.loaded) (hRecord.points_kept hOnly)

/-- A successful load has started the process that it returns. -/
theorem systemProcessLoad_started {s s' : System} {process : Nat}
    (hHeap : HeapInOrder s.storage.files.heap)
    (hCall : systemProcessLoad d s filename = .returned (0, process, s')) :
    ∃ (p : ProgramStart d s.storage filename) (slot : Nat), process = p.process ∧
      processGetFreeSlot s.kernel = some slot ∧ p.Started s' slot := by
  cases hSlot : processGetFreeSlot s.kernel with
  | none =>
      rw [systemProcessLoad, hSlot] at hCall
      exact absurd (Prod.mk.inj (Attempt.returned.inj hCall)).1 (by decide)
  | some slot =>
      obtain ⟨a, program, m, k, hAnswers, hLoad, rfl⟩ := systemProcessLoad_returned hSlot hCall
      rcases processLoadAnswers_cases hAnswers with hStack | hMap | ⟨⟨p⟩⟩
      · exact absurd (processLoadForSlot_fails hLoad (Or.inl hStack)) (by decide)
      · exact absurd (processLoadForSlot_fails hLoad (Or.inr hMap)) (by decide)
      · obtain ⟨_, hProcess, hStarted⟩ := p.started hHeap hSlot hCall
        exact ⟨p, slot, hProcess, rfl, hStarted⟩

end Success

/-! ### Whether a load is atomic -/

section Atomic

variable {d : DiskFiles} {live : List Nat} {s : System} {filename : List UInt8}

/-- Behind the search for a slot an atomic load is one in which nothing fails. -/
theorem LoadAtomic.start (h : LoadAtomic d live s filename)
    (hHeap : HeapInOrder s.storage.files.heap) {slot : Nat}
    (hSlot : processGetFreeSlot s.kernel = some slot) :
    Nonempty (ProgramStart d s.storage filename) := by
  obtain ⟨res, process, s', hCall, hOutcome⟩ := h
  obtain ⟨a, program, m, k, hAnswers, hLoad, rfl⟩ := systemProcessLoad_returned hSlot hCall
  rcases hOutcome with ⟨hZero, _⟩ | ⟨_, hSame⟩
  · rcases processLoadAnswers_cases hAnswers with hStack | hMap | hStart
    · have hError := processLoadForSlot_fails hLoad (Or.inl hStack)
      omega
    · have hError := processLoadForSlot_fails hLoad (Or.inr hMap)
      omega
    · exact hStart
  · -- the blocks of the process record were free before
    obtain ⟨r, hFree, hKeeps⟩ := processLoadAnswers_leaks hHeap _ hAnswers
    have hTaken := hKeeps.block.protected.taken
    have hEntries := hSame.heap
    dsimp only at hTaken hEntries
    rw [hEntries, hFree] at hTaken
    cases hTaken

end Atomic

/-- The kernel before the first program, with `processes` in its table. -/
def startKernel (processes : Nat → Nat) : Kernel :=
  ⟨⟨fun _ => taskInit 0 0 0, 0, 0, 0, []⟩, processes, fun _ => processInit, 0⟩

def startSystem (processes : Nat → Nat) : System :=
  ⟨⟨freshFiles, fun _ => 0⟩, startKernel processes, fun _ => newProcess noProgram 0⟩

theorem startSystem_queue (processes : Nat → Nat) :
    QueueShape (startSystem processes).kernel.sched [] :=
  ⟨List.not_mem_nil, List.nodup_nil, trivial, trivial, rfl, rfl⟩

end LiebeOS
