import LiebeOS.Task.FlatProgram
import LiebeOS.Task.ProcessLife

/-! What `process_terminate` gives back. It releases what it finds in the record of the
process, and the record itself stays. -/
namespace LiebeOS

open Attempts MachineInt Bytes Transition

/-- All slots are released, also those that are empty. -/
@[irreducible] def processTerminateAllocations (k : KernelMemory) (p : ProcessMemory) : KernelMemory :=
  (List.range liebeOsMaxProgramAllocations).foldl (fun k n => kfree k (p.allocations n).ptr) k

def elfClose (k : KernelMemory) (elfFile : Nat) (file : ElfFile) : KernelMemory :=
  if elfFile = 0 then k else kfree (kfree k file.elfMemory) elfFile

def processFreeProgramData (k : KernelMemory) : ProgramData → KernelMemory
  | .elf elfFile file => elfClose k elfFile file
  | .binary ptr => kfree k ptr

/-- The memory of a task; `chunk` is the record of its directory. -/
def taskFreeMemory (k : KernelMemory) (task chunk : Nat) : KernelMemory :=
  kfree (pagingFree4gb k chunk) task

/-- `process_terminate`, as far as memory goes. -/
def processTerminateMemory (k : KernelMemory) (p : LoadedProcess) (task chunk : Nat) :
    KernelMemory :=
  let k := processTerminateAllocations k p.arguments.process
  let k := processFreeProgramData k p.program.data
  let k := kfree k p.program.stack
  taskFreeMemory k task chunk

/-- The memory behind `process_terminate` of a process that is known to the kernel, called
in memory `k` with the allocations in `arguments`. -/
def systemProcessTerminate (s : System) (process : Nat) (k : KernelMemory)
    (arguments : ArgumentsProcess) : KernelMemory :=
  let task := (s.kernel.records process).task
  processTerminateMemory k { s.loaded process with arguments := arguments } task
    (s.kernel.sched.tasks task).pageDirectory

/-- What the end of a process promises: `start` is the heap in front of its load, and
the process ends between `k` and `k'`. -/
structure TeardownConserves (start : Heap) (k k' : KernelMemory) : Prop where
  inside : ∃ stores, k'.heap.table.written = stores ++ k.heap.table.written ∧
    ∀ j ∈ stores, 0 ≤ j ∧ j < k.heap.table.total
  others : ∀ j, entryTaken (start.table.entries j) = true →
    k'.heap.table.entries j = k.heap.table.entries j
  returned : k'.heap.table.entries = start.table.entries

/-- Blocks that were free are not in use at the end. -/
theorem TeardownConserves.no_leak {start : Heap} {k k' : KernelMemory} {r : Int} {n : Nat}
    (h : TeardownConserves start k k') (hFree : FreeRun start.table.entries r n)
    (hKeeps : Keeps r n k'.heap) : False := by
  have hPositive := hKeeps.block.run.1
  have hTaken := (hKeeps.block.run.2 r (Int.le_refl r) (by omega)).1
  rw [h.returned, hFree r (Int.le_refl r) (by omega)] at hTaken
  cases hTaken

/-! ### What is given back -/

def ProgramData.releases : ProgramData → List Nat
  | .elf elfFile file => if elfFile = 0 then [] else [file.elfMemory, elfFile]
  | .binary ptr => [ptr]

def LoadedProcess.slots (p : LoadedProcess) : List Nat :=
  (List.range liebeOsMaxProgramAllocations).map fun n => (p.arguments.process.allocations n).ptr

/-- What the record of a process leads to, in the order in which it is given back. -/
def LoadedProcess.releases (p : LoadedProcess) (task chunk directory : Nat) (table : Nat → Nat) :
    List Nat :=
  p.slots ++ (p.program.data.releases ++ (p.program.stack ::
    (directoryReleases chunk directory table ++ [task])))

section Releases

variable {r : Int} {n : Nat} {k : KernelMemory}

theorem processFreeProgramData_eq (k : KernelMemory) (data : ProgramData) :
    processFreeProgramData k data = kfreeAll k data.releases := by
  cases data with
  | binary ptr => rfl
  | elf elfFile file =>
      rw [processFreeProgramData, elfClose, ProgramData.releases]
      split_ifs
      · rfl
      · rfl

theorem processTerminateAllocations_eq (k : KernelMemory) (p : LoadedProcess) :
    processTerminateAllocations k p.arguments.process = kfreeAll k p.slots := by
  unfold processTerminateAllocations
  rw [kfreeAll, LoadedProcess.slots, List.foldl_map]

theorem processTerminateMemory_eq {p : LoadedProcess} {task chunk directory : Nat}
    {table : Nat → Nat} (hTables : PageTables k.mem directory table)
    (hPoints : loadWord k.mem chunk = directory) :
    processTerminateMemory k p task chunk =
      kfreeAll k (p.releases task chunk directory table) := by
  rw [processTerminateMemory, LoadedProcess.releases, kfreeAll_append, kfreeAll_append]
  rw [processTerminateAllocations_eq, processFreeProgramData_eq]
  have hMem : (kfreeAll (kfreeAll k p.slots) p.program.data.releases).mem = k.mem := by
    rw [kfreeAll_mem, kfreeAll_mem]
  generalize kfreeAll (kfreeAll k p.slots) p.program.data.releases = k' at hMem ⊢
  have hTables' : PageTables (kfree k' p.program.stack).mem directory table := by
    rw [show (kfree k' p.program.stack).mem = k.mem from hMem]
    exact hTables
  have hPoints' : loadWord (kfree k' p.program.stack).mem chunk = directory := by
    rw [show (kfree k' p.program.stack).mem = k.mem from hMem]
    exact hPoints
  rw [taskFreeMemory, pagingFree4gb_eq hTables' hPoints', kfreeAll_cons, kfreeAll_append]
  generalize kfreeAll (kfree k' p.program.stack) _ = freed
  rfl

/-- The data of the program does not lie in the blocks. -/
def ProgramData.Beside (r : Int) (n : Nat) : ProgramData → Prop
  | .elf elfFile file => LiebeOS.Beside r n elfFile ∧ LiebeOS.Beside r n file.elfMemory
  | .binary ptr => LiebeOS.Beside r n ptr

theorem ProgramData.Beside.releases {data : ProgramData} (h : data.Beside r n) {q : Nat}
    (hq : q ∈ data.releases) : LiebeOS.Beside r n q := by
  cases data with
  | binary ptr =>
      rw [List.mem_singleton.mp hq]
      exact h
  | elf elfFile file =>
      rw [ProgramData.releases] at hq
      split_ifs at hq
      · cases hq
      · rcases List.mem_cons.mp hq with rfl | hRecord
        · exact h.2
        · rw [List.mem_singleton.mp hRecord]
          exact h.1

/-- What is beside all that is given back stays. -/
theorem LoadedProcess.beside {p : LoadedProcess} {task chunk directory : Nat} {table : Nat → Nat}
    (hSlots : ∀ i < liebeOsMaxProgramAllocations, Beside r n (p.arguments.process.allocations i).ptr)
    (hData : p.program.data.Beside r n) (hStack : Beside r n p.program.stack)
    (hDirectory : ∀ q ∈ directoryReleases chunk directory table, Beside r n q)
    (hTask : Beside r n task) : ∀ q ∈ p.releases task chunk directory table, Beside r n q := by
  intro q hq
  rcases List.mem_append.mp hq with hSlot | hRest
  · obtain ⟨i, hi, rfl⟩ := List.mem_map.mp hSlot
    exact hSlots i (List.mem_range.mp hi)
  rcases List.mem_append.mp hRest with hImage | hRest
  · exact hData.releases hImage
  rcases List.mem_cons.mp hRest with rfl | hRest
  · exact hStack
  rcases List.mem_append.mp hRest with hPage | hLast
  · exact hDirectory q hPage
  · rw [List.mem_singleton.mp hLast]
    exact hTask

/-- What is read of the program is requested after the blocks. -/
theorem ProgramRead.beside {d : DiskFiles} {m m' : Storage} {filename : List UInt8}
    {program : Program} (h : ProgramRead d m filename program m') (hKeeps : Keeps r n m.files.heap) :
    program.data.Beside r n := by
  cases h with
  | @elf _ elfMemory fd res entry a m₁ m₂ m₃ mem image hRecord _ hOpen _ hStat hBuffer hFull hRead hLoad
      hAccepted =>
      have hWhole : ¬ a.Unread := fun hUnread => by
        have hError := (@elfLoad_unread m₃.mem elfMemory a hUnread).1
        rw [hLoad] at hError
        omega
      have hMemory := (@elfLoad_value m₃.mem elfMemory a hWhole).2
      rw [hLoad] at hMemory
      obtain rfl : image.elfMemory = elfMemory := hMemory
      have hFirst := m.kzalloc_keeps hKeeps _ _ hRecord
      have hOpened := Storage.fopen_keeps hFirst.1 _ hOpen
      exact ⟨hFirst.2.1, (m₂.kzalloc_keeps hOpened.1 _ _ hBuffer).2.1⟩
  | @flat ptr fd entry a m₁ m₂ m₃ hElf hOpen _ hStat hBuffer =>
      have hRefused := (elfLoadFile_untouched hKeeps.untouched _ hElf).toKeeps
      have hOpened := Storage.fopen_keeps hRefused _ hOpen
      exact (m₂.kzalloc_keeps hOpened.1 _ _ hBuffer).2.1

end Releases

/-! ### The record stays -/

section Never

variable {d : DiskFiles} {s s' : System} {filename : List UInt8} {process : Nat}
  {calls : List ProcessCall} {t : ProcessState}

/-- The record of the process is in use when the process has ended. -/
theorem processTerminate_leaks (hHeap : HeapInOrder s.storage.files.heap)
    (hCall : systemProcessLoad d s filename = .returned (0, process, s'))
    (run : Run ProcessStep ⟨s'.storage.memory, (s'.loaded process).arguments⟩ calls t) :
    FreeRun s.storage.files.heap.table.entries (blockOf process) (blocksOf sizeOfProcess) ∧
      Keeps (blockOf process) (blocksOf sizeOfProcess)
        (systemProcessTerminate s' process t.k t.process).heap := by
  obtain ⟨p, slot, rfl, _, hStarted⟩ := systemProcessLoad_started hHeap hCall
  have hTask := congrArg Process.task hStarted.record
  dsimp only at hTask
  have hGranted := Storage.kzalloc_granted hHeap (by decide) p.processGranted.1 p.processGranted.2
  have hProcess := hGranted.keeps
  refine ⟨hGranted.free, ?_⟩
  obtain ⟨hProgram, hAfter, hBesideTask⟩ := p.keeps hProcess
  have hBesideData := p.programRead.beside hProcess
  have hBesideStack := (p.afterProgram.kzalloc_keeps hProgram _ _ p.stackGranted.1).2.1
  obtain ⟨table, hMapped⟩ := p.mappedTask hHeap
  have hRecord := hMapped.record
  let entry : Nat → Nat → Prop := fun _ _ => True
  have hStart : (p.life entry).Inv _ _ := hMapped.alive hHeap fun _ _ _ => trivial
  have hSound : (p.life entry).Sound := hMapped.sound hHeap fun _ _ _ _ _ => trivial
  rw [hStarted.storage, hStarted.loaded] at run
  have hInv := Life.Inv.run hStart hSound id run
  have hKeeps : Keeps (blockOf p.process) (blocksOf sizeOfProcess) t.k.heap :=
    ⟨hInv.heap, hInv.kept _ _ (Or.inl ⟨rfl, rfl⟩)⟩
  have hHeap' := hRecord.built.grows.heap
  have hPoints : loadWord t.k.mem (taskDirectory p.afterTask).1 = p.directory := hInv.points
  rw [systemProcessTerminate, hTask, hStarted.directory, hStarted.loaded,
    processTerminateMemory_eq hInv.tables hPoints]
  refine kfreeAll_keeps hKeeps (LoadedProcess.beside (fun i hi =>
    (hInv.slots i hi).beside _ _ (Or.inl ⟨rfl, rfl⟩)) hBesideData hBesideStack (fun q hq => ?_)
    hBesideTask)
  rcases mem_directoryReleases hq with rfl | rfl | ⟨d, hd, rfl⟩
  · exact hAfter.beside_fresh hHeap' hRecord.record.1 hRecord.record.2
  · exact hAfter.beside_fresh hHeap' hRecord.built.page.1 hRecord.built.page.2
  · obtain ⟨hHeld, hFresh, _⟩ := hRecord.built.tables d hd
    have hTable : (p.life entry).table d = table d := hMapped.maps.entry d hd
    rw [hTable]
    exact hAfter.beside_fresh hHeap' hHeld hFresh

/-- No process is given back completely: in front of the load the blocks of its record
were free, and at the end they are in use. -/
theorem processTerminate_never (hHeap : HeapInOrder s.storage.files.heap)
    (hCall : systemProcessLoad d s filename = .returned (0, process, s'))
    (run : Run ProcessStep ⟨s'.storage.memory, (s'.loaded process).arguments⟩ calls t) :
    ¬ TeardownConserves s.storage.files.heap t.k
      (systemProcessTerminate s' process t.k t.process) := by
  intro hConserves
  obtain ⟨hFree, hKeeps⟩ := processTerminate_leaks hHeap hCall run
  exact hConserves.no_leak hFree hKeeps

end Never

/-- The first program is loaded. -/
theorem firstProgram_loaded :
    HeapInOrder (startSystem fun _ => 0).storage.files.heap ∧
      ∃ process s', systemProcessLoad flatFiles (startSystem fun _ => 0) missingFile =
        .returned (0, process, s') := by
  have hHeap := startSystem_heap fun _ => 0
  obtain ⟨l, _⟩ := startSystem_load
  obtain ⟨s', hCall, _⟩ := (l.start hHeap (by decide)).ready hHeap (startSystem_queue _)
    (fun _ hNone => absurd hNone List.not_mem_nil)
    (show processGetFreeSlot (startSystem fun _ => 0).kernel = some 0 from rfl)
  exact ⟨hHeap, _, s', hCall⟩

/-- It ends at once. -/
theorem processTerminate_never_first :
    ∃ process s', systemProcessLoad flatFiles (startSystem fun _ => 0) missingFile =
        .returned (0, process, s') ∧
      ¬ TeardownConserves (startSystem fun _ => 0).storage.files.heap s'.storage.memory
        (systemProcessTerminate s' process s'.storage.memory (s'.loaded process).arguments) := by
  obtain ⟨hHeap, process, s', hCall⟩ := firstProgram_loaded
  exact ⟨process, s', hCall, processTerminate_never hHeap hCall (Run.nil _)⟩

/-- Processes are not always given back. -/
theorem processTerminate_not_conserving :
    ¬ ∀ (d : DiskFiles) (s s' : System) (filename : List UInt8) (process : Nat)
      (calls : List ProcessCall) (t : ProcessState), HeapInOrder s.storage.files.heap →
      systemProcessLoad d s filename = .returned (0, process, s') →
      Run ProcessStep ⟨s'.storage.memory, (s'.loaded process).arguments⟩ calls t →
      TeardownConserves s.storage.files.heap t.k
        (systemProcessTerminate s' process t.k t.process) := by
  intro hClaim
  obtain ⟨hHeap, process, s', hCall⟩ := firstProgram_loaded
  obtain ⟨hFree, hKeeps⟩ := processTerminate_leaks hHeap hCall (Run.nil _)
  exact (hClaim _ _ _ _ _ [] _ hHeap hCall (Run.nil _)).no_leak hFree hKeeps

end LiebeOS
