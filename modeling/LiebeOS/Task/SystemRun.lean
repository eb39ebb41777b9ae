import LiebeOS.Task.ProcessTable
import LiebeOS.Task.ProgramParts

/-! The kernel and its programs over whole runs. Programs are loaded and end, ask for
memory, are handed arguments, and write where they can. -/
namespace LiebeOS

open Attempts MachineInt Bytes Transition

/-- The process in a slot of the table. -/
def System.live (s : System) (i : Nat) : Option LiveProcess :=
  let process := s.kernel.processes i
  let task := (s.kernel.records process).task
  if i < liebeOsMaxProcesses ∧ process ≠ 0 then
    some ⟨process, task, (s.kernel.sched.tasks task).pageDirectory, s.loaded process⟩
  else none

inductive SystemEvent where
  | load (filename : List UInt8)
  | call (slot : Nat) (request : ProcessCall)
  | store (slot virt : Nat) (byte : UInt8)
  | switch (process task : Nat)
  | terminate (slot : Nat)

/-- The memory of the kernel and what the process has requested so far. -/
def System.view (s : System) (q : LiveProcess) : ProcessState :=
  ⟨s.storage.memory, q.loaded.arguments⟩

/-- Memory and the process after one of its calls. -/
def System.called (s : System) (q : LiveProcess) (t : ProcessState) : System :=
  { s with
    storage := s.storage.setMemory t.k
    loaded := Function.update s.loaded q.process
      { s.loaded q.process with arguments := t.process } }

def System.write (s : System) (x : Nat) (byte : UInt8) : System :=
  { s with storage := { s.storage with mem := Function.update s.storage.mem x byte } }

/-- The call goes through a null pointer, or fills memory behind the heap. -/
def ProcessCall.Lost (s : ProcessState) : ProcessCall → Prop
  | .malloc size => ¬ RequestInside s.k size
  | .free _ => False
  | .injectArguments root =>
      processInjectArguments s.k s.process root = .undefined ∨
        ∃ argc, processCountCommandArguments s.k.mem root = .returned argc ∧
          ¬ RequestInside s.k (toWord (4 * argc))

/-- There is no task at this address, or that of a process that has not ended. -/
def System.Linked (s : System) (task : Nat) : Prop :=
  task = 0 ∨ ∃ i q, s.live i = some q ∧ q.task = task

/-- `task_new` appends the task behind one that has ended. -/
def System.LoadLinks (d : DiskFiles) (s : System) (filename : List UInt8) : Prop :=
  ∃ a program m, processLoadAnswers d s.storage filename = .returned (a, program, m) ∧
    a.task ≠ 0 ∧ s.kernel.sched.taskHead ≠ 0 ∧ ¬ s.Linked s.kernel.sched.taskTail

/-- Nothing is known of what follows. The load does not return, the call is lost, or the
queue is changed in the record of a task that has ended. -/
def SystemEvent.Lost (d : DiskFiles) (s : System) : SystemEvent → Prop
  | .load filename => systemProcessLoad d s filename = .undefined ∨ s.LoadLinks d filename
  | .call i request => ∃ q, s.live i = some q ∧ request.Lost (s.view q)
  | .terminate i => ∃ q, s.live i = some q ∧ ¬ s.Linked (s.kernel.sched.prev q.task)
  | _ => False

/-- One step of the kernel or of a program. A program stores a byte through an entry of its
directory that is present, for it to use and for it to write to. The processor may be
given to any task. -/
inductive SystemStep (d : DiskFiles) : System → SystemEvent → System → Prop where
  | load {s s' : System} {filename : List UInt8} {res : Int} {process : Nat}
      (hCall : systemProcessLoad d s filename = .returned (res, process, s')) :
      SystemStep d s (.load filename) s'
  | call {s : System} {i : Nat} {q : LiveProcess} {request : ProcessCall} {t : ProcessState}
      (hLive : s.live i = some q) (hCall : ProcessStep (s.view q) request t) :
      SystemStep d s (.call i request) (s.called q t)
  | store {s : System} {i virt : Nat} {q : LiveProcess} (byte : UInt8) (hLive : s.live i = some q)
      (hVirt : virt < 4294967296)
      (hEntry : pagingGet s.storage.mem q.directory (pagingAlignToLowerPage virt) &&& 7 = 7) :
      SystemStep d s (.store i virt byte)
        (s.write (pagingGetPhysicalAddress s.storage.mem q.directory virt) byte)
  | switch (s : System) (process task : Nat) :
      SystemStep d s (.switch process task)
        { s with kernel :=
          processSwitch { s.kernel with sched := taskSwitch s.kernel.sched task } process }
  | terminate {s : System} {i : Nat} {q : LiveProcess} {k : Kernel} (hLive : s.live i = some q)
      (hCall : processTerminate s.kernel q.process = .returned k) :
      SystemStep d s (.terminate i) { s with
        kernel := k
        storage := s.storage.setMemory
          (systemProcessTerminate s q.process s.storage.memory q.loaded.arguments) }
  | lost {s : System} {e : SystemEvent} (s' : System) (hLost : e.Lost d s) : SystemStep d s e s'

/-- It is known what follows. -/
def Known (d : DiskFiles) (s : System) (e : SystemEvent) : Prop := ¬ e.Lost d s

/-- Programs fit where they are put, and no request is for nothing. -/
def KeepsMemory (window : Window) (d : DiskFiles) (s : System) (e : SystemEvent) : Prop :=
  Known d s e ∧
    match e with
    | .load filename => ∀ p : ProgramStart d s.storage filename, p.Fits window
    | .call i request => ∀ q, s.live i = some q → request.AsksSome s.storage.memory
    | _ => True

/-- The memory of every process is its own, and each is in the slot of its id. -/
structure SystemInv (window : Window) (s : System) : Prop where
  memory : MemoryInv window s.storage.memory s.live
  ids : ∀ {i q}, s.live i = some q → (s.kernel.records q.process).id = i

/-! ### The slots of the table -/

section Slots

variable {s s' : System} {i j : Nat} {q : LiveProcess}

theorem System.live_iff : s.live i = some q ↔ i < liebeOsMaxProcesses ∧ s.kernel.processes i ≠ 0 ∧
    q = ⟨s.kernel.processes i, (s.kernel.records (s.kernel.processes i)).task,
      (s.kernel.sched.tasks (s.kernel.records (s.kernel.processes i)).task).pageDirectory,
      s.loaded (s.kernel.processes i)⟩ := by
  unfold System.live
  dsimp only
  split_ifs with hSlot
  · exact ⟨fun h => ⟨hSlot.1, hSlot.2, (Option.some.inj h).symm⟩, fun h => congrArg some h.2.2.symm⟩
  · exact ⟨fun h => (nomatch h), fun h => absurd ⟨h.1, h.2.1⟩ hSlot⟩

/-- The slot holds the same process, whose records have not changed. -/
theorem System.live_kept (hSlot : s'.kernel.processes i = s.kernel.processes i)
    (hRecords : ∀ q, s.live i = some q →
      s'.kernel.records q.process = s.kernel.records q.process ∧
      (s'.kernel.sched.tasks q.task).pageDirectory = (s.kernel.sched.tasks q.task).pageDirectory ∧
      s'.loaded q.process = s.loaded q.process) : s'.live i = s.live i := by
  unfold System.live
  dsimp only
  rw [hSlot]
  split_ifs with hLive
  · obtain ⟨hRecord, hTask, hLoaded⟩ := hRecords _ (System.live_iff.mpr ⟨hLive.1, hLive.2, rfl⟩)
    dsimp only at hRecord hTask hLoaded
    rw [hRecord, hTask, hLoaded]
  · rfl

end Slots

/-! ### A load -/

section Load

variable {window : Window} {d : DiskFiles} {m m' : Storage} {filename : List UInt8}
  {processes : Nat → Option LiveProcess} {i : Nat} {q : LiveProcess} {a : LoadAnswers}
  {program : Program} {s s' : System}

/-- A load disturbs none of the processes, whatever becomes of it, and its records are
others than theirs. -/
theorem MemoryInv.load_beside (h : MemoryInv window m.memory processes) (hq : processes i = some q)
    (hSome : q.process ≠ 0) (hCall : processLoadAnswers d m filename = .returned (a, program, m')) :
    q.Undisturbed m.memory m'.memory ∧ q.process ≠ a.process ∧ q.task ≠ a.task := by
  obtain ⟨process, m₁, hProcess, _, hStays⟩ := processLoadAnswers_untouched _ hCall
  have hUntouched : ∀ {r n}, Keeps r n m.files.heap → Untouched r n m.mem m' := fun hKeeps =>
    hStays (Storage.kzalloc_untouched hKeeps.untouched _ _ hProcess).1
  have hKeeps : ∀ r n, AllottedAt m.files.heap (q.part m.mem r) n →
      Keeps (blockOf (q.part m.mem r)) n m.files.heap := fun _ _ hAllotted =>
    ⟨h.inOrder.kernel, hAllotted.allotted⟩
  have hOther : ∀ r x, q.part m.mem r ≠ 0 → (∀ {r n}, Keeps r n m.files.heap → Beside r n x) →
      q.part m.mem r ≠ x := fun r x hSome hBeside hSame => by
    obtain ⟨n, hAllotted⟩ := h.owned hq r hSome
    have hApart := hBeside (hKeeps r n hAllotted)
    have hPositive := hAllotted.allotted.run.1
    rw [← hSame, Beside] at hApart
    omega
  refine ⟨⟨fun x hx hPage => ?_, fun r n _ hAllotted => ⟨hAllotted.address,
    (hUntouched (hKeeps r n hAllotted)).block⟩⟩, ?_, ?_⟩
  · obtain ⟨r, hPart, hSome, _⟩ := h.page_part hq hPage
    rw [← hPart] at hSome
    obtain ⟨n, hAllotted⟩ := h.owned hq r hSome
    exact (hUntouched (hKeeps r n hAllotted)).same x hx (hAllotted.inBlocks hPart.symm)
  · exact hOther .process _ hSome fun hKept => (processLoadAnswers_beside hKept _ hCall).1
  · exact hOther .task _ (h.alive hq).some.1 fun hKept =>
      (processLoadAnswers_beside hKept _ hCall).2

theorem ProgramStart.Started.live {p : ProgramStart d s.storage filename} {slot : Nat}
    (h : p.Started s' slot) (hSlot : slot < liebeOsMaxProcesses) : s'.live slot = some p.live := by
  have hProcess : s'.kernel.processes slot = p.process := by
    rw [h.processes, Function.update_self]
  have hTask := congrArg Process.task h.record
  dsimp only at hTask
  rw [System.live_iff, hProcess, hTask, h.directory, h.loaded]
  exact ⟨hSlot, p.processGranted.2, rfl⟩

/-- A load that returns. Either the table is as before, or there is a new process. -/
theorem SystemInv.load {res : Int} {process : Nat} (h : SystemInv window s)
    (hCall : systemProcessLoad d s filename = .returned (res, process, s'))
    (hFits : ∀ p : ProgramStart d s.storage filename, p.Fits window) : SystemInv window s' := by
  cases hSlot : processGetFreeSlot s.kernel with
  | none =>
      rw [systemProcessLoad, hSlot] at hCall
      obtain ⟨_, hPair⟩ := Prod.mk.inj (Attempt.returned.inj hCall)
      obtain ⟨_, rfl⟩ := Prod.mk.inj hPair
      exact h
  | some slot =>
      obtain ⟨a, program, m, k, hAnswers, hLoad, hSame⟩ := systemProcessLoad_returned hSlot hCall
      have hStorage : s'.storage = m := by rw [hSame]
      have hOrder := processLoadAnswers_inOrder h.memory.inOrder _ hAnswers
      obtain ⟨hRecords, hTasks, hTable⟩ := processLoadForSlot_others hLoad
      have hBeside : ∀ {j q}, s.live j = some q →
          q.Undisturbed s.storage.memory s'.storage.memory ∧ q.process ≠ a.process ∧
            q.task ≠ a.task := fun {j q} hq => by
        rw [hStorage]
        obtain ⟨_, hSome, rfl⟩ := System.live_iff.mp hq
        exact h.memory.load_beside hq hSome hAnswers
      have hKept : ∀ j, s'.kernel.processes j = s.kernel.processes j → s'.live j = s.live j :=
        fun j hEntry => System.live_kept hEntry fun q hq => by
          obtain ⟨_, hProcess, hTask⟩ := hBeside hq
          rw [hSame]
          exact ⟨hRecords _ hProcess, hTasks _ hTask, Function.update_of_ne hProcess _ _⟩
      have hId : ∀ {j q}, s.live j = some q → (s'.kernel.records q.process).id = j :=
        fun {j q} hq => by
          rw [← h.ids hq, hSame]
          exact congrArg Process.id (hRecords _ (hBeside hq).2.1)
      have hFailed : res < 0 → SystemInv window s' := fun hFail => by
        have hLive : s'.live = s.live := funext fun j => hKept j (by
          rw [hSame]
          exact congrFun (hTable hFail) j)
        refine ⟨?_, fun {j q} hq => hId (by rwa [hLive] at hq)⟩
        rw [hLive]
        exact h.memory.undisturbed (by rw [hStorage]; exact hOrder) fun j q hq => (hBeside hq).1
      rcases processLoadAnswers_cases hAnswers with hStack | hMap | ⟨⟨p⟩⟩
      · exact hFailed (processLoadForSlot_fails hLoad (Or.inl hStack))
      · exact hFailed (processLoadForSlot_fails hLoad (Or.inr hMap))
      · obtain ⟨_, _, hStarted⟩ := p.started h.memory.inOrder hSlot hCall
        obtain ⟨hRange, _⟩ := processGetFreeSlot_some hSlot
        have hOthers : ∀ j, j ≠ slot → s'.live j = s.live j := fun j hne => hKept j (by
          rw [hStarted.processes, Function.update_of_ne hne])
        have hLive : s'.live = Function.update s.live slot (some p.live) := by
          refine Function.eq_update_iff.mpr ⟨hStarted.live hRange, hOthers⟩
        obtain ⟨hHoused, hFresh⟩ := p.housed h.memory.inOrder (hFits p)
        refine ⟨?_, fun {j q} hq => ?_⟩
        · rw [hLive, hStarted.storage]
          have hOrder' : HeapInOrder p.finish.files.heap := by
            rw [← hStarted.storage, hStorage]
            exact hOrder
          refine h.memory.replace slot (some p.live) hOrder' (fun j q _ hq => ?_) fun q hq => ?_
          · rw [← hStarted.storage]
            exact (hBeside hq).1
          · obtain rfl := Option.some.inj hq
            refine ⟨hHoused, fun j q' _ hq' r r' hSome => ?_⟩
            obtain ⟨n, hAllotted⟩ := h.memory.owned hq' r hSome
            exact hFresh hAllotted r'
        · by_cases hNew : j = slot
          · subst hNew
            obtain rfl := Option.some.inj ((hStarted.live hRange).symm.trans hq)
            exact congrArg Process.id hStarted.record
          · rw [hOthers j hNew] at hq
            exact hId hq

end Load

/-! ### Calls, stores and the end of a process -/

section Steps

variable {window : Window} {d : DiskFiles} {s s' : System} {i : Nat} {q : LiveProcess}

/-- Another process in the table has another record. -/
theorem SystemInv.others (h : SystemInv window s) (hq : s.live i = some q) {j : Nat}
    {q' : LiveProcess} (hq' : s.live j = some q') (hne : j ≠ i) : q'.process ≠ q.process :=
  fun hSame => hne ((h.ids hq').symm.trans (by rw [hSame, h.ids hq]))

theorem SystemInv.call (h : SystemInv window s) (hq : s.live i = some q) {call : ProcessCall}
    (hSize : call.AsksSome s.storage.memory) {t : ProcessState}
    (hStep : ProcessStep (s.view q) call t) : SystemInv window (s.called q t) := by
  have hInv : (q.life window s.storage.memory).Inv t.k t.process.process :=
    Life.Inv.step (h.memory.lives hq) (h.memory.sound hq) (fun _ => hSize) hStep
  have hOthers : ∀ j, j ≠ i → (s.called q t).live j = s.live j := fun j hne =>
    System.live_kept rfl fun q' hq' => ⟨rfl, rfl, Function.update_of_ne (h.others hq hq' hne) _ _⟩
  have hMine : (s.called q t).live i = some (q.withArguments t.process) := by
    obtain ⟨hRange, hSome, rfl⟩ := System.live_iff.mp hq
    refine System.live_iff.mpr ⟨hRange, hSome, ?_⟩
    refine (congrArg (LiveProcess.mk _ _ _) ?_).symm
    exact Function.update_self ..
  have hLive : (s.called q t).live = Function.update s.live i (some (q.withArguments t.process)) :=
    Function.eq_update_iff.mpr ⟨hMine, hOthers⟩
  refine ⟨?_, fun {j q'} hq' => ?_⟩
  · rw [hLive]
    exact h.memory.call hq hInv
  · by_cases hSame : j = i
    · subst hSame
      obtain rfl := Option.some.inj (hMine.symm.trans hq')
      have hId := h.ids hq
      exact hId
    · rw [hOthers j hSame] at hq'
      exact h.ids hq'

/-- A store reaches what is there for the program to write to. -/
theorem SystemInv.store (h : SystemInv window s) (hq : s.live i = some q) {virt : Nat}
    (hVirt : virt < 4294967296)
    (hEntry : pagingGet s.storage.mem q.directory (pagingAlignToLowerPage virt) &&& 7 = 7)
    (byte : UInt8) :
    SystemInv window (s.write (pagingGetPhysicalAddress s.storage.mem q.directory virt) byte) := by
  have hPage := pagingAlignToLowerPage_eq virt
  have hLt : pagingGet s.storage.mem q.directory (pagingAlignToLowerPage virt) < 4294967296 :=
    loadWord_lt _ _
  have hWritable : pagingGet s.storage.mem q.directory (pagingAlignToLowerPage virt) &&&
      pagingIsWriteable ≠ 0 := fun hClear => by
    have hBits := Nat.and_two_pow_sub_one_eq_mod
      (pagingGet s.storage.mem q.directory (pagingAlignToLowerPage virt)) 3
    rw [and_pagingIsWriteable] at hClear
    change _ &&& 7 = _ at hBits
    omega
  obtain ⟨r, hPart, hIn⟩ := h.memory.writable hq (by omega) (by omega) hWritable
  have hAligned := entryAddress_eq hLt
  change InAllocation _ _
    (entryAddress (pagingGet s.storage.mem q.directory (pagingAlignToLowerPage virt))) at hIn
  have hPlace : pagingGetPhysicalAddress s.storage.mem q.directory virt =
      (entryAddress (pagingGet s.storage.mem q.directory (pagingAlignToLowerPage virt)) +
        (virt - pagingAlignToLowerPage virt)) % 4294967296 := rfl
  refine ⟨h.memory.store hq (hIn.page ?_) hPart byte, h.ids⟩
  rw [hPlace]
  omega

theorem SystemInv.terminate (h : SystemInv window s) (hq : s.live i = some q) {k : Kernel}
    (hCall : processTerminate s.kernel q.process = .returned k) :
    SystemInv window { s with
      kernel := k
      storage := s.storage.setMemory
        (systemProcessTerminate s q.process s.storage.memory q.loaded.arguments) } := by
  obtain ⟨hRecords, hTable, _⟩ := processTerminate_effect hCall
  rw [h.ids hq] at hTable
  have hMemory : systemProcessTerminate s q.process s.storage.memory q.loaded.arguments =
      processTerminateMemory s.storage.memory q.loaded q.task q.chunk := by
    obtain ⟨_, _, rfl⟩ := System.live_iff.mp hq
    rfl
  have hEnded := h.memory.terminate hq
  rw [hMemory]
  generalize processTerminateMemory s.storage.memory q.loaded q.task q.chunk = m at hEnded
  have hLive : System.live { s with kernel := k, storage := s.storage.setMemory m } =
      Function.update s.live i none := by
    refine Function.eq_update_iff.mpr
      ⟨?_, fun j hne => System.live_kept ?_ fun q' _ => ⟨?_, ?_, rfl⟩⟩
    · refine if_neg fun hSome => hSome.2 ?_
      exact (congrFun hTable i).trans (Function.update_self ..)
    · exact (congrFun hTable j).trans (Function.update_of_ne hne _ _)
    · exact congrFun hRecords _
    · refine (congrArg (fun sched : Scheduler => (sched.tasks q'.task).pageDirectory)
        (processTerminate_sched hCall)).trans ?_
      exact taskFree_others Task.pageDirectory (fun _ _ => rfl) _ _ _
  refine ⟨?_, fun {j q'} hq' => ?_⟩
  · rw [hLive]
    exact hEnded
  · rw [hLive] at hq'
    by_cases hSame : j = i
    · rw [hSame, Function.update_self] at hq'
      cases hq'
    · rw [Function.update_of_ne hSame] at hq'
      rw [← h.ids hq']
      exact congrArg Process.id (congrFun hRecords _)

/-- What a step that keeps memory preserves. -/
theorem SystemInv.step {e : SystemEvent} (h : SystemInv window s)
    (hStep : Guarded (SystemStep d) (KeepsMemory window d) s e s') : SystemInv window s' := by
  obtain ⟨⟨hKnown, hKeeps⟩, hStep⟩ := hStep
  cases hStep with
  | load hCall => exact h.load hCall hKeeps
  | call hLive hCall => exact h.call hLive (hKeeps _ hLive) hCall
  | store byte hLive hVirt hEntry => exact h.store hLive hVirt hEntry byte
  | switch process task => exact ⟨h.memory, h.ids⟩
  | terminate hLive hCall => exact h.terminate hLive hCall
  | lost _ hLost => exact absurd hLost hKnown

end Steps

end LiebeOS
