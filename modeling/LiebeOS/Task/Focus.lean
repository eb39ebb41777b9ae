import Mathlib.Data.List.Nodup
import Mathlib.Data.List.Perm.Basic
import LiebeOS.Lib.Slots
import LiebeOS.Task.Process
import LiebeOS.Task.RunQueue

/-! The two notions of what is running: the current process, chosen by table
slot, and the current task, chosen by queue order. The keyboard is written
through one and read through the other. -/
namespace LiebeOS

open LinkedQueue Transition

/-- `keyboard_push` writes to the process that `keyboard_pop` reads from. -/
def FocusAgrees (k : Kernel) : Prop := processCurrent k = k.sched.process (taskCurrent k)

inductive UserEvent where
  | processLoadStart (copied : Int) (answers : LoadAnswers)
  | invokeSystemCommand (named : Bool) (answers : LoadAnswers) (inject : Int)
  | exit
  | exception

def handle (k : Kernel) : UserEvent → Outcome Kernel
  | .processLoadStart copied a => isr80hCommand6ProcessLoadStart k copied a
  | .invokeSystemCommand named a inject => isr80hCommand7InvokeSystemCommand k named a inject
  | .exit => isr80hCommand9Exit k
  | .exception => idtHandleException k

/-- The allocator hands out no record that the process table still refers to,
and mapping never returns a positive number. -/
structure LoadAnswers.Possible (k : Kernel) (a : LoadAnswers) : Prop where
  process : ∀ i < liebeOsMaxProcesses, k.processes i ≠ 0 → k.processes i ≠ a.process
  task : ∀ i < liebeOsMaxProcesses, k.processes i ≠ 0 →
    (k.records (k.processes i)).task ≠ a.task
  map : a.map ≤ 0

def UserEvent.Possible (k : Kernel) : UserEvent → Prop
  | .processLoadStart _ a => a.Possible k
  | .invokeSystemCommand _ a _ => a.Possible k
  | .exit => True
  | .exception => True

/-- One entry to the kernel and the return to user mode. After a call through
a null pointer any state may follow; after a panic none does. -/
inductive KernelStep : Kernel → UserEvent → Kernel → Prop where
  | returned {k k' : Kernel} {e : UserEvent} (hPossible : e.Possible k)
      (h : handle k e = .returned k') : KernelStep k e k'
  | undefined {k : Kernel} {e : UserEvent} (k' : Kernel) (hPossible : e.Possible k)
      (h : handle k e = .undefined) : KernelStep k e k'

/-- The kernel as it enters user mode for the first time, with the shell. -/
def Booted (k : Kernel) : Prop :=
  ∃ (tasks : Nat → Task) (records : Nat → Process) (a : LoadAnswers),
    a.map ≤ 0 ∧ kernelMain ⟨⟨tasks, 0, 0, 0, []⟩, fun _ => 0, records, 0⟩ a = .returned k

/-! ### The condition -/

/-- Unless the table is full, the process record is granted, and so is the
task when the load gets that far. -/
def LoadFits (k : Kernel) (a : LoadAnswers) : Prop :=
  processGetFreeSlot k = none ∨
    (a.process ≠ 0 ∧ (a.data < 0 ∨ a.stack = 0 ∨ (a.task ≠ 0 ∧ a.pageDirectory ≠ 0)))

def LoadSucceeds (k : Kernel) (a : LoadAnswers) : Prop :=
  processGetFreeSlot k ≠ none ∧ 0 ≤ a.data ∧ a.stack ≠ 0 ∧ 0 ≤ a.map

def liveSlots (k : Kernel) : List Nat :=
  (List.range liebeOsMaxProcesses).filter fun i => k.processes i ≠ 0

/-- No allocation that a load does not check is refused, the arguments of a
loaded program are injected, and a program ends only while at most one other
is live. -/
def KeepsFocus (k : Kernel) : UserEvent → Prop
  | .processLoadStart copied a => copied < 0 ∨ LoadFits k a
  | .invokeSystemCommand named a inject =>
      named = false ∨ (LoadFits k a ∧ (LoadSucceeds k a → 0 ≤ inject))
  | .exit => (liveSlots k).length ≤ 2
  | .exception => (liveSlots k).length ≤ 2

/-! ### The invariant -/

/-- Live tasks and table slots belong to each other, the first process is at
the head of the queue, and the youngest task is the current one. -/
structure KernelInv (k : Kernel) (live : List Nat) : Prop where
  shape : QueueShape k.sched live
  current : live.getLast? = some k.sched.currentTask
  owned : ∀ t ∈ live, k.sched.process t ≠ 0 ∧ (k.records (k.sched.process t)).task = t ∧
    (k.records (k.sched.process t)).id < liebeOsMaxProcesses ∧
    k.processes (k.records (k.sched.process t)).id = k.sched.process t
  slots : ∀ i < liebeOsMaxProcesses, k.processes i ≠ 0 →
    (k.records (k.processes i)).id = i ∧ (k.records (k.processes i)).task ∈ live ∧
      k.sched.process (k.records (k.processes i)).task = k.processes i
  first : k.processes 0 = k.sched.process k.sched.taskHead
  focus : k.currentProcess = k.sched.process k.sched.currentTask

def Consistent (k : Kernel) : Prop := ∃ live, KernelInv k live

theorem KernelInv.current_mem {k : Kernel} {live : List Nat} (h : KernelInv k live) :
    k.sched.currentTask ∈ live :=
  List.mem_of_getLast? h.current

theorem KernelInv.head_mem {k : Kernel} {live : List Nat} (h : KernelInv k live) :
    k.sched.taskHead ∈ live := by
  rw [h.shape.head]
  rcases headD_mem_or (l := live) with ⟨_, hEmpty⟩ | hMem
  · exact absurd h.current (by simp [hEmpty])
  · exact hMem

/-! ### Tasks and table slots -/

/-- The part of the invariant that does not depend on the order of the queue. -/
structure TaskTable (k : Kernel) (live : List Nat) : Prop where
  owned : ∀ t ∈ live, k.sched.process t ≠ 0 ∧ (k.records (k.sched.process t)).task = t ∧
    (k.records (k.sched.process t)).id < liebeOsMaxProcesses ∧
    k.processes (k.records (k.sched.process t)).id = k.sched.process t
  slots : ∀ i < liebeOsMaxProcesses, k.processes i ≠ 0 →
    (k.records (k.processes i)).id = i ∧ (k.records (k.processes i)).task ∈ live ∧
      k.sched.process (k.records (k.processes i)).task = k.processes i

theorem KernelInv.table {k : Kernel} {live : List Nat} (h : KernelInv k live) : TaskTable k live :=
  ⟨h.owned, h.slots⟩

/-- A load that has failed. It may have added its task and taken it out again. -/
structure LoadFailed (k : Kernel) (a : LoadAnswers) (k' : Kernel) : Prop where
  processes : k'.processes = k.processes
  currentProcess : k'.currentProcess = k.currentProcess
  records : ∀ p, p ≠ a.process → k'.records p = k.records p
  sched : k'.sched = k.sched ∨ ∃ sched,
    taskNew k.sched a.task a.pageDirectory a.process a.ip = some sched ∧
      k'.sched = taskFree sched a.task

/-- A load that has succeeded, before the new task is switched to. -/
structure LoadDone (k : Kernel) (a : LoadAnswers) (slot : Nat) (k' : Kernel) : Prop where
  free : processGetFreeSlot k = some slot
  null : a.process ≠ 0
  sched : taskNew k.sched a.task a.pageDirectory a.process a.ip = some k'.sched
  processes : k'.processes = Function.update k.processes slot a.process
  records : k'.records =
    Function.update k.records a.process { processInit with id := slot, task := a.task }
  currentProcess : k'.currentProcess = a.process

theorem taskNew_eq_none_iff {s : Scheduler} {task pageDirectory process ip : Nat} :
    taskNew s task pageDirectory process ip = none ↔ task = 0 ∨ pageDirectory = 0 := by
  unfold taskNew
  by_cases hNull : task = 0 ∨ pageDirectory = 0
  · simp [hNull]
  · rw [if_neg hNull]
    dsimp only
    split <;> simp [hNull]

theorem processGetFreeSlot_some {k : Kernel} {slot : Nat} (h : processGetFreeSlot k = some slot) :
    slot < liebeOsMaxProcesses ∧ k.processes slot = 0 := by
  obtain ⟨hRange, hFree, _⟩ := Slots.find_some h
  exact ⟨hRange, hFree⟩

/-- What loading a program and making its process current can come to. -/
theorem processLoadSwitch_outcome {k : Kernel} {a : LoadAnswers} (hUpper : a.map ≤ 0) :
    (¬ LoadFits k a ∧ processLoadSwitch k a = .undefined) ∨
    (LoadFits k a ∧ ¬ LoadSucceeds k a ∧ ∃ res k', res < 0 ∧
      processLoadSwitch k a = .returned (res, 0, k') ∧ LoadFailed k a k') ∨
    (LoadFits k a ∧ LoadSucceeds k a ∧ ∃ slot k',
      processLoadSwitch k a = .returned (0, a.process, k') ∧ LoadDone k a slot k') := by
  unfold processLoadSwitch processLoad
  cases hSlot : processGetFreeSlot k with
  | none =>
      exact Or.inr (Or.inl ⟨Or.inl hSlot, fun hAll => hAll.1 hSlot, -eistkn, k, by decide, rfl,
        rfl, rfl, fun _ _ => rfl, Or.inl rfl⟩)
  | some slot =>
      have hFits : LoadFits k a ↔
          a.process ≠ 0 ∧ (a.data < 0 ∨ a.stack = 0 ∨ (a.task ≠ 0 ∧ a.pageDirectory ≠ 0)) := by
        simp [LoadFits, hSlot]
      have hAll : LoadSucceeds k a ↔ 0 ≤ a.data ∧ a.stack ≠ 0 ∧ 0 ≤ a.map := by
        simp [LoadSucceeds, hSlot]
      have hOther : ∀ (record : Process) (p : Nat), p ≠ a.process →
          Function.update k.records a.process record p = k.records p :=
        fun record p hp => Function.update_of_ne hp _ _
      rw [hFits, hAll]
      unfold processLoadForSlot
      dsimp only
      by_cases hNull : a.process = 0
      · exact Or.inl ⟨fun hGranted => hGranted.1 hNull, by rw [if_pos hNull]⟩
      rw [if_neg hNull]
      by_cases hData : a.data < 0
      · rw [if_pos hData]
        refine Or.inr (Or.inl ⟨⟨hNull, Or.inl hData⟩, by omega, a.data, _, hData, rfl, ?_⟩)
        rw [if_neg (by omega)]
        exact ⟨rfl, rfl, hOther _, Or.inl rfl⟩
      rw [if_neg hData]
      by_cases hStack : a.stack = 0
      · rw [if_pos hStack]
        refine Or.inr (Or.inl ⟨⟨hNull, Or.inr (Or.inl hStack)⟩, fun hDone => hDone.2.1 hStack,
          -enomem, _, by decide, rfl, ?_⟩)
        rw [if_neg (by decide)]
        exact ⟨rfl, rfl, hOther _, Or.inl rfl⟩
      rw [if_neg hStack]
      cases hNew : taskNew k.sched a.task a.pageDirectory a.process a.ip with
      | none =>
          have hRefused := taskNew_eq_none_iff.mp hNew
          refine Or.inl ⟨?_, ?_⟩
          · rintro ⟨_, hNegative | hZero | ⟨hTask, hDirectory⟩⟩
            · exact hData hNegative
            · exact hStack hZero
            · exact hRefused.elim hTask hDirectory
          · simp [Kernel.storeProcess, hNew]
      | some sched =>
          have hGranted : a.task ≠ 0 ∧ a.pageDirectory ≠ 0 := by
            refine not_or.mp fun hRefused => ?_
            rw [taskNew_eq_none_iff.mpr hRefused] at hNew
            exact absurd hNew (by simp)
          simp only [Kernel.storeProcess, hNew, Function.update_idem]
          right
          by_cases hMap : a.map < 0
          · rw [if_pos hMap]
            refine Or.inl ⟨⟨hNull, Or.inr (Or.inr hGranted)⟩, by omega, a.map, _, hMap, rfl, ?_⟩
            rw [if_neg (by omega)]
            exact ⟨rfl, rfl, hOther _, Or.inr ⟨sched, hNew, rfl⟩⟩
          · have hZero : a.map = 0 := by omega
            rw [if_neg hMap, hZero]
            exact Or.inr ⟨⟨hNull, Or.inr (Or.inr hGranted)⟩, ⟨by omega, hStack, by omega⟩,
              slot, _, rfl, hSlot, hNull, hNew, rfl, rfl, rfl⟩

section TaskTable

variable {k k' : Kernel} {live : List Nat} {a : LoadAnswers}

/-- Only the processes of live tasks and the records that the table refers to
are looked at. -/
theorem TaskTable.congr (h : TaskTable k live)
    (hProcess : ∀ t ∈ live, k'.sched.process t = k.sched.process t)
    (hTable : k'.processes = k.processes)
    (hRecords : ∀ i < liebeOsMaxProcesses, k.processes i ≠ 0 →
      k'.records (k.processes i) = k.records (k.processes i)) : TaskTable k' live where
  owned t ht := by
    obtain ⟨hNull, hTask, hSlot, hEntry⟩ := h.owned t ht
    have hRecord := hRecords _ hSlot (by rw [hEntry]; exact hNull)
    rw [hEntry] at hRecord
    rw [hProcess t ht, hRecord, hTable]
    exact ⟨hNull, hTask, hSlot, hEntry⟩
  slots i hi hEntry := by
    rw [hTable] at hEntry ⊢
    obtain ⟨hId, hTask, hBack⟩ := h.slots i hi hEntry
    rw [hRecords i hi hEntry]
    exact ⟨hId, hTask, (hProcess _ hTask).trans hBack⟩

theorem TaskTable.task_fresh (h : TaskTable k live) (hPossible : a.Possible k) :
    a.task ∉ live := fun hMem => by
  obtain ⟨hNull, hTask, hSlot, hEntry⟩ := h.owned a.task hMem
  refine hPossible.task _ hSlot ?_ ?_
  · rw [hEntry]
    exact hNull
  · rw [hEntry, hTask]

theorem TaskTable.process_fresh (h : TaskTable k live) (hPossible : a.Possible k) {t : Nat}
    (ht : t ∈ live) : k.sched.process t ≠ a.process := by
  obtain ⟨hNull, _, hSlot, hEntry⟩ := h.owned t ht
  rw [← hEntry]
  exact hPossible.process _ hSlot (by rw [hEntry]; exact hNull)

/-- Two live tasks with the same process are the same task. -/
theorem TaskTable.process_inj (h : TaskTable k live) {t t' : Nat} (ht : t ∈ live) (ht' : t' ∈ live)
    (hSame : k.sched.process t = k.sched.process t') : t = t' := by
  rw [← (h.owned t ht).2.1, ← (h.owned t' ht').2.1, hSame]

/-- Two live tasks have different slots. -/
theorem TaskTable.slot_inj (h : TaskTable k live) {t t' : Nat} (ht : t ∈ live) (ht' : t' ∈ live)
    (hSame : (k.records (k.sched.process t)).id = (k.records (k.sched.process t')).id) : t = t' := by
  refine h.process_inj ht ht' ?_
  rw [← (h.owned t ht).2.2.2, hSame, (h.owned t' ht').2.2.2]

/-- The table after a load. `k'` may have switched to any task. -/
theorem TaskTable.loaded {slot : Nat} {after : Kernel} (h : TaskTable k live)
    (hPossible : a.Possible k) (hDone : LoadDone k a slot after)
    (hProcess : k'.sched.process = Function.update k.sched.process a.task a.process)
    (hTable : k'.processes = after.processes) (hRecords : k'.records = after.records) :
    TaskTable k' (live ++ [a.task]) := by
  obtain ⟨hRange, hFree⟩ := processGetFreeSlot_some hDone.free
  rw [hDone.processes] at hTable
  rw [hDone.records] at hRecords
  have hNewTask : k'.sched.process a.task = a.process := by rw [hProcess, Function.update_self]
  have hOldTask : ∀ t ∈ live, k'.sched.process t = k.sched.process t := fun t ht => by
    have hOther : t ≠ a.task := fun hSame => h.task_fresh hPossible (by rwa [← hSame])
    rw [hProcess, Function.update_of_ne hOther]
  have hNewRecord : k'.records a.process = { processInit with id := slot, task := a.task } := by
    rw [hRecords, Function.update_self]
  have hOldRecord : ∀ p, p ≠ a.process → k'.records p = k.records p := fun p hp => by
    rw [hRecords, Function.update_of_ne hp]
  have hNewEntry : k'.processes slot = a.process := by rw [hTable, Function.update_self]
  have hOldEntry : ∀ i, k.processes i ≠ 0 → k'.processes i = k.processes i := fun i hi => by
    rw [hTable, Function.update_of_ne fun hSame => hi (by rw [hSame, hFree])]
  refine ⟨fun t ht => ?_, fun i hi hEntry => ?_⟩
  · rcases List.mem_append.mp ht with ht | ht
    · obtain ⟨hSome, hBack, hSlotOf, hEntry⟩ := h.owned t ht
      rw [hOldTask t ht, hOldRecord _ (h.process_fresh hPossible ht),
        hOldEntry _ (by rw [hEntry]; exact hSome)]
      exact ⟨hSome, hBack, hSlotOf, hEntry⟩
    · rw [List.mem_singleton.mp ht, hNewTask, hNewRecord, hNewEntry]
      exact ⟨hDone.null, rfl, hRange, rfl⟩
  · by_cases hSame : i = slot
    · rw [hSame, hNewEntry, hNewRecord]
      exact ⟨rfl, by simp, hNewTask⟩
    · have hOld : k'.processes i = k.processes i := by rw [hTable, Function.update_of_ne hSame]
      rw [hOld] at hEntry ⊢
      obtain ⟨hIdOld, hMem, hBack⟩ := h.slots i hi hEntry
      rw [hOldRecord _ (hPossible.process i hi hEntry)]
      exact ⟨hIdOld, List.mem_append_left _ hMem, (hOldTask _ hMem).trans hBack⟩

/-- The table after the end of a program, without its task. -/
theorem TaskTable.ended {task : Nat} {rest : List Nat} (h : TaskTable k live) (hTask : task ∈ live)
    (hRest : ∀ t, t ∈ rest ↔ t ∈ live ∧ t ≠ task)
    (hProcess : k'.sched.process = k.sched.process) (hRecords : k'.records = k.records)
    (hTable : k'.processes =
      Function.update k.processes (k.records (k.sched.process task)).id 0) : TaskTable k' rest := by
  refine ⟨fun t ht => ?_, fun i hi hUsed => ?_⟩
  · obtain ⟨hLive, hOther⟩ := (hRest t).mp ht
    have hSlot : (k.records (k.sched.process t)).id ≠ (k.records (k.sched.process task)).id :=
      fun hSame => hOther (h.slot_inj hLive hTask hSame)
    rw [hProcess, hRecords, hTable, Function.update_of_ne hSlot]
    exact h.owned t hLive
  · have hNot : i ≠ (k.records (k.sched.process task)).id := fun hSame => hUsed (by
      rw [hTable, hSame, Function.update_self])
    rw [hTable, Function.update_of_ne hNot] at hUsed ⊢
    obtain ⟨hId, hMem, hBack⟩ := h.slots i hi hUsed
    rw [hRecords, hProcess]
    refine ⟨hId, (hRest _).mpr ⟨hMem, fun hSame => hNot ?_⟩, hBack⟩
    rw [← hSame, hBack, hId]

/-- As many slots are in use as tasks are live. -/
theorem TaskTable.liveSlots_length (h : TaskTable k live) (hOnce : live.Nodup) :
    (liveSlots k).length = live.length := by
  have hSlots : (live.map fun t => (k.records (k.sched.process t)).id).Nodup :=
    List.Nodup.map_on (fun t ht t' ht' hSame => h.slot_inj ht ht' hSame) hOnce
  have hPerm : (liveSlots k).Perm (live.map fun t => (k.records (k.sched.process t)).id) := by
    refine (List.perm_ext_iff_of_nodup (List.nodup_range.filter _) hSlots).mpr fun i => ?_
    simp only [List.mem_filter, List.mem_range, List.mem_map, decide_eq_true_eq]
    constructor
    · rintro ⟨hi, hEntry⟩
      obtain ⟨hId, hMem, hBack⟩ := h.slots i hi hEntry
      exact ⟨_, hMem, by rw [hBack, hId]⟩
    · rintro ⟨t, ht, rfl⟩
      obtain ⟨hNull, _, hSlot, hEntry⟩ := h.owned t ht
      exact ⟨hSlot, by rw [hEntry]; exact hNull⟩
  rw [hPerm.length_eq, List.length_map]

end TaskTable

/-! ### Starting a program -/

/-- The kernel when a load has succeeded and its task is made current. -/
theorem KernelInv.loaded {k k' : Kernel} {live : List Nat} {a : LoadAnswers} {slot : Nat}
    (h : KernelInv k live) (hPossible : a.Possible k) (hDone : LoadDone k a slot k') :
    KernelInv { k' with sched := taskSwitch k'.sched a.task } (live ++ [a.task]) := by
  have hFresh := h.table.task_fresh hPossible
  obtain ⟨hShape, _, hProcess⟩ := h.shape.taskNew hFresh hDone.sched
  have hTable : TaskTable { k' with sched := taskSwitch k'.sched a.task } (live ++ [a.task]) :=
    h.table.loaded hPossible hDone hProcess rfl rfl
  have hHead : k'.sched.taskHead = k.sched.taskHead := by
    rw [h.shape.head, hShape.head]
    cases live with
    | nil => exact absurd h.current (by simp)
    | cons t rest => rfl
  have hHeadOld : k.sched.taskHead ≠ a.task := fun hSame => hFresh (hSame ▸ h.head_mem)
  refine ⟨hShape.switch a.task, by simp [taskSwitch], hTable.owned, hTable.slots, ?_, ?_⟩
  · have hShell : k.processes 0 ≠ 0 := by
      rw [h.first]
      exact (h.owned _ h.head_mem).1
    have hFree := (processGetFreeSlot_some hDone.free).2
    have hSlot : 0 ≠ slot := fun hSame => hShell (by rwa [← hSame] at hFree)
    change k'.processes 0 = k'.sched.process k'.sched.taskHead
    rw [hDone.processes, Function.update_of_ne hSlot, h.first, hHead, hProcess,
      Function.update_of_ne hHeadOld]
  · change k'.currentProcess = k'.sched.process a.task
    rw [hDone.currentProcess, hProcess, Function.update_self]

/-- A load that fails leaves the invariant as it is. -/
theorem KernelInv.notLoaded {k k' : Kernel} {live : List Nat} {a : LoadAnswers}
    (h : KernelInv k live) (hPossible : a.Possible k) (hFailed : LoadFailed k a k') :
    KernelInv k' live := by
  have hFresh := h.table.task_fresh hPossible
  obtain ⟨hShape, hCurrent, hProcess⟩ : QueueShape k'.sched live ∧
      k'.sched.currentTask = k.sched.currentTask ∧
      ∀ t ∈ live, k'.sched.process t = k.sched.process t := by
    rcases hFailed.sched with hSame | ⟨sched, hNew, hFreed⟩
    · rw [hSame]
      exact ⟨h.shape, rfl, fun _ _ => rfl⟩
    · obtain ⟨hAdded, hCurrent, hProcess⟩ := h.shape.taskNew hFresh hNew
      obtain ⟨hBack, hStill, _⟩ := hAdded.taskFree_last
      have hSome : live ≠ [] := List.ne_nil_of_mem h.current_mem
      rw [if_neg hSome] at hCurrent
      have hRunning : sched.currentTask ≠ a.task := fun hSame => by
        rw [hCurrent] at hSame
        exact hFresh (by rw [← hSame]; exact h.current_mem)
      rw [hFreed, (taskFree_fields sched a.task).2, hProcess]
      refine ⟨hBack, hStill.trans (by rw [if_neg hRunning, hCurrent]), fun t ht => ?_⟩
      exact Function.update_of_ne (fun hSame => hFresh (by rwa [← hSame])) _ _
  have hTable : TaskTable k' live := h.table.congr hProcess hFailed.processes
    fun i hi hEntry => hFailed.records _ (hPossible.process i hi hEntry)
  have hHead : k'.sched.taskHead = k.sched.taskHead := hShape.head.trans h.shape.head.symm
  refine ⟨hShape, by rw [hCurrent, h.current], hTable.owned, hTable.slots, ?_, ?_⟩
  · rw [hFailed.processes, h.first, hHead, hProcess _ h.head_mem]
  · rw [hFailed.currentProcess, h.focus, hCurrent, hProcess _ h.current_mem]

/-- What loading a program comes to in a state of the invariant. -/
theorem KernelInv.loadSwitch {k : Kernel} {live : List Nat} {a : LoadAnswers}
    (h : KernelInv k live) (hPossible : a.Possible k) :
    (¬ LoadFits k a ∧ processLoadSwitch k a = .undefined) ∨
    (LoadFits k a ∧ ¬ LoadSucceeds k a ∧ ∃ res process k', res < 0 ∧
      processLoadSwitch k a = .returned (res, process, k') ∧ KernelInv k' live) ∨
    (LoadFits k a ∧ LoadSucceeds k a ∧ ∃ k',
      processLoadSwitch k a = .returned (0, a.process, k') ∧
      (k'.records a.process).task = a.task ∧
      k'.currentProcess = a.process ∧ k'.sched.currentTask = k.sched.currentTask ∧
      k'.sched.process k.sched.currentTask = k.sched.process k.sched.currentTask ∧
      KernelInv { k' with sched := taskSwitch k'.sched a.task } (live ++ [a.task])) := by
  rcases processLoadSwitch_outcome hPossible.map with hMisses |
    ⟨hFits, hFails, res, k', hNegative, hReturned, hFailed⟩ |
    ⟨hFits, hAll, slot, k', hReturned, hDone⟩
  · exact Or.inl hMisses
  · exact Or.inr (Or.inl
      ⟨hFits, hFails, res, 0, k', hNegative, hReturned, h.notLoaded hPossible hFailed⟩)
  · have hFresh := h.table.task_fresh hPossible
    obtain ⟨_, hCurrent, hProcess⟩ := h.shape.taskNew hFresh hDone.sched
    rw [if_neg (List.ne_nil_of_mem h.current_mem)] at hCurrent
    have hOther : k.sched.currentTask ≠ a.task := fun hSame => hFresh (hSame ▸ h.current_mem)
    refine Or.inr (Or.inr ⟨hFits, hAll, k', hReturned, ?_, hDone.currentProcess, hCurrent, ?_,
      h.loaded hPossible hDone⟩)
    · rw [hDone.records, Function.update_self]
    · rw [hProcess, Function.update_of_ne hOther]

/-! ### Ending a program -/

/-- Ending the only program stops the kernel: no process is left to switch to. -/
theorem KernelInv.terminate_last {k : Kernel} {task : Nat} (h : KernelInv k [task]) :
    terminateCurrent k = .halted := by
  have hRunning : k.sched.currentTask = task := by simpa using h.current.symm
  obtain ⟨_, hTask, hSlot, hEntry⟩ := h.owned task (by simp)
  have hNone : (List.range liebeOsMaxProcesses).find? (fun i => decide
      (Function.update k.processes (k.records (k.sched.process task)).id 0 i ≠ 0)) = none := by
    refine List.find?_range_eq_none.mpr fun i hi => ?_
    by_cases hSame : i = (k.records (k.sched.process task)).id
    · simp [hSame]
    · have hFree : k.processes i = 0 := by
        by_contra hUsed
        obtain ⟨hId, hMem, hBack⟩ := h.slots i hi hUsed
        rw [List.mem_singleton.mp hMem] at hBack
        exact hSame (by rw [hBack, hId])
      simp [Function.update_of_ne hSame, hFree]
  have hFocus : k.currentProcess = k.sched.process task := by rw [h.focus, hRunning]
  simp only [terminateCurrent, processTerminate, processUnlink, taskCurrent, hRunning, hFocus,
    if_true, processSwitchToAny, hNone]

/-- Ending the youngest of several programs: the keyboard goes to the first
process, and the processor to the second task of the queue if there is one. -/
theorem KernelInv.terminate {k : Kernel} {first task : Nat} {rest : List Nat}
    (h : KernelInv k (first :: rest ++ [task])) :
    ∃ k', terminateCurrent k = .returned k' ∧ QueueShape k'.sched (first :: rest) ∧
      k'.sched.process = k.sched.process ∧ k'.records = k.records ∧
      k'.processes = Function.update k.processes (k.records (k.sched.process task)).id 0 ∧
      k'.currentProcess = k.sched.process first ∧
      k'.sched.currentTask = rest.headD first := by
  have hRunning : k.sched.currentTask = task := by
    have hLast := h.current
    rw [List.getLast?_concat, Option.some.injEq] at hLast
    exact hLast.symm
  have hMem : task ∈ first :: rest ++ [task] := by simp
  obtain ⟨hSome, hTask, hSlot, hEntry⟩ := h.owned task hMem
  have hHead : k.sched.taskHead = first := h.shape.head
  have hOther : first ≠ task := fun hSame => by
    have hOnce := h.shape.nodup
    rw [hSame] at hOnce
    simp at hOnce
  have hShell : k.processes 0 = k.sched.process first := by rw [h.first, hHead]
  have hZero : (0 : Nat) ≠ (k.records (k.sched.process task)).id := fun hSame => by
    rw [← hSame, hShell] at hEntry
    exact hOther (h.table.process_inj (by simp) hMem hEntry)
  have hFirst : k.sched.process first ≠ 0 := (h.owned first (by simp)).1
  have hFind : (List.range liebeOsMaxProcesses).find? (fun i => decide
      (Function.update k.processes (k.records (k.sched.process task)).id 0 i ≠ 0)) = some 0 := by
    refine List.find?_range_eq_some.mpr ⟨?_, by decide, by simp⟩
    simpa [Function.update_of_ne hZero, hShell] using hFirst
  have hFocus : k.currentProcess = k.sched.process task := by rw [h.focus, hRunning]
  obtain ⟨hShape, hCurrent, _⟩ := h.shape.taskFree_last
  rw [if_pos hRunning] at hCurrent
  have hFirstNull : first ≠ 0 := fun hSame => hShape.null (by simp [hSame])
  have hNext : taskGetNext (taskFree k.sched task) = rest.headD first := by
    have hLink : ((taskFree k.sched task).tasks first).next = rest.headD 0 := hShape.next.1
    rw [taskGetNext, hCurrent, List.headD_cons, hLink, hShape.head, List.headD_cons]
    cases rest with
    | nil => rfl
    | cons second _ =>
        have hSecond : second ≠ 0 := fun hSame => hShape.null (by simp [hSame])
        exact if_neg hSecond
  have hNextSome : rest.headD first ≠ 0 := by
    cases rest with
    | nil => exact hFirstNull
    | cons second _ => exact fun hSame => hShape.null (by simp [← hSame])
  refine ⟨{ sched := taskSwitch (taskFree k.sched task) (rest.headD first)
            processes := Function.update k.processes (k.records (k.sched.process task)).id 0
            records := k.records
            currentProcess := k.sched.process first },
    ?_, hShape.switch _, (taskFree_fields k.sched task).2, rfl, rfl, rfl, rfl⟩
  simp only [terminateCurrent, processTerminate, processUnlink, taskCurrent, hRunning, hFocus,
    if_true, processSwitchToAny, hFind, processSwitch, hTask, taskNext, hNext, if_neg hNextSome,
    Function.update_of_ne hZero, hShell]

/-- With two programs live, the end of the younger one leaves the older one
alone, with the keyboard and the processor. -/
theorem KernelInv.terminate_pair {k : Kernel} {first task : Nat}
    (h : KernelInv k [first, task]) :
    ∃ k', terminateCurrent k = .returned k' ∧ KernelInv k' [first] := by
  have hPair : KernelInv k (first :: ([] ++ [task])) := h
  obtain ⟨k', hReturned, hShape, hProcess, hRecords, hTable, hFocus, hCurrent⟩ :=
    hPair.terminate
  have hOther : first ≠ task := fun hSame => by
    have hOnce := h.shape.nodup
    rw [hSame] at hOnce
    simp at hOnce
  have hRest : TaskTable k' [first] := by
    refine h.table.ended (by simp) (fun t => ?_) hProcess hRecords hTable
    constructor
    · intro ht
      rw [List.mem_singleton.mp ht]
      exact ⟨by simp, hOther⟩
    · rintro ⟨hMem, hNot⟩
      simpa [hNot] using hMem
  have hHead : k.sched.taskHead = first := h.shape.head
  have hShell : k.processes 0 = k.sched.process first := by rw [h.first, hHead]
  have hZero : (0 : Nat) ≠ (k.records (k.sched.process task)).id := fun hSame => by
    rw [hSame, (h.owned task (by simp)).2.2.2] at hShell
    exact hOther (h.table.process_inj (by simp) (by simp) hShell.symm)
  refine ⟨k', hReturned, hShape, by rw [hCurrent]; rfl, hRest.owned, hRest.slots, ?_, ?_⟩
  · rw [hTable, Function.update_of_ne hZero, hShell, hProcess,
      show k'.sched.taskHead = first from hShape.head]
  · rw [hFocus, hProcess, hCurrent]
    rfl

/-! ### Runs -/

/-- A program may end while one other is live; with more of them the two
notions part. -/
theorem KernelInv.terminate_cases {k k' : Kernel} {live : List Nat} (h : KernelInv k live)
    (hReturned : terminateCurrent k = .returned k') :
    ((liveSlots k).length ≤ 2 ∧ ∃ live', KernelInv k' live') ∨
      (¬ (liveSlots k).length ≤ 2 ∧ ¬ FocusAgrees k') := by
  rw [h.table.liveSlots_length h.shape.nodup]
  rcases List.eq_nil_or_concat' live with rfl | ⟨front, task, rfl⟩
  · exact absurd h.current (by simp)
  cases front with
  | nil =>
      rw [h.terminate_last] at hReturned
      exact absurd hReturned (by simp)
  | cons first rest =>
      cases rest with
      | nil =>
          obtain ⟨after, hAfter, hInv⟩ := KernelInv.terminate_pair h
          rw [hAfter, Outcome.returned.injEq] at hReturned
          subst hReturned
          exact Or.inl ⟨by simp, _, hInv⟩
      | cons second others =>
          obtain ⟨after, hAfter, hShape, hProcess, _, _, hFocus, hCurrent⟩ := h.terminate
          rw [hAfter, Outcome.returned.injEq] at hReturned
          subst hReturned
          refine Or.inr ⟨by simp, fun hAgrees => ?_⟩
          rw [FocusAgrees, processCurrent, taskCurrent, hFocus, hCurrent, hProcess] at hAgrees
          have hSame : first = second := h.table.process_inj (by simp) (by simp) hAgrees
          have hOnce := h.shape.nodup
          rw [hSame] at hOnce
          simp at hOnce

/-- Every entry to the kernel from a state of the invariant either meets the
condition and keeps the invariant, or misses it and ends in disagreement. -/
theorem KernelInv.handle_cases {k k' : Kernel} {live : List Nat} {e : UserEvent}
    (h : KernelInv k live) (hPossible : e.Possible k) (hReturned : handle k e = .returned k') :
    (KeepsFocus k e ∧ ∃ live', KernelInv k' live') ∨ (¬ KeepsFocus k e ∧ ¬ FocusAgrees k') := by
  cases e with
  | exit => exact h.terminate_cases hReturned
  | exception => exact h.terminate_cases hReturned
  | processLoadStart copied a =>
      change isr80hCommand6ProcessLoadStart k copied a = _ at hReturned
      unfold isr80hCommand6ProcessLoadStart at hReturned
      by_cases hCopied : copied < 0
      · rw [if_pos hCopied, Outcome.returned.injEq] at hReturned
        subst hReturned
        exact Or.inl ⟨Or.inl hCopied, live, h⟩
      · rw [if_neg hCopied] at hReturned
        rcases h.loadSwitch hPossible with ⟨_, hLoad⟩ |
          ⟨hFits, _, res, process, after, hNegative, hLoad, hInv⟩ |
          ⟨hFits, _, after, hLoad, hTask, _, _, _, hInv⟩
        · simp only [hLoad] at hReturned
          exact absurd hReturned (by simp)
        · simp only [hLoad, if_pos hNegative, Outcome.returned.injEq] at hReturned
          subst hReturned
          exact Or.inl ⟨Or.inr hFits, live, hInv⟩
        · simp only [hLoad, Int.lt_irrefl, if_false, Outcome.returned.injEq, hTask] at hReturned
          subst hReturned
          exact Or.inl ⟨Or.inr hFits, _, hInv⟩
  | invokeSystemCommand named a inject =>
      change isr80hCommand7InvokeSystemCommand k named a inject = _ at hReturned
      unfold isr80hCommand7InvokeSystemCommand at hReturned
      cases named with
      | false =>
          rw [if_pos (by rfl), Outcome.returned.injEq] at hReturned
          subst hReturned
          exact Or.inl ⟨Or.inl rfl, live, h⟩
      | true =>
          rw [if_neg (by decide)] at hReturned
          rcases h.loadSwitch hPossible with ⟨_, hLoad⟩ |
            ⟨hFits, hFails, res, process, after, hNegative, hLoad, hInv⟩ |
            ⟨hFits, hDone, after, hLoad, hTask, hFocus, hCurrent, hOld, hInv⟩
          · simp only [hLoad] at hReturned
            exact absurd hReturned (by simp)
          · simp only [hLoad, if_pos hNegative, Outcome.returned.injEq] at hReturned
            subst hReturned
            exact Or.inl ⟨Or.inr ⟨hFits, fun hSucceeds => absurd hSucceeds hFails⟩, live, hInv⟩
          · simp only [hLoad, Int.lt_irrefl, if_false] at hReturned
            by_cases hInject : inject < 0
            · rw [if_pos hInject, Outcome.returned.injEq] at hReturned
              subst hReturned
              refine Or.inr ⟨?_, fun hAgrees => ?_⟩
              · rintro (hFalse | ⟨_, hInjected⟩)
                · exact absurd hFalse (by decide)
                · exact absurd (hInjected hDone) (by omega)
              · rw [FocusAgrees, processCurrent, taskCurrent, hFocus, hCurrent, hOld] at hAgrees
                exact h.table.process_fresh hPossible h.current_mem hAgrees.symm
            · simp only [if_neg hInject, Outcome.returned.injEq, hTask] at hReturned
              subst hReturned
              exact Or.inl ⟨Or.inr ⟨hFits, fun _ => by omega⟩, _, hInv⟩

/-- Ending a program never goes through a null pointer. -/
theorem KernelInv.terminate_defined {k : Kernel} {live : List Nat} (h : KernelInv k live) :
    terminateCurrent k ≠ .undefined := by
  rcases List.eq_nil_or_concat' live with rfl | ⟨front, task, rfl⟩
  · exact absurd h.current (by simp)
  cases front with
  | nil => simp [h.terminate_last]
  | cons first rest =>
      obtain ⟨after, hAfter, _⟩ := h.terminate
      simp [hAfter]

theorem KernelInv.handle_undefined {k : Kernel} {live : List Nat} {e : UserEvent}
    (h : KernelInv k live) (hPossible : e.Possible k) (hUndefined : handle k e = .undefined) :
    ¬ KeepsFocus k e := by
  cases e with
  | exit => exact absurd hUndefined h.terminate_defined
  | exception => exact absurd hUndefined h.terminate_defined
  | processLoadStart copied a =>
      change isr80hCommand6ProcessLoadStart k copied a = _ at hUndefined
      unfold isr80hCommand6ProcessLoadStart at hUndefined
      by_cases hCopied : copied < 0
      · rw [if_pos hCopied] at hUndefined
        exact absurd hUndefined (by simp)
      · rw [if_neg hCopied] at hUndefined
        rcases h.loadSwitch hPossible with ⟨hRefused, _⟩ |
          ⟨_, _, res, process, after, hNegative, hLoad, _⟩ | ⟨_, _, after, hLoad, _⟩
        · exact fun hKeeps => hKeeps.elim hCopied hRefused
        · simp only [hLoad, if_pos hNegative] at hUndefined
          exact absurd hUndefined (by simp)
        · simp only [hLoad, Int.lt_irrefl, if_false] at hUndefined
          exact absurd hUndefined (by simp)
  | invokeSystemCommand named a inject =>
      change isr80hCommand7InvokeSystemCommand k named a inject = _ at hUndefined
      unfold isr80hCommand7InvokeSystemCommand at hUndefined
      cases named with
      | false => exact absurd hUndefined (by simp)
      | true =>
          rw [if_neg (by decide)] at hUndefined
          rcases h.loadSwitch hPossible with ⟨hRefused, _⟩ |
            ⟨_, _, res, process, after, hNegative, hLoad, _⟩ | ⟨_, _, after, hLoad, _⟩
          · exact fun hKeeps => hKeeps.elim (by decide) fun hBoth => hRefused hBoth.1
          · simp only [hLoad, if_pos hNegative] at hUndefined
            exact absurd hUndefined (by simp)
          · simp only [hLoad, Int.lt_irrefl, if_false] at hUndefined
            split at hUndefined <;> exact absurd hUndefined (by simp)

/-- What one step that meets the condition preserves. -/
theorem KernelInv.step {k k' : Kernel} {live : List Nat} {e : UserEvent} (h : KernelInv k live)
    (hStep : Guarded KernelStep KeepsFocus k e k') : Consistent k' := by
  obtain ⟨hKeeps, hStep⟩ := hStep
  cases hStep with
  | returned hPossible hReturned =>
      rcases h.handle_cases hPossible hReturned with ⟨_, hInv⟩ | ⟨hMisses, _⟩
      · exact hInv
      · exact absurd hKeeps hMisses
  | undefined _ hPossible hUndefined =>
      exact absurd hKeeps (h.handle_undefined hPossible hUndefined)

/-- The shell is loaded into slot 0 and is the only task. -/
theorem Booted.inv {k : Kernel} (h : Booted k) : KernelInv k [k.sched.currentTask] := by
  obtain ⟨tasks, records, a, hMap, hReturned⟩ := h
  have hSlot : processGetFreeSlot ⟨⟨tasks, 0, 0, 0, []⟩, fun _ => 0, records, 0⟩ = some 0 := rfl
  have hShape : QueueShape ⟨tasks, 0, 0, 0, []⟩ [] :=
    ⟨by simp, List.nodup_nil, trivial, trivial, rfl, rfl⟩
  unfold kernelMain processLoadSwitch processLoad at hReturned
  simp only [hSlot, processLoadForSlot, Kernel.storeProcess] at hReturned
  by_cases hNull : a.process = 0
  · rw [if_pos hNull] at hReturned
    exact absurd hReturned (by simp)
  rw [if_neg hNull] at hReturned
  by_cases hData : a.data < 0
  · simp only [if_pos hData, if_pos (show a.data ≠ 0 by omega)] at hReturned
    exact absurd hReturned (by simp)
  rw [if_neg hData] at hReturned
  by_cases hStack : a.stack = 0
  · simp only [if_pos hStack, if_pos (show -enomem ≠ 0 by decide)] at hReturned
    exact absurd hReturned (by simp)
  rw [if_neg hStack] at hReturned
  cases hNew : taskNew ⟨tasks, 0, 0, 0, []⟩ a.task a.pageDirectory a.process a.ip with
  | none =>
      simp only [hNew] at hReturned
      exact absurd hReturned (by simp)
  | some sched =>
      obtain ⟨hQueue, hCurrent, hProcess⟩ := hShape.taskNew (by simp) hNew
      have hTask : sched.process a.task = a.process := by rw [hProcess, Function.update_self]
      have hHead : sched.taskHead = a.task := hQueue.head
      have hSome : sched.currentTask ≠ 0 := by
        rw [hCurrent, if_pos rfl]
        exact fun hZero => hQueue.null (by simp [hZero])
      simp only [hNew] at hReturned
      by_cases hFails : a.map < 0
      · simp only [if_pos hFails, if_pos (show a.map ≠ 0 by omega)] at hReturned
        exact absurd hReturned (by simp)
      have hZero : a.map = 0 := by omega
      rw [if_neg hFails] at hReturned
      simp only [hZero, ne_eq, not_true_eq_false, if_false, if_true, taskRunFirstEverTask,
        taskCurrent, processSwitch, if_neg hSome, Outcome.returned.injEq] at hReturned
      have hSched : k.sched = taskSwitch sched sched.taskHead :=
        (congrArg Kernel.sched hReturned).symm
      have hTable : k.processes = Function.update (fun _ => 0) 0 a.process :=
        (congrArg Kernel.processes hReturned).symm
      have hFocus : k.currentProcess = a.process := (congrArg Kernel.currentProcess hReturned).symm
      have hRecord : k.records a.process = { processInit with id := 0, task := a.task } := by
        rw [← congrArg Kernel.records hReturned]
        exact Function.update_self _ _ _
      have hEntry : k.processes 0 = a.process := by rw [hTable, Function.update_self]
      have hOwner : k.sched.process a.task = a.process := by
        rw [hSched]
        exact hTask
      have hFirst : k.sched.taskHead = a.task := by
        rw [hSched]
        exact hHead
      have hRunning : k.sched.currentTask = a.task := by
        rw [hSched]
        exact hHead
      rw [hRunning]
      refine ⟨by rw [hSched]; exact hQueue.switch _, by simp [hRunning], fun t ht => ?_,
        fun i hi hUsed => ?_, by rw [hEntry, hFirst, hOwner], by rw [hFocus, hRunning, hOwner]⟩
      · rw [List.mem_singleton.mp ht, hOwner, hRecord]
        exact ⟨hNull, rfl, (by decide : 0 < liebeOsMaxProcesses), hEntry⟩
      · have hi0 : i = 0 := by
          by_contra hOther
          rw [hTable, Function.update_of_ne hOther] at hUsed
          exact hUsed rfl
        rw [hi0, hEntry, hRecord]
        exact ⟨rfl, by simp, hOwner⟩

theorem Booted.consistent {k : Kernel} (h : Booted k) : Consistent k := ⟨_, h.inv⟩

/-- In every run whose entries to the kernel all meet the condition, the
keyboard belongs to the running process in every state; and from each of these
states an entry that returns keeps it so only if it meets the condition. -/
theorem kernelRun_focus {start k : Kernel} {events : List UserEvent} (hBoot : Booted start)
    (run : Run (Guarded KernelStep KeepsFocus) start events k) :
    FocusAgrees k ∧ ∀ e k', e.Possible k → handle k e = .returned k' →
      (FocusAgrees k' ↔ KeepsFocus k e) := by
  obtain ⟨live, hInv⟩ : Consistent k :=
    run.invariant hBoot.consistent fun _ _ _ ⟨_, h⟩ hStep => h.step hStep
  refine ⟨hInv.focus, fun e k' hPossible hReturned => ?_⟩
  rcases hInv.handle_cases hPossible hReturned with ⟨hKeeps, _, hAfter⟩ | ⟨hMisses, hParted⟩
  · exact ⟨fun _ => hKeeps, fun _ => hAfter.focus⟩
  · exact ⟨fun hAgrees => absurd hAgrees hParted, fun hKeeps => absurd hKeeps hMisses⟩

/-- The shell starts a program and the program exits. -/
theorem kernelRun_focus_one_program :
    ∃ start k, Booted start ∧ Run (Guarded KernelStep KeepsFocus) start
        [.processLoadStart 0 ⟨40960, 0, 53248, 69632, 73728, 0x400000, 0⟩, .exit] k ∧
      FocusAgrees k := by
  let shell : LoadAnswers := ⟨4096, 0, 16384, 32768, 36864, 0x400000, 0⟩
  obtain ⟨start, hBoot, k, run⟩ : ∃ start, Booted start ∧
      ∃ k, Run (Guarded KernelStep KeepsFocus) start
        [.processLoadStart 0 ⟨40960, 0, 53248, 69632, 73728, 0x400000, 0⟩, .exit] k :=
    ⟨_, ⟨fun _ => taskInit 0 0 0, fun _ => processInit, shell, by decide, rfl⟩, _,
      Run.snoc (Run.single ⟨Or.inr (Or.inr ⟨by decide, Or.inr (Or.inr ⟨by decide, by decide⟩)⟩),
          KernelStep.returned ⟨by decide, by decide, by decide⟩ rfl⟩)
        ⟨by unfold KeepsFocus; decide, KernelStep.returned trivial rfl⟩⟩
  exact ⟨start, k, hBoot, run, (kernelRun_focus hBoot run).1⟩

/-- The shell invokes a command whose arguments cannot be injected: the
keyboard goes to the new process, but the shell goes on running. -/
theorem kernelRun_focus_parts :
    ¬ ∀ (start k : Kernel) (events : List UserEvent), Booted start →
      Run KernelStep start events k → FocusAgrees k := by
  intro hClaim
  let shell : LoadAnswers := ⟨4096, 0, 16384, 32768, 36864, 0x400000, 0⟩
  let program : LoadAnswers := ⟨40960, 0, 53248, 69632, 73728, 0x400000, 0⟩
  obtain ⟨start, hBoot, k, run, hParted⟩ : ∃ start, Booted start ∧
      ∃ k, Run KernelStep start [.invokeSystemCommand true program (-enomem)] k ∧
        ¬ FocusAgrees k :=
    ⟨_, ⟨fun _ => taskInit 0 0 0, fun _ => processInit, shell, by decide, rfl⟩, _,
      Run.single (KernelStep.returned (e := .invokeSystemCommand true program (-enomem))
        ⟨by decide, by decide, by decide⟩ rfl), by unfold FocusAgrees; decide⟩
  exact hParted (hClaim start k _ hBoot run)

end LiebeOS
