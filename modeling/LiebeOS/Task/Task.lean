import Mathlib.Logic.Function.Basic
import Mathlib.Tactic.Common

/-! The run queue of `task.c`: task records by address, the list pointers and
the current task. A freed record keeps its contents, as memory does. -/
namespace LiebeOS

structure Registers where
  edi : Nat
  esi : Nat
  ebp : Nat
  ebx : Nat
  edx : Nat
  ecx : Nat
  eax : Nat
  ip : Nat
  cs : Nat
  flags : Nat
  esp : Nat
  ss : Nat

structure Task where
  pageDirectory : Nat
  registers : Registers
  process : Nat
  next : Nat
  prev : Nat

/-- `written` lists the records that a link field was stored to. It is not
part of the C state; it makes a store to a freed record visible. -/
structure Scheduler where
  tasks : Nat → Task
  taskHead : Nat
  taskTail : Nat
  currentTask : Nat
  written : List Nat

def userDataSegment : Nat := 0x23
def userCodeSegment : Nat := 0x1b
def liebeOsProgramVirtualStackAddressStart : Nat := 0x3FF000

/-- The record that `task_init` leaves behind. `ip` is the entry point of an
ELF program, or the fixed address of a flat one. -/
def taskInit (pageDirectory process ip : Nat) : Task :=
  { pageDirectory := pageDirectory
    registers :=
      { edi := 0, esi := 0, ebp := 0, ebx := 0, edx := 0, ecx := 0, eax := 0, flags := 0
        ip := ip
        cs := userCodeSegment
        esp := liebeOsProgramVirtualStackAddressStart
        ss := userDataSegment }
    process := process
    next := 0
    prev := 0 }

/-- A store to the record at address `task`. -/
def Scheduler.store (s : Scheduler) (task : Nat) (record : Task) : Scheduler :=
  { s with tasks := Function.update s.tasks task record, written := task :: s.written }

/-- `task->next = next` -/
def Scheduler.setNext (s : Scheduler) (task next : Nat) : Scheduler :=
  s.store task { s.tasks task with next := next }

/-- `task->prev = prev` -/
def Scheduler.setPrev (s : Scheduler) (task prev : Nat) : Scheduler :=
  s.store task { s.tasks task with prev := prev }

/-- `task` and `pageDirectory` are the answers of the allocator. When either
is null the error exit frees through it, and nothing is known afterwards. -/
def taskNew (s : Scheduler) (task pageDirectory process ip : Nat) : Option Scheduler :=
  if task = 0 ∨ pageDirectory = 0 then none
  else
    let s := s.store task (taskInit pageDirectory process ip)
    if s.taskHead = 0 then
      some { s with taskHead := task, taskTail := task, currentTask := task }
    else
      let s := s.setNext s.taskTail task
      let s := s.setPrev task s.taskTail
      some { s with taskTail := task }

def taskGetNext (s : Scheduler) : Nat :=
  if (s.tasks s.currentTask).next = 0 then s.taskHead else (s.tasks s.currentTask).next

/-- `task->prev->next = task->next`, when there is a task in front. -/
def taskUnlink (s : Scheduler) (task : Nat) : Scheduler :=
  if (s.tasks task).prev ≠ 0 then s.setNext (s.tasks task).prev (s.tasks task).next else s

def taskListRemove (s : Scheduler) (task : Nat) : Scheduler :=
  let s := taskUnlink s task
  let s := { s with taskHead := if task = s.taskHead then (s.tasks task).next else s.taskHead }
  let s := { s with taskTail := if task = s.taskTail then (s.tasks task).prev else s.taskTail }
  { s with currentTask := if task = s.currentTask then taskGetNext s else s.currentTask }

/-- What freeing a task does to the queue. The page tables and the record go
back to the heap, which does not change what is stored in them. -/
def taskFree (s : Scheduler) (task : Nat) : Scheduler := taskListRemove s task

def taskSwitch (s : Scheduler) (task : Nat) : Scheduler := { s with currentTask := task }

/-- Switches to the next task. Without one the kernel panics. -/
def taskNext (s : Scheduler) : Option Scheduler :=
  if taskGetNext s = 0 then none else some (taskSwitch s (taskGetNext s))

/-! ### The fields after a store -/

def Scheduler.next (s : Scheduler) (task : Nat) : Nat := (s.tasks task).next
def Scheduler.prev (s : Scheduler) (task : Nat) : Nat := (s.tasks task).prev
def Scheduler.process (s : Scheduler) (task : Nat) : Nat := (s.tasks task).process

/-- One field of the records, before and after a store. -/
theorem update_field {α : Type} (field : Task → α) (tasks : Nat → Task) (task : Nat)
    (record : Task) :
    (fun a => field (Function.update tasks task record a)) =
      Function.update (fun a => field (tasks a)) task (field record) := by
  funext a
  by_cases ha : a = task
  · rw [ha, Function.update_self, Function.update_self]
  · rw [Function.update_of_ne ha, Function.update_of_ne ha]

@[simp] theorem Scheduler.store_next (s : Scheduler) (task : Nat) (record : Task) :
    (s.store task record).next = Function.update s.next task record.next :=
  update_field Task.next s.tasks task record

@[simp] theorem Scheduler.store_prev (s : Scheduler) (task : Nat) (record : Task) :
    (s.store task record).prev = Function.update s.prev task record.prev :=
  update_field Task.prev s.tasks task record

@[simp] theorem Scheduler.store_process (s : Scheduler) (task : Nat) (record : Task) :
    (s.store task record).process = Function.update s.process task record.process :=
  update_field Task.process s.tasks task record

@[simp] theorem Scheduler.setNext_next (s : Scheduler) (task v : Nat) :
    (s.setNext task v).next = Function.update s.next task v :=
  s.store_next task _

@[simp] theorem Scheduler.setNext_prev (s : Scheduler) (task v : Nat) :
    (s.setNext task v).prev = s.prev :=
  (s.store_prev task _).trans (Function.update_eq_self task s.prev)

@[simp] theorem Scheduler.setNext_process (s : Scheduler) (task v : Nat) :
    (s.setNext task v).process = s.process :=
  (s.store_process task _).trans (Function.update_eq_self task s.process)

@[simp] theorem Scheduler.setPrev_next (s : Scheduler) (task v : Nat) :
    (s.setPrev task v).next = s.next :=
  (s.store_next task _).trans (Function.update_eq_self task s.next)

@[simp] theorem Scheduler.setPrev_prev (s : Scheduler) (task v : Nat) :
    (s.setPrev task v).prev = Function.update s.prev task v :=
  s.store_prev task _

@[simp] theorem Scheduler.setPrev_process (s : Scheduler) (task v : Nat) :
    (s.setPrev task v).process = s.process :=
  (s.store_process task _).trans (Function.update_eq_self task s.process)

/-! ### What a new task does to the queue -/

/-- The scheduler after a task was appended to a queue that is not empty. -/
structure Appended (s : Scheduler) (task process : Nat) (s' : Scheduler) : Prop where
  next : s'.next = Function.update (Function.update s.next task 0) s.taskTail task
  prev : s'.prev = Function.update (Function.update s.prev task 0) task s.taskTail
  process : s'.process = Function.update s.process task process
  head : s'.taskHead = s.taskHead
  tail : s'.taskTail = task
  current : s'.currentTask = s.currentTask

section Tasks

variable {s s' : Scheduler} {task process : Nat}

/-- The first task of an empty queue. -/
theorem taskNew_first {pageDirectory ip : Nat} (hHead : s.taskHead = 0)
    (hNew : taskNew s task pageDirectory process ip = some s') :
    task ≠ 0 ∧ s'.next = Function.update s.next task 0 ∧
      s'.prev = Function.update s.prev task 0 ∧
      s'.process = Function.update s.process task process ∧
      s'.taskHead = task ∧ s'.taskTail = task ∧ s'.currentTask = task := by
  unfold taskNew at hNew
  by_cases hNull : task = 0 ∨ pageDirectory = 0
  · rw [if_pos hNull] at hNew
    exact absurd hNew (by simp)
  · rw [if_neg hNull] at hNew
    dsimp only at hNew
    rw [if_pos (show (s.store task (taskInit pageDirectory process ip)).taskHead = 0 from hHead),
      Option.some.injEq] at hNew
    subst hNew
    exact ⟨(not_or.mp hNull).1, s.store_next task _, s.store_prev task _, s.store_process task _,
      rfl, rfl, rfl⟩

theorem taskNew_appended {pageDirectory ip : Nat} (hHead : s.taskHead ≠ 0)
    (hNew : taskNew s task pageDirectory process ip = some s') :
    task ≠ 0 ∧ Appended s task process s' := by
  unfold taskNew at hNew
  by_cases hNull : task = 0 ∨ pageDirectory = 0
  · rw [if_pos hNull] at hNew
    exact absurd hNew (by simp)
  · rw [if_neg hNull] at hNew
    dsimp only at hNew
    rw [if_neg (show (s.store task (taskInit pageDirectory process ip)).taskHead ≠ 0 from hHead),
      Option.some.injEq] at hNew
    subst hNew
    refine ⟨(not_or.mp hNull).1, ?_, ?_, ?_, rfl, rfl, rfl⟩
    · refine (Scheduler.setPrev_next _ _ _).trans ((Scheduler.setNext_next _ _ _).trans ?_)
      rw [Scheduler.store_next]
      rfl
    · refine (Scheduler.setPrev_prev _ _ _).trans ?_
      rw [Scheduler.setNext_prev, Scheduler.store_prev]
      rfl
    · refine (Scheduler.setPrev_process _ _ _).trans ((Scheduler.setNext_process _ _ _).trans ?_)
      exact s.store_process task _

/-- A store to a link changes no other field of a record. -/
theorem Scheduler.store_field {α : Type} {field : Task → α} {record : Task} (s : Scheduler)
    (hField : field record = field (s.tasks task)) (a : Nat) :
    field ((s.store task record).tasks a) = field (s.tasks a) := by
  change field (Function.update s.tasks task record a) = field (s.tasks a)
  by_cases ha : a = task
  · rw [ha, Function.update_self, hField]
  · rw [Function.update_of_ne ha]

/-- The record of a new task is as `task_init` has left it, up to its links. -/
theorem taskNew_field {α : Type} (field : Task → α) {pageDirectory ip : Nat}
    (hNext : ∀ record next, field { record with next := next } = field record)
    (hPrev : ∀ record prev, field { record with prev := prev } = field record)
    (hNew : taskNew s task pageDirectory process ip = some s') :
    field (s'.tasks task) = field (taskInit pageDirectory process ip) := by
  have hFirst : field ((s.store task (taskInit pageDirectory process ip)).tasks task) =
      field (taskInit pageDirectory process ip) := congrArg field (Function.update_self ..)
  unfold taskNew at hNew
  by_cases hNull : task = 0 ∨ pageDirectory = 0
  · rw [if_pos hNull] at hNew
    cases hNew
  rw [if_neg hNull] at hNew
  dsimp only at hNew
  generalize s.store task (taskInit pageDirectory process ip) = s₁ at hFirst hNew
  split_ifs at hNew
  · obtain rfl := Option.some.inj hNew
    exact hFirst
  · obtain rfl := Option.some.inj hNew
    refine ((s₁.setNext s₁.taskTail task).store_field (hPrev _ _) task).trans ?_
    exact (s₁.store_field (hNext _ _) task).trans hFirst

/-- The records of the other tasks are as before, up to their links. -/
theorem taskNew_others {α : Type} (field : Task → α) {pageDirectory ip a : Nat}
    (hNext : ∀ record next, field { record with next := next } = field record)
    (hPrev : ∀ record prev, field { record with prev := prev } = field record)
    (hNew : taskNew s task pageDirectory process ip = some s') (ha : a ≠ task) :
    field (s'.tasks a) = field (s.tasks a) := by
  have hFirst : field ((s.store task (taskInit pageDirectory process ip)).tasks a) =
      field (s.tasks a) := congrArg field (Function.update_of_ne ha _ _)
  unfold taskNew at hNew
  by_cases hNull : task = 0 ∨ pageDirectory = 0
  · rw [if_pos hNull] at hNew
    cases hNew
  rw [if_neg hNull] at hNew
  dsimp only at hNew
  generalize s.store task (taskInit pageDirectory process ip) = s₁ at hFirst hNew
  split_ifs at hNew
  · obtain rfl := Option.some.inj hNew
    exact hFirst
  · obtain rfl := Option.some.inj hNew
    refine ((s₁.setNext s₁.taskTail task).store_field (hPrev _ _) a).trans ?_
    exact (s₁.store_field (hNext _ _) a).trans hFirst

end Tasks

/-! ### What a removal does, and what it leaves alone -/

/-- Removing a task stores to links alone. -/
theorem taskFree_others {α : Type} (field : Task → α)
    (hNext : ∀ record next, field { record with next := next } = field record) (s : Scheduler)
    (task a : Nat) : field ((taskFree s task).tasks a) = field (s.tasks a) := by
  change field ((taskUnlink s task).tasks a) = field (s.tasks a)
  unfold taskUnlink
  split
  · exact s.store_field (hNext _ _) a
  · rfl

theorem taskUnlink_pointers (s : Scheduler) (task : Nat) :
    (taskUnlink s task).taskHead = s.taskHead ∧ (taskUnlink s task).taskTail = s.taskTail ∧
      (taskUnlink s task).currentTask = s.currentTask := by
  unfold taskUnlink
  split <;> exact ⟨rfl, rfl, rfl⟩

/-- Removing a task stores to no back link and to no process link. -/
theorem taskFree_fields (s : Scheduler) (task : Nat) :
    (taskFree s task).prev = s.prev ∧ (taskFree s task).process = s.process := by
  change (taskUnlink s task).prev = s.prev ∧ (taskUnlink s task).process = s.process
  unfold taskUnlink
  split
  · exact ⟨s.setNext_prev _ _, s.setNext_process _ _⟩
  · exact ⟨rfl, rfl⟩

theorem taskFree_next (s : Scheduler) (task : Nat) : (taskFree s task).next =
    if s.prev task ≠ 0 then Function.update s.next (s.prev task) (s.next task) else s.next := by
  change (taskUnlink s task).next = _
  unfold taskUnlink
  change (if s.prev task ≠ 0 then s.setNext (s.prev task) (s.next task) else s).next = _
  split
  · exact s.setNext_next _ _
  · rfl

theorem taskFree_head (s : Scheduler) (task : Nat) : (taskFree s task).taskHead =
    if task = s.taskHead then (taskFree s task).next task else s.taskHead := by
  rw [← (taskUnlink_pointers s task).1]
  rfl

theorem taskFree_tail (s : Scheduler) (task : Nat) : (taskFree s task).taskTail =
    if task = s.taskTail then s.prev task else s.taskTail := by
  rw [← (taskFree_fields s task).1, ← (taskUnlink_pointers s task).2.1]
  rfl

theorem taskFree_current (s : Scheduler) (task : Nat) : (taskFree s task).currentTask =
    if task = s.currentTask then
      if (taskFree s task).next task = 0 then (taskFree s task).taskHead
      else (taskFree s task).next task
    else s.currentTask := by
  have hCurrent := (taskUnlink_pointers s task).2.2
  change (if task = (taskUnlink s task).currentTask then
      (if (taskUnlink s task).next (taskUnlink s task).currentTask = 0 then
        (taskFree s task).taskHead
      else (taskUnlink s task).next (taskUnlink s task).currentTask)
    else (taskUnlink s task).currentTask) = _
  rw [hCurrent]
  by_cases hRunning : task = s.currentTask
  · rw [if_pos hRunning, if_pos hRunning, ← hRunning]
    rfl
  · rw [if_neg hRunning, if_neg hRunning]

/-- A removed task keeps its own link: a back link to itself stores it again. -/
theorem taskFree_next_self (s : Scheduler) (task : Nat) :
    (taskFree s task).next task = s.next task := by
  rw [taskFree_next]
  by_cases hFirst : s.prev task ≠ 0
  · rw [if_pos hFirst]
    by_cases hSelf : s.prev task = task
    · rw [hSelf, Function.update_self]
    · exact Function.update_of_ne (Ne.symm hSelf) _ _
  · rw [if_neg hFirst]

/-- The only record that is stored to is the one in front. -/
theorem taskFree_written (s : Scheduler) (task : Nat) {a : Nat} (ha : a ∈ (taskFree s task).written) :
    a ∈ s.written ∨ (a = s.prev task ∧ a ≠ 0) := by
  change a ∈ (taskUnlink s task).written at ha
  unfold taskUnlink at ha
  by_cases hFirst : (s.tasks task).prev ≠ 0
  · rw [if_pos hFirst] at ha
    rcases List.mem_cons.mp ha with rfl | hOld
    · exact Or.inr ⟨rfl, hFirst⟩
    · exact Or.inl hOld
  · rw [if_neg hFirst] at ha
    exact Or.inl ha

end LiebeOS
