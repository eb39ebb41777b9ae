import Mathlib.Data.List.Basic
import LiebeOS.Lib.LinkedQueue
import LiebeOS.Lib.Run
import LiebeOS.Task.Task

/-! The shape of the run queue and how it is kept. A removal repairs the link
of the record in front of the removed one, but never the back link of the
record behind it. -/
namespace LiebeOS

open LinkedQueue Transition

/-- The scheduler's links hold exactly the tasks of `live`, in that order. -/
structure QueueShape (s : Scheduler) (live : List Nat) : Prop where
  null : 0 ∉ live
  nodup : live.Nodup
  next : NextLinks s.next live
  prev : PrevLinks s.prev 0 live
  head : s.taskHead = live.headD 0
  tail : s.taskTail = live.getLastD 0

theorem headD_mem_or {l : List Nat} : l.headD 0 = 0 ∧ l = [] ∨ l.headD 0 ∈ l := by
  cases l with
  | nil => exact Or.inl ⟨rfl, rfl⟩
  | cons a _ => exact Or.inr (by simp)

/-- Appending a fresh task. The current task changes only when there was none. -/
theorem QueueShape.taskNew {s s' : Scheduler} {live : List Nat} {task pageDirectory process ip : Nat}
    (h : QueueShape s live) (hFresh : task ∉ live)
    (hNew : taskNew s task pageDirectory process ip = some s') :
    QueueShape s' (live ++ [task]) ∧
      s'.currentTask = (if live = [] then task else s.currentTask) ∧
      s'.process = Function.update s.process task process := by
  have hOld : ∀ a ∈ live, a ≠ task := fun a ha hSame => hFresh (by rwa [← hSame])
  have hNodup : (live ++ [task]).Nodup :=
    List.nodup_append.mpr ⟨h.nodup, by simp, fun a ha b hb => by
      rw [List.mem_singleton.mp hb]
      exact hOld a ha⟩
  rcases List.eq_nil_or_concat' live with rfl | ⟨front, last, rfl⟩
  · obtain ⟨hTask, hNext, hPrev, hProcess, hHead, hTail, hCurrent⟩ := taskNew_first h.head hNew
    refine ⟨⟨?_, hNodup, ⟨?_, trivial⟩, ⟨?_, trivial⟩, hHead, hTail⟩, hCurrent, hProcess⟩
    · simpa using Ne.symm hTask
    · rw [hNext, Function.update_self]
      rfl
    · rw [hPrev, Function.update_self]
  · have hSome : s.taskHead ≠ 0 := fun hNone => h.null (by
      rcases headD_mem_or (l := front ++ [last]) with ⟨_, hEmpty⟩ | hMem
      · exact absurd hEmpty (by simp)
      · rwa [← h.head, hNone] at hMem)
    have hTail : s.taskTail = last := by
      rw [h.tail]
      simp
    have hBehind : last ∉ front := fun hMem =>
      (List.nodup_append.mp h.nodup).2.2 last hMem last (by simp) rfl
    obtain ⟨hTask, hAppended⟩ := taskNew_appended hSome hNew
    have hNext := hAppended.next
    have hPrev := hAppended.prev
    rw [hTail] at hNext hPrev
    refine ⟨⟨?_, hNodup, ?_, ?_, ?_, ?_⟩, ?_, hAppended.process⟩
    · simp only [List.mem_append, List.mem_singleton, not_or]
      exact ⟨by simpa using h.null, Ne.symm hTask⟩
    · have hForward : NextLinks (Function.update s.next task 0) (front ++ [last]) :=
        h.next.congr fun a ha => Function.update_of_ne (hOld a ha) _ _
      have hEnd : NextLinks (Function.update s.next task 0) [task] :=
        ⟨Function.update_self task 0 _, trivial⟩
      rw [hNext, List.append_assoc]
      exact hForward.relink hEnd hBehind (by simpa using hOld last (by simp))
    · refine prevLinks_concat.mpr ⟨h.prev.congr fun a ha => ?_, ?_⟩
      · rw [hPrev, Function.update_of_ne (hOld a ha), Function.update_of_ne (hOld a ha)]
      · rw [hPrev, Function.update_self]
        simp
    · rw [hAppended.head, h.head]
      cases front <;> rfl
    · rw [hAppended.tail]
      simp
    · rw [hAppended.current, if_neg (by simp)]

theorem QueueShape.switch {s : Scheduler} {live : List Nat} (h : QueueShape s live) (task : Nat) :
    QueueShape (taskSwitch s task) live :=
  ⟨h.null, h.nodup, h.next, h.prev, h.head, h.tail⟩

/-- Removing the last task. Its record is not looked at again: the queue, the
back links and every process link are those of the remaining tasks. -/
theorem QueueShape.taskFree_last {s : Scheduler} {live : List Nat} {task : Nat}
    (h : QueueShape s (live ++ [task])) :
    QueueShape (taskFree s task) live ∧
      (taskFree s task).currentTask =
        (if s.currentTask = task then live.headD 0 else s.currentTask) ∧
      ∀ a ∈ (taskFree s task).written, a ∈ s.written ∨ a ∈ live := by
  have hNull : task ≠ 0 := fun hZero => h.null (by simp [hZero])
  have hApart : ∀ a ∈ live, a ≠ task := fun a ha =>
    (List.nodup_append.mp h.nodup).2.2 a ha task (by simp)
  have hLinks : s.next task = 0 := h.next.drop.1
  have hBack : s.prev task = live.getLastD 0 := (prevLinks_concat.mp h.prev).2
  have hTail : task = s.taskTail := by rw [h.tail]; simp
  have hNodup : live.Nodup := (List.nodup_append.mp h.nodup).1
  have hZero : 0 ∉ live := fun hMem => h.null (by simp [hMem])
  have hUnlinked : (taskFree s task).next task = 0 := (taskFree_next_self s task).trans hLinks
  have hHead : (taskFree s task).taskHead = live.headD 0 := by
    rw [taskFree_head, hUnlinked, h.head]
    cases live with
    | nil => exact if_pos rfl
    | cons a rest => exact if_neg (Ne.symm (hApart a (by simp)))
  refine ⟨⟨hZero, hNodup, ?_, ?_, hHead, ?_⟩, ?_, fun a ha => ?_⟩
  · rcases List.eq_nil_or_concat' live with rfl | ⟨front, last, rfl⟩
    · trivial
    · have hFront : last ≠ 0 := fun hSame => hZero (by simp [hSame])
      have hBehind : last ∉ front := fun hMem =>
        (List.nodup_append.mp hNodup).2.2 last hMem last (by simp) rfl
      have hWhole : NextLinks s.next (front ++ last :: [task]) := by simpa using h.next
      have hEnd : NextLinks s.next [] := trivial
      rw [show (front ++ [last]).getLastD 0 = last by simp] at hBack
      rw [taskFree_next, hBack, if_pos hFront, hLinks]
      exact hWhole.relink hEnd hBehind (by simp)
  · rw [(taskFree_fields s task).1]
    exact (prevLinks_concat.mp h.prev).1
  · rw [taskFree_tail, if_pos hTail, hBack]
  · rw [taskFree_current, hUnlinked, if_pos rfl, hHead]
    exact if_congr eq_comm rfl rfl
  · refine (taskFree_written s task ha).imp id fun ⟨hFront, hSome⟩ => ?_
    rw [hBack] at hFront
    rcases List.eq_nil_or_concat' live with rfl | ⟨front, last, rfl⟩
    · exact absurd hFront hSome
    · rw [hFront]
      simp

/-! ### Runs -/

/-- The scheduler together with the tasks that are live, in the order of their
creation, and the freed records that `task_free` has stored to. -/
structure TaskRun where
  sched : Scheduler
  live : List Nat
  stray : List Nat

inductive TaskEvent where
  | new (task pageDirectory process ip : Nat)
  | free (task : Nat)
  | switch (task : Nat)

/-- The records outside `live` that freeing `task` stores to. -/
def strayWrites (s : Scheduler) (live : List Nat) (task : Nat) : List Nat :=
  (taskFree { s with written := [] } task).written.filter fun a => a ∉ live

/-- One call that succeeds. The allocator never hands out the address of a
live record; freed and current tasks are live when they are passed on. -/
inductive TaskStep : TaskRun → TaskEvent → TaskRun → Prop where
  | new (r : TaskRun) (task pageDirectory process ip : Nat) (sched : Scheduler)
      (hFresh : task ∉ r.live)
      (hNew : taskNew r.sched task pageDirectory process ip = some sched) :
      TaskStep r (.new task pageDirectory process ip) ⟨sched, r.live ++ [task], r.stray⟩
  | free (r : TaskRun) (task : Nat) (hLive : task ∈ r.live) :
      TaskStep r (.free task) ⟨taskFree r.sched task, r.live.erase task,
        r.stray ++ strayWrites r.sched r.live task⟩
  | switch (r : TaskRun) (task : Nat) (hLive : task ∈ r.live) :
      TaskStep r (.switch task) ⟨taskSwitch r.sched task, r.live, r.stray⟩

/-- The state at boot: no task, and records with any contents. -/
def taskBoot (tasks : Nat → Task) : TaskRun := ⟨⟨tasks, 0, 0, 0, []⟩, [], []⟩

/-- Every pointer the scheduler keeps. -/
def TaskRun.pointers (r : TaskRun) : List Nat :=
  r.sched.taskHead :: r.sched.taskTail :: r.sched.currentTask ::
    r.live.flatMap fun task => [r.sched.next task, r.sched.prev task]

structure QueueWellFormed (r : TaskRun) : Prop where
  visits : ∀ n, r.live.length ≤ n → follow r.sched.next n r.sched.taskHead = r.live
  once : r.live.Nodup
  notNull : 0 ∉ r.live
  nextLinks : NextLinks r.sched.next r.live
  prevLinks : PrevLinks r.sched.prev 0 r.live
  tail : r.sched.taskTail = r.live.getLastD 0
  noneFreed : ∀ a ∈ r.pointers, a = 0 ∨ a ∈ r.live
  current : (r.live = [] ∧ r.sched.currentTask = 0) ∨ r.sched.currentTask ∈ r.live
  noStray : r.stray = []

/-- A task may be freed when it is the last of the queue. -/
def FreesLast (r : TaskRun) : TaskEvent → Prop
  | .free task => r.live.getLast? = some task
  | _ => True

/-- The invariant of a run whose removals are all of this kind. -/
structure QueueInv (r : TaskRun) : Prop where
  shape : QueueShape r.sched r.live
  current : (r.live = [] ∧ r.sched.currentTask = 0) ∨ r.sched.currentTask ∈ r.live
  noStray : r.stray = []

theorem QueueInv.wellFormed {r : TaskRun} (h : QueueInv r) : QueueWellFormed r where
  visits n hLong := by
    rw [h.shape.head]
    exact follow_nextLinks h.shape.next h.shape.null hLong
  once := h.shape.nodup
  notNull := h.shape.null
  nextLinks := h.shape.next
  prevLinks := h.shape.prev
  tail := h.shape.tail
  noneFreed a ha := by
    simp only [TaskRun.pointers, List.mem_cons, List.mem_flatMap, List.not_mem_nil, or_false] at ha
    rcases ha with rfl | rfl | rfl | ⟨task, hTask, rfl | rfl⟩
    · rw [h.shape.head]
      exact headD_mem_or.imp And.left id
    · rw [h.shape.tail]
      rcases List.eq_nil_or_concat' r.live with hEmpty | ⟨front, last, hLive⟩
      · exact Or.inl (by rw [hEmpty]; rfl)
      · exact Or.inr (by simp [hLive])
    · exact h.current.imp And.right id
    · exact h.shape.next.mem hTask
    · exact h.shape.prev.mem hTask
  current := h.current
  noStray := h.noStray

/-- What one step preserves. -/
theorem QueueInv.step {r r' : TaskRun} {e : TaskEvent} (h : QueueInv r)
    (hStep : Guarded TaskStep FreesLast r e r') : QueueInv r' := by
  obtain ⟨hLast, hStep⟩ := hStep
  cases hStep with
  | new task pageDirectory process ip sched hFresh hNew =>
      obtain ⟨hShape, hCurrent, _⟩ := h.shape.taskNew hFresh hNew
      refine ⟨hShape, Or.inr ?_, h.noStray⟩
      rw [hCurrent]
      split
      · simp
      · rcases h.current with ⟨hEmpty, _⟩ | hLive
        · contradiction
        · exact List.mem_append_left _ hLive
  | free task hLive =>
      obtain ⟨front, hFront⟩ := List.getLast?_eq_some_iff.mp hLast
      have hShape := h.shape
      rw [hFront] at hShape
      obtain ⟨hAfter, hCurrent, _⟩ := hShape.taskFree_last
      have hFresh : task ∉ front := fun hMem =>
        (List.nodup_append.mp hShape.nodup).2.2 task hMem task (by simp) rfl
      have hErase : r.live.erase task = front := by
        rw [hFront, List.erase_append_right _ hFresh, List.erase_cons_head, List.append_nil]
      have hStray : strayWrites r.sched r.live task = [] := by
        have hShape' : QueueShape { r.sched with written := [] } (front ++ [task]) :=
          ⟨hShape.null, hShape.nodup, hShape.next, hShape.prev, hShape.head, hShape.tail⟩
        refine List.filter_eq_nil_iff.mpr fun a ha => ?_
        rcases hShape'.taskFree_last.2.2 a ha with hOld | hMem
        · exact absurd hOld (by simp)
        · simp [hFront, hMem]
      refine ⟨?_, ?_, ?_⟩
      · change QueueShape (taskFree r.sched task) (r.live.erase task)
        rwa [hErase]
      · change (r.live.erase task = [] ∧ (taskFree r.sched task).currentTask = 0) ∨
          (taskFree r.sched task).currentTask ∈ r.live.erase task
        rw [hErase, hCurrent]
        split
        · exact headD_mem_or.imp And.symm id
        · rcases h.current with ⟨hEmpty, _⟩ | hMem
          · exact absurd hLive (by simp [hEmpty])
          · rw [hFront] at hMem
            rcases List.mem_append.mp hMem with hMem | hMem
            · exact Or.inr hMem
            · exact absurd (List.mem_singleton.mp hMem) (by assumption)
      · change r.stray ++ strayWrites r.sched r.live task = []
        rw [h.noStray, hStray]
        rfl
  | switch task hLive =>
      exact ⟨h.shape.switch task, Or.inr hLive, h.noStray⟩

/-- Removing any other task leaves the back link of the record behind it
pointing to the freed record. -/
theorem taskFree_inner_dangles {r : TaskRun} {task : Nat} (h : QueueWellFormed r)
    (hLive : task ∈ r.live) (hInner : r.live.getLast? ≠ some task) (stray : List Nat) :
    ¬ QueueWellFormed ⟨taskFree r.sched task, r.live.erase task, stray⟩ := by
  intro hAfter
  obtain ⟨front, back, hSplit⟩ := List.append_of_mem hLive
  cases back with
  | nil => exact hInner (by simp [hSplit])
  | cons behind rest =>
      have hPrev := h.prevLinks
      rw [hSplit] at hPrev
      have hLink : r.sched.prev behind = task := hPrev.behind.1
      have hOther : behind ≠ task := fun hSame => by
        have hOnce := h.once
        rw [hSplit, hSame] at hOnce
        simp [List.nodup_append] at hOnce
      have hBehind : behind ∈ r.live.erase task :=
        (List.mem_erase_of_ne hOther).mpr (by simp [hSplit])
      have hKept : (taskFree r.sched task).prev behind = task := by
        rw [(taskFree_fields r.sched task).1, hLink]
      have hPointer : task ∈ (⟨taskFree r.sched task, r.live.erase task, stray⟩ : TaskRun).pointers := by
        simp only [TaskRun.pointers, List.mem_cons, List.mem_flatMap]
        exact Or.inr (Or.inr (Or.inr ⟨behind, hBehind, by simp [hKept]⟩))
      rcases hAfter.noneFreed task hPointer with hNull | hMem
      · exact h.notNull (by rwa [← hNull])
      · exact absurd hMem (h.once.not_mem_erase)

/-- In every run from boot in which each freed task is the last of the queue,
the queue is well formed in every state; and from each of these states, freeing
a task keeps it well formed only if that task is the last. -/
theorem taskRun_wellFormed {tasks : Nat → Task} {events : List TaskEvent} {r : TaskRun}
    (run : Run (Guarded TaskStep FreesLast) (taskBoot tasks) events r) :
    QueueWellFormed r ∧ ∀ task after, TaskStep r (.free task) after →
      (QueueWellFormed after ↔ r.live.getLast? = some task) := by
  have hBoot : QueueInv (taskBoot tasks) :=
    ⟨⟨by simp [taskBoot], by simp [taskBoot], trivial, trivial, rfl, rfl⟩, Or.inl ⟨rfl, rfl⟩, rfl⟩
  have hInv : QueueInv r := run.invariant hBoot fun _ _ _ h hStep => h.step hStep
  refine ⟨hInv.wellFormed, fun task after hStep => ⟨fun hAfter => ?_, fun hLast => ?_⟩⟩
  · by_contra hInner
    cases hStep with
    | free _ hLive => exact taskFree_inner_dangles hInv.wellFormed hLive hInner _ hAfter
  · exact (hInv.step (e := .free task) ⟨hLast, hStep⟩).wellFormed

/-- Two tasks are created and the younger one is freed. -/
theorem taskRun_wellFormed_last_freed :
    ∃ r, Run (Guarded TaskStep FreesLast) (taskBoot fun _ => taskInit 0 0 0)
        [.new 4096 8192 12288 0x400000, .new 16384 20480 24576 0x400000, .free 16384] r ∧
      r.live = [4096] ∧ QueueWellFormed r := by
  have hFirst : Guarded TaskStep FreesLast (taskBoot fun _ => taskInit 0 0 0)
      (.new 4096 8192 12288 0x400000) _ :=
    ⟨trivial, TaskStep.new _ _ _ _ _ _ (by decide) rfl⟩
  have hSecond := Run.snoc (Run.single hFirst)
    (show Guarded TaskStep FreesLast _ (.new 16384 20480 24576 0x400000) _ from
      ⟨trivial, TaskStep.new _ _ _ _ _ _ (by decide) rfl⟩)
  have run := Run.snoc hSecond
    (show Guarded TaskStep FreesLast _ (.free 16384) _ from
      ⟨rfl, TaskStep.free _ 16384 (by decide)⟩)
  exact ⟨_, run, rfl, (taskRun_wellFormed run).1⟩

/-- Two tasks are created and the older one is freed: the younger one still
points back to it. -/
theorem taskRun_not_wellFormed :
    ¬ ∀ (tasks : Nat → Task) (events : List TaskEvent) (r : TaskRun),
      Run TaskStep (taskBoot tasks) events r → QueueWellFormed r := by
  intro hClaim
  have hFirst : TaskStep (taskBoot fun _ => taskInit 0 0 0) _ _ :=
    TaskStep.new _ 4096 8192 12288 0x400000 _ (by decide) rfl
  have hSecond := Run.snoc (Run.single hFirst)
    (TaskStep.new _ 16384 20480 24576 0x400000 _ (by decide) rfl)
  have run := Run.snoc hSecond (TaskStep.free _ 4096 (by decide))
  have hPrev := (hClaim _ _ _ run).prevLinks.1
  exact absurd hPrev (by decide)

end LiebeOS
