import Mathlib.Data.List.Cycle
import LiebeOS.Task.Focus

/-! The order in which programs run when they end. The task that is next is
looked for twice, once while the ending task is taken out of the queue and once
by `task_next`. -/
namespace LiebeOS

open LinkedQueue Transition

/-- The kernel with the live tasks in the order of their creation. -/
structure QueuedKernel where
  kernel : Kernel
  live : List Nat

instance (k : Kernel) (a : LoadAnswers) : Decidable (LoadSucceeds k a) :=
  inferInstanceAs (Decidable (_ ∧ _))

/-- The live tasks after an entry to the kernel: a load that succeeds appends
its task, a program that ends takes its own away. -/
def liveAfter (q : QueuedKernel) : UserEvent → List Nat
  | .processLoadStart copied a =>
      if 0 ≤ copied ∧ LoadSucceeds q.kernel a then q.live ++ [a.task] else q.live
  | .invokeSystemCommand named a _ =>
      if named = true ∧ LoadSucceeds q.kernel a then q.live ++ [a.task] else q.live
  | .exit => q.live.erase q.kernel.sched.currentTask
  | .exception => q.live.erase q.kernel.sched.currentTask

def QueuedStep (q : QueuedKernel) (e : UserEvent) (q' : QueuedKernel) : Prop :=
  KernelStep q.kernel e q'.kernel ∧ q'.live = liveAfter q e

/-- The kernel with the shell as its only task. -/
def QueuedBoot (q : QueuedKernel) : Prop :=
  Booted q.kernel ∧ q.live = [q.kernel.sched.currentTask]

/-- The two ways in which a running program ends. -/
def Ends (e : UserEvent) : Prop := e = .exit ∨ e = .exception

/-- The kernel goes on with the task behind the running one, or with the first
task if there is none behind it. -/
def SwitchesInTurn (q : QueuedKernel) (e : UserEvent) : Prop :=
  ∃ k' hRunning, handle q.kernel e = .returned k' ∧
    k'.sched.currentTask = q.live.next q.kernel.sched.currentTask hRunning

/-- A program ends only while exactly one other is live, and no allocation that
a load does not check is refused. -/
def KeepsOrder (q : QueuedKernel) : UserEvent → Prop
  | .processLoadStart copied a => copied < 0 ∨ LoadFits q.kernel a
  | .invokeSystemCommand named a _ => named = false ∨ LoadFits q.kernel a
  | .exit => q.live.length = 2
  | .exception => q.live.length = 2

/-- The first task is running, and its back link, which nothing keeps, happens to
lead to the second one. -/
def StaleBackLink (q : QueuedKernel) : Prop :=
  q.kernel.sched.currentTask = q.kernel.sched.taskHead ∧
    q.kernel.sched.prev q.kernel.sched.currentTask = q.kernel.sched.next q.kernel.sched.currentTask

/-! ### The queue -/

/-- The queue as far as it is kept. The back link of the first task may lead
anywhere, and a task that is alone may point to itself. -/
structure QueueKept (s : Scheduler) (live : List Nat) : Prop where
  null : 0 ∉ live
  nodup : live.Nodup
  next : NextLinks s.next live ∨ ∃ a, live = [a] ∧ s.next a = a
  prev : ∃ before, PrevLinks s.prev before live
  head : s.taskHead = live.headD 0
  tail : s.taskTail = live.getLastD 0

section Queue

variable {s s' : Scheduler} {live : List Nat} {task process : Nat}

theorem QueueKept.head_ne (h : QueueKept s live) (hSome : live ≠ []) : s.taskHead ≠ 0 := by
  rw [h.head]
  rcases headD_mem_or (l := live) with ⟨_, hEmpty⟩ | hMem
  · exact absurd hEmpty hSome
  · exact fun hZero => h.null (hZero ▸ hMem)

/-- Appending a fresh task also closes the link of a task that was alone. -/
theorem QueueKept.append (h : QueueKept s live) (hSome : live ≠ []) (hFresh : task ∉ live)
    (hTask : task ≠ 0) (hNew : Appended s task process s') :
    QueueKept s' (live ++ [task]) ∧ NextLinks s'.next (live ++ [task]) := by
  obtain ⟨front, last, rfl⟩ := (List.eq_nil_or_concat' live).resolve_left hSome
  have hOld : ∀ a ∈ front ++ [last], a ≠ task := fun a ha hSame => hFresh (hSame ▸ ha)
  have hTail : s.taskTail = last := by rw [h.tail]; simp
  have hLast : last ≠ task := hOld last (by simp)
  have hBehind : last ∉ front := fun hMem =>
    (List.nodup_append.mp h.nodup).2.2 last hMem last (by simp) rfl
  have hLinks : NextLinks s'.next (front ++ [last] ++ [task]) := by
    rw [hNew.next, hTail]
    have hEnd : NextLinks (Function.update s.next task 0) [task] :=
      ⟨Function.update_self _ _ _, trivial⟩
    rcases h.next with hForward | ⟨a, hAlone, _⟩
    · have hKept : NextLinks (Function.update s.next task 0) (front ++ last :: []) :=
        hForward.congr fun a ha => Function.update_of_ne (hOld a ha) _ _
      rw [List.append_assoc]
      exact hKept.relink hEnd hBehind (by simpa using hLast)
    · obtain ⟨rfl, hSame⟩ := List.append_inj' (hAlone.trans (List.nil_append [a]).symm) rfl
      refine ⟨Function.update_self _ _ _, ?_, trivial⟩
      exact (Function.update_of_ne (Ne.symm hLast) _ _).trans (Function.update_self _ _ _)
  obtain ⟨before, hBackward⟩ := h.prev
  refine ⟨⟨?_, ?_, Or.inl hLinks, ⟨before, prevLinks_concat.mpr ⟨?_, ?_⟩⟩, ?_, ?_⟩, hLinks⟩
  · simp only [List.mem_append, List.mem_singleton, not_or]
    exact ⟨by simpa using h.null, Ne.symm hTask⟩
  · exact List.nodup_append.mpr ⟨h.nodup, by simp, fun a ha b hb => by
      rw [List.mem_singleton.mp hb]
      exact hOld a ha⟩
  · refine hBackward.congr fun a ha => ?_
    rw [hNew.prev, Function.update_of_ne (hOld a ha), Function.update_of_ne (hOld a ha)]
  · rw [hNew.prev, Function.update_self, hTail]
    simp
  · rw [hNew.head, h.head]
    cases front <;> rfl
  · rw [hNew.tail]
    simp

/-- Taking the youngest task out again, while another one is running. -/
theorem QueueKept.removeLast (h : QueueKept s (live ++ [task])) (hSome : live ≠ [])
    (hLinks : NextLinks s.next (live ++ [task])) (hRunning : s.currentTask ≠ task) :
    QueueKept (taskFree s task) live ∧ (taskFree s task).currentTask = s.currentTask := by
  obtain ⟨front, last, rfl⟩ := (List.eq_nil_or_concat' live).resolve_left hSome
  obtain ⟨before, hBackward⟩ := h.prev
  obtain ⟨hBack, hPrev⟩ := prevLinks_concat.mp hBackward
  have hApart : ∀ a ∈ front ++ [last], a ≠ task := fun a ha =>
    (List.nodup_append.mp h.nodup).2.2 a ha task (by simp)
  have hNodup : (front ++ [last]).Nodup := (List.nodup_append.mp h.nodup).1
  have hNull : 0 ∉ front ++ [last] := fun hMem => h.null (List.mem_append_left _ hMem)
  have hLast : last ≠ 0 := fun hZero => hNull (by simp [hZero])
  have hBehind : last ∉ front := fun hMem =>
    (List.nodup_append.mp hNodup).2.2 last hMem last (by simp) rfl
  have hPrevLast : s.prev task = last := by rw [hPrev]; simp
  have hNextLast : s.next task = 0 := hLinks.drop.1
  have hHead : s.taskHead = (front ++ [last]).headD 0 := by
    rw [h.head]
    cases front <;> rfl
  have hTail : task = s.taskTail := by rw [h.tail]; simp
  have hOther : task ≠ s.taskHead := fun hSame => by
    rcases headD_mem_or (l := front ++ [last]) with ⟨_, hEmpty⟩ | hMem
    · exact absurd hEmpty (by simp)
    · exact hApart _ hMem (hHead.symm.trans hSame.symm)
  refine ⟨⟨hNull, hNodup, Or.inl ?_, ⟨before, ?_⟩, ?_, ?_⟩, ?_⟩
  · rw [taskFree_next, hPrevLast, hNextLast, if_pos hLast]
    have hWhole : NextLinks s.next (front ++ last :: [task]) := by simpa using hLinks
    have hEnd : NextLinks s.next [] := trivial
    exact hWhole.relink hEnd hBehind (by simp)
  · rw [(taskFree_fields s task).1]
    exact hBack
  · rw [taskFree_head, if_neg hOther, hHead]
  · rw [taskFree_tail, if_pos hTail, hPrevLast]
    simp
  · rw [taskFree_current, if_neg (Ne.symm hRunning)]

/-- The cyclic successor of a task, read off the queue in front of it and
behind it. -/
theorem next_split {front back : List Nat} (hNodup : (front ++ task :: back).Nodup)
    (hMem : task ∈ front ++ task :: back) :
    (front ++ task :: back).next task hMem = (back ++ front).headD task := by
  rw [List.isRotated_next_eq List.isRotated_append hNodup hMem]
  cases hRest : back ++ front with
  | nil => simp [hRest]
  | cons next rest => simp [hRest]

/-- What is known of the queue around a task that is not alone in it. -/
structure Around (s : Scheduler) (front : List Nat) (task : Nat) (back : List Nat) : Prop where
  null : 0 ∉ front ++ task :: back
  nodup : (front ++ task :: back).Nodup
  links : NextLinks s.next (front ++ task :: back)
  next : s.next task = back.headD 0
  prev : ∀ front' p, front = front' ++ [p] → s.prev task = p
  head : s.taskHead = (front ++ task :: back).headD 0
  tail : s.taskTail = (front ++ task :: back).getLastD 0

theorem QueueKept.around {front back : List Nat} (h : QueueKept s (front ++ task :: back))
    (hLong : 2 ≤ (front ++ task :: back).length) : Around s front task back := by
  have hLinks : NextLinks s.next (front ++ task :: back) := by
    rcases h.next with hForward | ⟨a, hAlone, _⟩
    · exact hForward
    · rw [hAlone] at hLong
      exact absurd hLong (by simp)
  obtain ⟨before, hBackward⟩ := h.prev
  refine ⟨h.null, h.nodup, hLinks, hLinks.drop.1, ?_, h.head, h.tail⟩
  rintro front' p rfl
  rw [List.append_assoc] at hBackward
  exact hBackward.behind.1

/-- Taking the running task out moves on to its successor. -/
theorem Around.current {front back : List Nat} (h : Around s front s.currentTask back)
    (hLong : front ++ back ≠ []) :
    (taskFree s s.currentTask).currentTask = (back ++ front).headD s.currentTask := by
  rw [taskFree_current, if_pos rfl, taskFree_next_self, h.next]
  cases back with
  | cons b rest =>
      have hSome : b ≠ 0 := fun hZero => h.null (by simp [hZero])
      exact if_neg hSome
  | nil =>
      obtain ⟨first, others, rfl⟩ := List.exists_cons_of_ne_nil (by simpa using hLong)
      have hHead : s.taskHead = first := h.head
      have hOther : s.currentTask ≠ first := fun hSame => by
        have hOnce := h.nodup
        rw [hSame] at hOnce
        simp at hOnce
      rw [List.headD_nil, if_pos rfl, taskFree_head, hHead, if_neg hOther]
      rfl

/-- Of two tasks the other one is left, and it is the next to run. -/
theorem Around.getNext_pair {front back : List Nat} {other : Nat}
    (h : Around s front s.currentTask back) (hPair : front ++ back = [other]) :
    QueueKept (taskFree s s.currentTask) [other] ∧
      taskGetNext (taskFree s s.currentTask) = other := by
  have hCurrent := h.current (by rw [hPair]; simp)
  have hOther : other ≠ 0 ∧ other ≠ s.currentTask := by
    have hMem : other ∈ front ++ back := by simp [hPair]
    have hIn : other ∈ front ++ s.currentTask :: back := by
      simp only [List.mem_append, List.mem_cons] at hMem ⊢
      tauto
    refine ⟨fun hZero => h.null (hZero ▸ hIn), fun hSame => ?_⟩
    have hApart := (List.nodup_middle.mp h.nodup).notMem
    exact hApart (hSame ▸ hMem)
  have hOnce : 0 ∉ [other] ∧ [other].Nodup := ⟨by simpa using hOther.1.symm, by simp⟩
  cases front with
  | nil =>
      rw [List.nil_append] at hPair
      subst hPair
      have hHead : s.taskHead = s.currentTask := h.head
      have hTail : s.taskTail = other := h.tail
      have hAfter : (taskFree s s.currentTask).taskHead = other := by
        rw [taskFree_head, if_pos hHead.symm, taskFree_next_self, h.next]
        rfl
      have hLink : s.next other = 0 := h.links.2.1
      have hNext : (taskFree s s.currentTask).next other = 0 ∨
          (taskFree s s.currentTask).next other = other := by
        rw [taskFree_next]
        by_cases hFirst : s.prev s.currentTask ≠ 0
        · rw [if_pos hFirst, h.next]
          by_cases hStale : s.prev s.currentTask = other
          · rw [hStale, Function.update_self]
            exact Or.inr rfl
          · rw [Function.update_of_ne (Ne.symm hStale), hLink]
            exact Or.inl rfl
        · rw [if_neg hFirst]
          exact Or.inl hLink
      refine ⟨⟨hOnce.1, hOnce.2, ?_, ⟨_, rfl, trivial⟩, hAfter, ?_⟩, ?_⟩
      · rcases hNext with hNone | hSelf
        · exact Or.inl ⟨hNone, trivial⟩
        · exact Or.inr ⟨other, rfl, hSelf⟩
      · rw [taskFree_tail, hTail, if_neg (Ne.symm hOther.2)]
        rfl
      · unfold taskGetNext
        rw [hCurrent, List.append_nil, List.headD_cons, hAfter]
        rcases hNext with hNone | hSelf
        · exact if_pos hNone
        · have hSome : (taskFree s s.currentTask).next other ≠ 0 := by
            rw [hSelf]
            exact hOther.1
          exact (if_neg hSome).trans hSelf
  | cons first rest =>
      obtain ⟨rfl, hRest⟩ := List.cons.inj hPair
      obtain ⟨rfl, rfl⟩ := List.append_eq_nil_iff.mp hRest
      have hHead : s.taskHead = first := h.head
      have hTail : s.taskTail = s.currentTask := h.tail
      have hPrev : s.prev s.currentTask = first := h.prev [] first rfl
      have hLink : (taskFree s s.currentTask).next first = 0 := by
        rw [taskFree_next, hPrev, if_pos hOther.1, Function.update_self, h.next]
        rfl
      have hAfter : (taskFree s s.currentTask).taskHead = first := by
        rw [taskFree_head, hHead, if_neg (Ne.symm hOther.2)]
      refine ⟨⟨hOnce.1, hOnce.2, Or.inl ⟨hLink, trivial⟩, ⟨_, rfl, trivial⟩, hAfter, ?_⟩, ?_⟩
      · rw [taskFree_tail, if_pos hTail.symm, hPrev]
        rfl
      · unfold taskGetNext
        rw [hCurrent, List.nil_append, List.headD_cons, hAfter]
        exact if_pos hLink

/-- Of more than two tasks the one behind the successor is the next to run,
unless the stale back link of the first task ties the second one to itself. -/
theorem Around.getNext_more {front back : List Nat} (h : Around s front s.currentTask back)
    (hMore : 2 ≤ (front ++ back).length) :
    taskGetNext (taskFree s s.currentTask) = (back ++ front).headD s.currentTask ↔
      s.currentTask = s.taskHead ∧ s.prev s.currentTask = s.next s.currentTask := by
  have hCurrent := h.current (List.ne_nil_of_length_pos (by omega))
  unfold taskGetNext
  rw [hCurrent]
  change (if (taskFree s s.currentTask).next ((back ++ front).headD s.currentTask) = 0 then
      (taskFree s s.currentTask).taskHead
    else (taskFree s s.currentTask).next ((back ++ front).headD s.currentTask)) = _ ↔ _
  rcases List.eq_nil_or_concat' front with rfl | ⟨front, p, rfl⟩
  · obtain ⟨b, c, rest, rfl⟩ : ∃ b c rest, back = b :: c :: rest := by
      match back, hMore with
      | b :: c :: rest, _ => exact ⟨b, c, rest, rfl⟩
    have hHead : s.taskHead = s.currentTask := h.head
    have hNext : s.next s.currentTask = b := h.next
    have hLink : s.next b = c := h.links.2.1
    have hb : b ≠ 0 := fun hZero => h.null (by simp [hZero])
    have hc : c ≠ 0 := fun hZero => h.null (by simp [hZero])
    have hbc : c ≠ b := fun hSame => by
      have hOnce := h.nodup
      rw [hSame] at hOnce
      simp at hOnce
    rw [List.append_nil, List.headD_cons, taskFree_next, hNext]
    by_cases hStale : s.prev s.currentTask = b
    · rw [hStale, if_pos hb, Function.update_self, if_neg hb]
      exact ⟨fun _ => ⟨hHead.symm, rfl⟩, fun _ => rfl⟩
    · have hKept : (if s.prev s.currentTask ≠ 0 then
          Function.update s.next (s.prev s.currentTask) b else s.next) b = c := by
        split
        · rw [Function.update_of_ne (Ne.symm hStale), hLink]
        · exact hLink
      rw [hKept, if_neg hc]
      exact ⟨fun hSame => absurd hSame hbc, fun hSame => absurd hSame.2 hStale⟩
  · have hPrev : s.prev s.currentTask = p := h.prev front p rfl
    have hp : p ≠ 0 := fun hZero => h.null (by simp [hZero])
    have hHeadMem : s.taskHead ∈ front ++ [p] := by
      rw [h.head]
      cases front <;> simp
    have hApart : s.currentTask ∉ (front ++ [p]) ++ back := (List.nodup_middle.mp h.nodup).notMem
    have hNotHead : s.currentTask ≠ s.taskHead := fun hSame =>
      hApart (List.mem_append_left _ (hSame ▸ hHeadMem))
    have hHead : (taskFree s s.currentTask).taskHead = s.taskHead := by
      rw [taskFree_head, if_neg hNotHead]
    have hKept : ∀ x, x ≠ p → (taskFree s s.currentTask).next x = s.next x := fun x hx => by
      rw [taskFree_next, hPrev, if_pos hp, Function.update_of_ne hx]
    have hOnce := (List.nodup_middle.mp h.nodup).of_cons
    refine iff_of_false ?_ fun hSame => hNotHead hSame.1
    cases back with
    | cons b rest =>
        have hLink : s.next b = rest.headD 0 := h.links.drop.2.1
        have hFront : b ∉ front ++ [p] := fun hMem =>
          (List.nodup_append.mp hOnce).2.2 b hMem b (by simp) rfl
        have hbp : b ≠ p := fun hSame => hFront (by simp [hSame])
        rw [List.cons_append, List.headD_cons, hKept b hbp, hLink, hHead]
        cases rest with
        | nil => exact fun hSame => hFront (hSame ▸ hHeadMem)
        | cons c rest =>
            have hc : c ≠ 0 := fun hZero => h.null (by simp [hZero])
            rw [List.headD_cons, if_neg hc]
            intro hSame
            rw [hSame] at hOnce
            simp [List.nodup_append] at hOnce
    | nil =>
        obtain ⟨f, others, rfl⟩ : ∃ f others, front = f :: others := by
          match front, hMore with
          | f :: others, _ => exact ⟨f, others, rfl⟩
        have hfp : f ≠ p := fun hSame => by
          rw [hSame] at hOnce
          simp at hOnce
        have hLink : s.next f = (others ++ [p] ++ [s.currentTask]).headD 0 := h.links.1
        have hNextMem : s.next f ∈ others ++ [p] ++ [s.currentTask] := by
          rw [hLink]
          cases others <;> simp
        have hNextSome : s.next f ≠ 0 := fun hZero => h.null (by
          rw [hZero] at hNextMem
          exact List.mem_cons_of_mem f hNextMem)
        rw [List.nil_append, List.cons_append, List.headD_cons, hKept f hfp, if_neg hNextSome]
        intro hSame
        rw [hSame] at hNextMem
        exact (List.nodup_cons.mp h.nodup).1 hNextMem

theorem QueueKept.switch (h : QueueKept s live) (task : Nat) : QueueKept (taskSwitch s task) live :=
  ⟨h.null, h.nodup, h.next, h.prev, h.head, h.tail⟩

end Queue

/-! ### The kernel -/

/-- What holds in every state of a run. Any live task may be running. -/
structure OrderInv (q : QueuedKernel) : Prop where
  queue : QueueKept q.kernel.sched q.live
  current : q.kernel.sched.currentTask ∈ q.live
  table : TaskTable q.kernel q.live

section Kernel

variable {q q' : QueuedKernel} {a : LoadAnswers} {k' : Kernel}

theorem OrderInv.notLoaded (h : OrderInv q) (hPossible : a.Possible q.kernel)
    (hFailed : LoadFailed q.kernel a k') : OrderInv ⟨k', q.live⟩ := by
  have hFresh := h.table.task_fresh hPossible
  have hSome := List.ne_nil_of_mem h.current
  obtain ⟨hQueue, hCurrent, hProcess⟩ : QueueKept k'.sched q.live ∧
      k'.sched.currentTask = q.kernel.sched.currentTask ∧
      ∀ t ∈ q.live, k'.sched.process t = q.kernel.sched.process t := by
    rcases hFailed.sched with hSame | ⟨sched, hNew, hFreed⟩
    · rw [hSame]
      exact ⟨h.queue, rfl, fun _ _ => rfl⟩
    · obtain ⟨hTask, hAppended⟩ := taskNew_appended (h.queue.head_ne hSome) hNew
      obtain ⟨hAdded, hLinks⟩ := h.queue.append hSome hFresh hTask hAppended
      have hRunning : sched.currentTask ≠ a.task := fun hSame => by
        rw [hAppended.current] at hSame
        exact hFresh (hSame ▸ h.current)
      obtain ⟨hBack, hStill⟩ := hAdded.removeLast hSome hLinks hRunning
      rw [hFreed, (taskFree_fields sched a.task).2, hAppended.process]
      refine ⟨hBack, hStill.trans hAppended.current, fun t ht => ?_⟩
      have hOther : t ≠ a.task := fun hSame => hFresh (hSame ▸ ht)
      exact Function.update_of_ne hOther _ _
  refine ⟨hQueue, hCurrent ▸ h.current, h.table.congr hProcess hFailed.processes ?_⟩
  exact fun i hi hEntry => hFailed.records _ (hPossible.process i hi hEntry)

/-- A load that succeeds, whichever task is switched to. -/
theorem OrderInv.loaded {slot : Nat} (h : OrderInv q) (hPossible : a.Possible q.kernel)
    (hDone : LoadDone q.kernel a slot k') {task : Nat} (hTask : task ∈ q.live ++ [a.task]) :
    OrderInv ⟨{ k' with sched := taskSwitch k'.sched task }, q.live ++ [a.task]⟩ := by
  have hSome := List.ne_nil_of_mem h.current
  obtain ⟨hNull, hAppended⟩ := taskNew_appended (h.queue.head_ne hSome) hDone.sched
  have hAdded := (h.queue.append hSome (h.table.task_fresh hPossible) hNull hAppended).1
  exact ⟨hAdded.switch task, hTask,
    h.table.loaded hPossible hDone hAppended.process rfl rfl⟩

theorem OrderInv.loaded_running {slot : Nat} (h : OrderInv q)
    (hDone : LoadDone q.kernel a slot k') : k'.sched.currentTask = q.kernel.sched.currentTask :=
  (taskNew_appended (h.queue.head_ne (List.ne_nil_of_mem h.current)) hDone.sched).2.current

/-- While another task is live, the running one is taken out and `task_next`
decides what follows. -/
theorem OrderInv.terminate (h : OrderInv q) (hLong : 2 ≤ q.live.length) :
    (taskGetNext (taskFree q.kernel.sched q.kernel.sched.currentTask) = 0 ∧
      terminateCurrent q.kernel = .halted) ∨
    ∃ k', terminateCurrent q.kernel = .returned k' ∧
      k'.sched = taskSwitch (taskFree q.kernel.sched q.kernel.sched.currentTask)
        (taskGetNext (taskFree q.kernel.sched q.kernel.sched.currentTask)) ∧
      k'.records = q.kernel.records ∧ k'.processes = Function.update q.kernel.processes
        (q.kernel.records (q.kernel.sched.process q.kernel.sched.currentTask)).id 0 := by
  set task := q.kernel.sched.currentTask with hRunning
  obtain ⟨hSome, hTask, hSlot, hEntry⟩ := h.table.owned task h.current
  obtain ⟨other, hOther, hNot⟩ : ∃ other ∈ q.live, other ≠ task := by
    by_contra hNone
    have hAll : ∀ t ∈ q.live, t = task := fun t ht => by
      by_contra hElse
      exact hNone ⟨t, ht, hElse⟩
    have hAlone := List.eq_replicate_iff.mpr ⟨rfl, hAll⟩
    have hOnce := h.queue.nodup
    rw [hAlone, List.nodup_replicate] at hOnce
    omega
  have hFound : ∃ i, (List.range liebeOsMaxProcesses).find? (fun i => decide
      (Function.update q.kernel.processes (q.kernel.records (q.kernel.sched.process task)).id 0 i
        ≠ 0)) = some i := by
    obtain ⟨hOtherSome, _, hOtherSlot, hOtherEntry⟩ := h.table.owned other hOther
    have hApart : (q.kernel.records (q.kernel.sched.process other)).id ≠
        (q.kernel.records (q.kernel.sched.process task)).id :=
      fun hSame => hNot (h.table.slot_inj hOther h.current hSame)
    refine Option.isSome_iff_exists.mp (List.find?_isSome.mpr ⟨_, List.mem_range.mpr hOtherSlot, ?_⟩)
    rw [Function.update_of_ne hApart, hOtherEntry]
    exact decide_eq_true hOtherSome
  obtain ⟨i, hFind⟩ := hFound
  obtain ⟨after, hEnded, hSched, hRecords, hTable⟩ : ∃ after,
      processTerminate q.kernel (q.kernel.sched.process task) = .returned after ∧
        after.sched = taskFree q.kernel.sched task ∧ after.records = q.kernel.records ∧
        after.processes = Function.update q.kernel.processes
          (q.kernel.records (q.kernel.sched.process task)).id 0 := by
    simp only [processTerminate, processUnlink, hTask, processSwitchToAny, hFind]
    split <;> exact ⟨_, rfl, rfl, rfl, rfl⟩
  unfold terminateCurrent
  rw [taskCurrent, ← hRunning, hEnded]
  dsimp only
  rw [taskNext, hSched]
  by_cases hZero : taskGetNext (taskFree q.kernel.sched task) = 0
  · rw [if_pos hZero]
    exact Or.inl ⟨hZero, rfl⟩
  · rw [if_neg hZero]
    exact Or.inr ⟨_, rfl, rfl, hRecords, hTable⟩

/-- The end of a program by either way. -/
theorem ends_handle {k : Kernel} {e : UserEvent} (hEnds : Ends e) : handle k e = terminateCurrent k := by
  rcases hEnds with rfl | rfl <;> rfl

theorem OrderInv.inTurn_iff {e : UserEvent} (h : OrderInv q) (hEnds : Ends e)
    (hLong : 2 ≤ q.live.length) : SwitchesInTurn q e ↔
      taskGetNext (taskFree q.kernel.sched q.kernel.sched.currentTask) =
        q.live.next q.kernel.sched.currentTask h.current := by
  unfold SwitchesInTurn
  rw [ends_handle hEnds]
  rcases h.terminate hLong with ⟨hZero, hHalted⟩ | ⟨k', hReturned, hSched, _⟩
  · rw [hHalted, hZero]
    constructor
    · rintro ⟨k', _, hReturned, _⟩
      exact absurd hReturned (by simp)
    · intro hNext
      have hMem := List.next_mem q.live _ h.current
      rw [← hNext] at hMem
      exact absurd hMem h.queue.null
  · rw [hReturned]
    constructor
    · rintro ⟨after, _, hSame, hNext⟩
      rw [Outcome.returned.injEq] at hSame
      rw [← hSame, hSched] at hNext
      exact hNext
    · intro hNext
      refine ⟨k', h.current, rfl, ?_⟩
      rw [hSched]
      exact hNext

/-- With two tasks live the other one follows; with more of them the successor
follows only by way of a stale link. -/
theorem OrderInv.inTurn_cases {e : UserEvent} (h : OrderInv q) (hEnds : Ends e)
    (hLong : 2 ≤ q.live.length) : SwitchesInTurn q e ↔ q.live.length = 2 ∨ StaleBackLink q := by
  rw [h.inTurn_iff hEnds hLong]
  obtain ⟨front, back, hSplit⟩ := List.append_of_mem h.current
  have hNext : q.live.next q.kernel.sched.currentTask h.current =
      (back ++ front).headD q.kernel.sched.currentTask := by
    have hNodup := h.queue.nodup
    rw [hSplit] at hNodup
    simp only [hSplit, next_split hNodup]
  have hAround : Around q.kernel.sched front q.kernel.sched.currentTask back := by
    have hQueue := h.queue
    rw [hSplit] at hLong hQueue
    exact hQueue.around hLong
  have hCount : q.live.length = (front ++ back).length + 1 := by
    rw [hSplit]
    simp only [List.length_append, List.length_cons]
    omega
  rw [hNext]
  by_cases hPair : q.live.length = 2
  · obtain ⟨other, hOther⟩ := List.length_eq_one_iff.mp
      (show (front ++ back).length = 1 by omega)
    have hHead : (back ++ front).headD q.kernel.sched.currentTask = other := by
      rcases List.append_eq_singleton_iff.mp hOther with ⟨rfl, rfl⟩ | ⟨rfl, rfl⟩ <;> rfl
    rw [hHead, (hAround.getNext_pair hOther).2]
    exact ⟨fun _ => Or.inl hPair, fun _ => rfl⟩
  · rw [hAround.getNext_more (by omega)]
    exact ⟨Or.inr, fun hStale => hStale.resolve_left hPair⟩

/-- The end of one of two programs. -/
theorem OrderInv.ended (h : OrderInv q) (hPair : q.live.length = 2)
    (hReturned : terminateCurrent q.kernel = .returned k') :
    OrderInv ⟨k', q.live.erase q.kernel.sched.currentTask⟩ := by
  obtain ⟨front, back, hSplit⟩ := List.append_of_mem h.current
  have hQueue := h.queue
  rw [hSplit] at hQueue
  have hAround := hQueue.around (by rw [← hSplit]; omega)
  have hCount : q.live.length = (front ++ back).length + 1 := by
    rw [hSplit]
    simp only [List.length_append, List.length_cons]
    omega
  obtain ⟨other, hOther⟩ := List.length_eq_one_iff.mp (show (front ++ back).length = 1 by omega)
  have hErase : q.live.erase q.kernel.sched.currentTask = [other] := by
    have hFront : q.kernel.sched.currentTask ∉ front := fun hMem =>
      (List.nodup_middle.mp hAround.nodup).notMem (List.mem_append_left _ hMem)
    rw [hSplit, List.erase_append_right _ hFront, List.erase_cons_head, hOther]
  obtain ⟨hLeft, hNext⟩ := hAround.getNext_pair hOther
  rcases h.terminate (Nat.le_of_eq hPair.symm) with ⟨_, hHalted⟩ |
    ⟨after, hAfter, hSched, hRecords, hTable⟩
  · rw [hHalted] at hReturned
    exact absurd hReturned (by simp)
  · rw [hAfter, Outcome.returned.injEq] at hReturned
    subst hReturned
    rw [hErase]
    refine ⟨?_, ?_, ?_⟩
    · rw [hSched]
      exact hLeft.switch _
    · rw [hSched, hNext]
      exact List.mem_singleton_self other
    · refine h.table.ended h.current (fun t => ?_) ?_ hRecords hTable
      · rw [← hErase, h.queue.nodup.mem_erase_iff]
        exact and_comm
      · rw [hSched]
        exact (taskFree_fields _ _).2

/-- A load from the state, with whatever is done with the new task. -/
theorem OrderInv.loadSwitch (h : OrderInv q) (hPossible : a.Possible q.kernel)
    (hFits : LoadFits q.kernel a) :
    (¬ LoadSucceeds q.kernel a ∧ ∃ res k', res < 0 ∧
      processLoadSwitch q.kernel a = .returned (res, 0, k') ∧ OrderInv ⟨k', q.live⟩) ∨
    (LoadSucceeds q.kernel a ∧ ∃ k', processLoadSwitch q.kernel a = .returned (0, a.process, k') ∧
      OrderInv ⟨k', q.live ++ [a.task]⟩ ∧
      OrderInv ⟨{ k' with sched := taskSwitch k'.sched (k'.records a.process).task },
        q.live ++ [a.task]⟩) := by
  rcases processLoadSwitch_outcome hPossible.map with ⟨hMisses, _⟩ |
    ⟨_, hFails, res, k', hNegative, hReturned, hFailed⟩ | ⟨_, hAll, slot, k', hReturned, hDone⟩
  · exact absurd hFits hMisses
  · exact Or.inl ⟨hFails, res, k', hNegative, hReturned, h.notLoaded hPossible hFailed⟩
  · have hTask : (k'.records a.process).task = a.task := by
      rw [hDone.records, Function.update_self]
    have hStays : k'.sched.currentTask ∈ q.live ++ [a.task] := by
      rw [h.loaded_running hDone]
      exact List.mem_append_left _ h.current
    refine Or.inr ⟨hAll, k', hReturned, h.loaded hPossible hDone hStays, ?_⟩
    rw [hTask]
    exact h.loaded hPossible hDone (List.mem_append_right _ (List.mem_singleton_self _))

/-- The call comes back in a state of the invariant, or stops the kernel. -/
def Orderly (live : List Nat) (x : Outcome Kernel) : Prop :=
  x ≠ .undefined ∧ ∀ k, x = .returned k → OrderInv ⟨k, live⟩

theorem OrderInv.orderly {k : Kernel} {live : List Nat} (h : OrderInv ⟨k, live⟩) :
    Orderly live (.returned k) := by
  refine ⟨by simp, fun k' hReturned => ?_⟩
  rw [Outcome.returned.injEq] at hReturned
  exact hReturned ▸ h

theorem OrderInv.end_orderly (h : OrderInv q) (hPair : q.live.length = 2) :
    Orderly (q.live.erase q.kernel.sched.currentTask) (terminateCurrent q.kernel) := by
  refine ⟨fun hUndefined => ?_, fun k' hReturned => h.ended hPair hReturned⟩
  rcases h.terminate (Nat.le_of_eq hPair.symm) with ⟨_, hHalted⟩ | ⟨k', hReturned, _⟩
  · rw [hHalted] at hUndefined
    exact absurd hUndefined (by simp)
  · rw [hReturned] at hUndefined
    exact absurd hUndefined (by simp)

/-- What an entry to the kernel that meets the condition preserves. -/
theorem OrderInv.handle_orderly {e : UserEvent} (h : OrderInv q) (hKeeps : KeepsOrder q e)
    (hPossible : e.Possible q.kernel) : Orderly (liveAfter q e) (handle q.kernel e) := by
  cases e with
  | exit => exact h.end_orderly hKeeps
  | exception => exact h.end_orderly hKeeps
  | processLoadStart copied a =>
      change Orderly (if 0 ≤ copied ∧ LoadSucceeds q.kernel a then q.live ++ [a.task] else q.live)
        (isr80hCommand6ProcessLoadStart q.kernel copied a)
      unfold isr80hCommand6ProcessLoadStart
      by_cases hCopied : copied < 0
      · rw [if_pos hCopied, if_neg fun hBoth => Int.not_lt.mpr (And.left hBoth) hCopied]
        exact h.orderly
      · rw [if_neg hCopied]
        rcases h.loadSwitch hPossible (hKeeps.resolve_left hCopied) with
          ⟨hFails, res, after, hNegative, hLoad, hInv⟩ | ⟨hAll, after, hLoad, _, hInv⟩
        · simp only [hLoad, if_pos hNegative, if_neg fun hBoth => hFails (And.right hBoth)]
          exact hInv.orderly
        · simp only [hLoad, Int.lt_irrefl, if_false, if_pos (And.intro (Int.not_lt.mp hCopied) hAll)]
          exact hInv.orderly
  | invokeSystemCommand named a inject =>
      change Orderly (if named = true ∧ LoadSucceeds q.kernel a then q.live ++ [a.task] else q.live)
        (isr80hCommand7InvokeSystemCommand q.kernel named a inject)
      unfold isr80hCommand7InvokeSystemCommand
      cases named with
      | false =>
          rw [if_neg fun hBoth : false = true ∧ _ => absurd hBoth.1 (by decide), if_pos (by rfl)]
          exact h.orderly
      | true =>
          rw [if_neg (show ¬ (!true) = true by decide)]
          rcases h.loadSwitch hPossible (hKeeps.resolve_left (by decide)) with
            ⟨hFails, res, after, hNegative, hLoad, hInv⟩ | ⟨hAll, after, hLoad, hStays, hInv⟩
          · simp only [hLoad, if_pos hNegative, if_neg fun hBoth => hFails (And.right hBoth)]
            exact hInv.orderly
          · simp only [hLoad, Int.lt_irrefl, if_false, true_and, if_pos hAll]
            by_cases hInject : inject < 0
            · rw [if_pos hInject]
              exact hStays.orderly
            · rw [if_neg hInject]
              exact hInv.orderly

theorem OrderInv.step {e : UserEvent} (h : OrderInv q)
    (hStep : Guarded QueuedStep KeepsOrder q e q') : OrderInv q' := by
  obtain ⟨hKeeps, hKernel, hLive⟩ := hStep
  obtain ⟨after, live⟩ := q'
  change live = liveAfter q e at hLive
  subst hLive
  cases hKernel with
  | returned hPossible hReturned => exact (h.handle_orderly hKeeps hPossible).2 after hReturned
  | undefined _ hPossible hUndefined =>
      exact absurd hUndefined (h.handle_orderly hKeeps hPossible).1

theorem QueuedBoot.inv (h : QueuedBoot q) : OrderInv q := by
  have hInv := h.1.inv
  have hShape := hInv.shape
  have hTable := hInv.table
  rw [← h.2] at hShape hTable
  refine ⟨⟨hShape.null, hShape.nodup, Or.inl hShape.next, ⟨0, hShape.prev⟩, hShape.head,
    hShape.tail⟩, ?_, hTable⟩
  rw [h.2]
  exact List.mem_singleton_self _

end Kernel

/-- In every state of a run whose entries to the kernel all meet the condition,
the successor of a program that ends is the next to run if and only if exactly
one other program is live, or a stale link happens to lead there. -/
theorem kernelRun_inTurn {start q : QueuedKernel} {events : List UserEvent} {e : UserEvent}
    (hBoot : QueuedBoot start) (run : Run (Guarded QueuedStep KeepsOrder) start events q)
    (hEnds : Ends e) (hLong : 2 ≤ q.live.length) :
    SwitchesInTurn q e ↔ KeepsOrder q e ∨ StaleBackLink q := by
  have hInv : OrderInv q := run.invariant hBoot.inv fun _ _ _ h hStep => h.step hStep
  rw [hInv.inTurn_cases hEnds hLong]
  rcases hEnds with rfl | rfl <;> exact Iff.rfl

/-- The shell starts a program, which exits. -/
theorem kernelRun_inTurn_one_program :
    ∃ start q, QueuedBoot start ∧ Run (Guarded QueuedStep KeepsOrder) start
        [.processLoadStart 0 ⟨40960, 0, 53248, 69632, 73728, 0x400000, 0⟩] q ∧
      q.live = [32768, 69632] ∧ SwitchesInTurn q .exit := by
  let shell : LoadAnswers := ⟨4096, 0, 16384, 32768, 36864, 0x400000, 0⟩
  obtain ⟨start, hBoot, q, run, hLive⟩ : ∃ start, QueuedBoot start ∧
      ∃ q, Run (Guarded QueuedStep KeepsOrder) start
        [.processLoadStart 0 ⟨40960, 0, 53248, 69632, 73728, 0x400000, 0⟩] q ∧
        q.live = [32768, 69632] :=
    ⟨⟨_, [32768]⟩, ⟨⟨fun _ => taskInit 0 0 0, fun _ => processInit, shell, by decide, rfl⟩, rfl⟩,
      ⟨_, [32768, 69632]⟩,
      Run.single ⟨Or.inr (Or.inr ⟨by decide, Or.inr (Or.inr ⟨by decide, by decide⟩)⟩),
        KernelStep.returned ⟨by decide, by decide, by decide⟩ rfl, rfl⟩, rfl⟩
  have hPair : q.live.length = 2 := by rw [hLive]; rfl
  exact ⟨start, q, hBoot, run, hLive,
    (kernelRun_inTurn hBoot run (Or.inl rfl) (Nat.le_of_eq hPair.symm)).mpr (Or.inl hPair)⟩

/-- The shell and two programs, the last of which exits. -/
theorem three_programs : ∃ start, QueuedBoot start ∧ ∃ q, Run QueuedStep start
      ([.processLoadStart 0 ⟨40960, 0, 53248, 69632, 73728, 0x400000, 0⟩] ++
        [.processLoadStart 0 ⟨81920, 0, 94208, 110592, 114688, 0x400000, 0⟩]) q ∧
    q.live = [32768, 69632, 110592] ∧ q.kernel.sched.currentTask = 110592 ∧
    ∃ after, handle q.kernel .exit = .returned after ∧ after.sched.currentTask = 69632 :=
  ⟨⟨_, [32768]⟩, ⟨⟨fun _ => taskInit 0 0 0, fun _ => processInit,
      ⟨4096, 0, 16384, 32768, 36864, 0x400000, 0⟩, by decide, rfl⟩, rfl⟩,
    ⟨_, [32768, 69632, 110592]⟩,
    @Run.snoc _ _ _ _ ⟨_, [32768, 69632]⟩ _ _ _
      (Run.single ⟨@KernelStep.returned _ _
        (.processLoadStart 0 ⟨40960, 0, 53248, 69632, 73728, 0x400000, 0⟩)
        ⟨by decide, by decide, by decide⟩ rfl, rfl⟩)
      ⟨@KernelStep.returned _ _
        (.processLoadStart 0 ⟨81920, 0, 94208, 110592, 114688, 0x400000, 0⟩)
        ⟨by decide, by decide, by decide⟩ rfl,
        by unfold liveAfter; exact (if_pos (by decide)).symm⟩,
    rfl, rfl, _, rfl, rfl⟩

/-- When the last of three tasks exits, the first one is passed over. -/
theorem kernelRun_not_inTurn :
    ¬ ∀ (start q : QueuedKernel) (events : List UserEvent) (e : UserEvent), QueuedBoot start →
      Run QueuedStep start events q → Ends e → 2 ≤ q.live.length → SwitchesInTurn q e := by
  intro hClaim
  obtain ⟨start, hBoot, q, run, hLive, hRunning, after, hReturned, hNext⟩ := three_programs
  obtain ⟨k', hMem, hSame, hTurn⟩ :=
    hClaim start q _ .exit hBoot run (Or.inl rfl) (by rw [hLive]; decide)
  rw [hReturned, Outcome.returned.injEq] at hSame
  rw [← hSame, hNext] at hTurn
  simp only [hLive, hRunning] at hTurn
  have hFirst : List.next [32768, 69632, 110592] 110592 (by decide) = 32768 := rfl
  exact absurd (hTurn.trans hFirst) (by decide)

end LiebeOS
