import LiebeOS.Task.Focus

/-! The process table over whole runs of `process_load_switch` and
`process_terminate`. The slot, the id in the record and the current process are
written by different functions; here they are kept together. -/
namespace LiebeOS

open Transition

/-- The kernel and the records of the processes that have been terminated. -/
structure TableRun where
  kernel : Kernel
  ended : List Nat

inductive TableEvent where
  | load (answers : LoadAnswers)
  | terminate (process : Nat)

/-- The process record is granted. The allocator hands out none that the table
refers to, and none of a terminated process: nothing gives these records back. -/
structure TableAnswers (r : TableRun) (a : LoadAnswers) : Prop where
  granted : a.process ≠ 0
  fresh : ∀ i < liebeOsMaxProcesses, r.kernel.processes i ≠ a.process
  unused : a.process ∉ r.ended
  map : a.map ≤ 0

/-- One call. After an access through a null pointer any state may follow; when
the last process is terminated the kernel panics and none does. -/
inductive TableStep : TableRun → TableEvent → TableRun → Prop where
  | load {r : TableRun} {a : LoadAnswers} {res : Int} {process : Nat} {k : Kernel}
      (hAnswers : TableAnswers r a)
      (h : processLoadSwitch r.kernel a = .returned (res, process, k)) :
      TableStep r (.load a) ⟨k, r.ended⟩
  | undefined {r : TableRun} {a : LoadAnswers} (k : Kernel) (hAnswers : TableAnswers r a)
      (h : processLoadSwitch r.kernel a = .undefined) : TableStep r (.load a) ⟨k, r.ended⟩
  | terminate {r : TableRun} {i process : Nat} {k : Kernel} (hSlot : i < liebeOsMaxProcesses)
      (hLive : r.kernel.processes i = process) (hSome : process ≠ 0)
      (h : processTerminate r.kernel process = .returned k) :
      TableStep r (.terminate process) ⟨k, process :: r.ended⟩

/-- No process has been loaded. -/
def tableBoot (sched : Scheduler) (records : Nat → Process) : TableRun :=
  ⟨⟨sched, fun _ => 0, records, 0⟩, []⟩

/-- Each process is in the slot of its id, none that was terminated is left, and
the current process is one of the table as soon as there is one. -/
structure TableIntact (r : TableRun) : Prop where
  ids : ∀ i < liebeOsMaxProcesses, r.kernel.processes i ≠ 0 →
    (r.kernel.records (r.kernel.processes i)).id = i
  once : ∀ i < liebeOsMaxProcesses, ∀ j < liebeOsMaxProcesses, r.kernel.processes i ≠ 0 →
    r.kernel.processes i = r.kernel.processes j → i = j
  ended : ∀ p ∈ r.ended, p ≠ 0 ∧ ∀ i < liebeOsMaxProcesses, r.kernel.processes i ≠ p
  current : (r.kernel.currentProcess = 0 ∧ r.ended = [] ∧
      ∀ i < liebeOsMaxProcesses, r.kernel.processes i = 0) ∨
    (r.kernel.currentProcess ≠ 0 ∧ r.kernel.currentProcess ∉ r.ended ∧
      ∃ i < liebeOsMaxProcesses, r.kernel.processes i = r.kernel.currentProcess)

/-- Something that `process_load` needs on its way is missing or fails. -/
def LoadingFails (a : LoadAnswers) : Prop :=
  a.data < 0 ∨ a.stack = 0 ∨ a.task = 0 ∨ a.pageDirectory = 0 ∨ a.map < 0

/-- The load fails if and only if all slots are taken or loading fails, and then
the table is as before. Otherwise the process is in the lowest empty slot. -/
structure LoadPromise (k : Kernel) (a : LoadAnswers) (res : Int) (process : Nat) (k' : Kernel) :
    Prop where
  fails : res < 0 ↔ (∀ i < liebeOsMaxProcesses, k.processes i ≠ 0) ∨ LoadingFails a
  kept : res < 0 → k'.processes = k.processes ∧ k'.currentProcess = k.currentProcess
  lowest : ¬ res < 0 → process = a.process ∧ k'.currentProcess = a.process ∧
    ∃ slot < liebeOsMaxProcesses, k.processes slot = 0 ∧ (∀ j < slot, k.processes j ≠ 0) ∧
      k'.processes = Function.update k.processes slot a.process

/-- When a load gets as far as the task, it is granted with its directory. -/
def KeepsTable (r : TableRun) : TableEvent → Prop
  | .load a => LoadFits r.kernel a
  | .terminate _ => True

/-! ### One load -/

section Load

variable {k : Kernel} {a : LoadAnswers}

theorem processGetFreeSlot_none : processGetFreeSlot k = none ↔
    ∀ i < liebeOsMaxProcesses, k.processes i ≠ 0 := by
  unfold processGetFreeSlot
  simp only [List.find?_range_eq_none, Bool.not_eq_true', decide_eq_false_iff_not]

theorem processGetFreeSlot_lowest {slot : Nat} (h : processGetFreeSlot k = some slot) :
    ∀ j < slot, k.processes j ≠ 0 :=
  (Slots.find_some h).2.2

/-- What a load leaves of the table: all of it, or all but the slot of the new
process. Records other than the new one are not touched. -/
structure LoadEffect (k : Kernel) (a : LoadAnswers) (res : Int) (k' : Kernel) : Prop where
  records : ∀ p, p ≠ a.process → k'.records p = k.records p
  failed : res < 0 → k'.processes = k.processes ∧ k'.currentProcess = k.currentProcess
  loaded : ¬ res < 0 → k'.currentProcess = a.process ∧ ∃ slot, processGetFreeSlot k = some slot ∧
    k'.processes = Function.update k.processes slot a.process ∧ (k'.records a.process).id = slot

theorem processLoadSwitch_cases (hMap : a.map ≤ 0) :
    (¬ LoadFits k a ∧ processLoadSwitch k a = .undefined) ∨
    (LoadFits k a ∧ ∃ res process k',
      processLoadSwitch k a = .returned (res, process, k') ∧ LoadEffect k a res k' ∧
      (res < 0 ↔ processGetFreeSlot k = none ∨ LoadingFails a) ∧
      (¬ res < 0 → process = a.process)) := by
  rcases processLoadSwitch_outcome hMap with hMisses |
    ⟨hFits, hNot, res, k', hNegative, hReturned, hFailed⟩ | ⟨hFits, hAll, slot, k', hReturned, hDone⟩
  · exact Or.inl hMisses
  · refine Or.inr ⟨hFits, res, 0, k', hReturned, ⟨hFailed.records, fun _ =>
      ⟨hFailed.processes, hFailed.currentProcess⟩, fun hDone => absurd hNegative hDone⟩,
      ⟨fun _ => ?_, fun _ => hNegative⟩, fun hDone => absurd hNegative hDone⟩
    by_contra hElse
    obtain ⟨hSlot, hLoads⟩ := not_or.mp hElse
    unfold LoadingFails at hLoads
    exact hNot ⟨hSlot, by omega, by tauto, by omega⟩
  · refine Or.inr ⟨hFits, 0, a.process, k', hReturned, ⟨fun p hp => ?_, fun hNone => ?_,
      fun _ => ⟨hDone.currentProcess, slot, hDone.free, hDone.processes, ?_⟩⟩, ?_, fun _ => rfl⟩
    · rw [hDone.records, Function.update_of_ne hp]
    · exact absurd hNone (by decide)
    · rw [hDone.records, Function.update_self]
    · have hGranted : ¬ (a.task = 0 ∨ a.pageDirectory = 0) := fun hRefused => by
        have hNew := hDone.sched
        rw [taskNew_eq_none_iff.mpr hRefused] at hNew
        exact absurd hNew (by simp)
      have hSucceeds := hAll
      unfold LoadSucceeds at hSucceeds
      unfold LoadingFails
      constructor
      · exact fun hNone => absurd hNone (by decide)
      · rintro (hNone | hData | hStack | hTask | hDirectory | hMapped)
        · exact absurd hNone hSucceeds.1
        · omega
        · exact absurd hStack hSucceeds.2.2.1
        · exact absurd (Or.inl hTask) hGranted
        · exact absurd (Or.inr hDirectory) hGranted
        · omega

/-- A load that returns does what is promised; one that misses the condition
does not return. -/
theorem processLoadSwitch_promise (hMap : a.map ≤ 0) :
    LoadFits k a ↔ ∃ res process k',
      processLoadSwitch k a = .returned (res, process, k') ∧ LoadPromise k a res process k' := by
  rcases processLoadSwitch_cases hMap with ⟨hMisses, hUndefined⟩ |
    ⟨hFits, res, process, k', hReturned, hEffect, hFails, hProcess⟩
  · refine ⟨fun hFits => absurd hFits hMisses, fun ⟨_, _, _, hReturned, _⟩ => ?_⟩
    rw [hUndefined] at hReturned
    exact absurd hReturned (by simp)
  · refine ⟨fun _ => ⟨res, process, k', hReturned, ?_, hEffect.failed, fun hDone => ?_⟩,
      fun _ => hFits⟩
    · rw [hFails, processGetFreeSlot_none]
    · obtain ⟨hCurrent, slot, hSlot, hTable, _⟩ := hEffect.loaded hDone
      obtain ⟨hRange, hEmpty⟩ := processGetFreeSlot_some hSlot
      exact ⟨hProcess hDone, hCurrent, slot, hRange, hEmpty, processGetFreeSlot_lowest hSlot, hTable⟩

end Load

/-! ### One termination -/

/-- Ending a process empties its slot. If it was the current one, another entry
of the table takes its place. -/
theorem processTerminate_effect {k k' : Kernel} {p : Nat}
    (h : processTerminate k p = .returned k') :
    k'.records = k.records ∧ k'.processes = Function.update k.processes (k.records p).id 0 ∧
      ((k.currentProcess ≠ p ∧ k'.currentProcess = k.currentProcess) ∨
        (k.currentProcess = p ∧ k'.currentProcess ≠ 0 ∧
          ∃ i < liebeOsMaxProcesses, k'.processes i = k'.currentProcess)) := by
  simp only [processTerminate, processUnlink] at h
  by_cases hCurrent : k.currentProcess = p
  · rw [if_pos hCurrent] at h
    unfold processSwitchToAny at h
    split at h
    · rename_i i hFind
      rw [Outcome.returned.injEq] at h
      subst h
      obtain ⟨hRange, hSome, _⟩ := Slots.find_some hFind
      exact ⟨rfl, rfl, Or.inr ⟨hCurrent, hSome, i, hRange, rfl⟩⟩
    · exact absurd h (by simp)
  · rw [if_neg hCurrent, Outcome.returned.injEq] at h
    subst h
    exact ⟨rfl, rfl, Or.inl ⟨hCurrent, rfl⟩⟩

/-- Its task is removed from the queue. -/
theorem processTerminate_sched {k k' : Kernel} {p : Nat} (h : processTerminate k p = .returned k') :
    k'.sched = taskFree k.sched (k.records p).task := by
  simp only [processTerminate, processUnlink, processSwitchToAny] at h
  split at h
  · split at h
    · obtain rfl := Outcome.returned.inj h
      rfl
    · cases h
  · obtain rfl := Outcome.returned.inj h
    rfl

/-! ### Runs -/

section Runs

variable {r : TableRun} {k : Kernel} {a : LoadAnswers} {res : Int}

theorem TableIntact.load (h : TableIntact r) (hAnswers : TableAnswers r a)
    (hEffect : LoadEffect r.kernel a res k) : TableIntact ⟨k, r.ended⟩ := by
  by_cases hFailed : res < 0
  · obtain ⟨hTable, hCurrent⟩ := hEffect.failed hFailed
    refine ⟨fun i hi hSome => ?_, ?_, ?_, ?_⟩
    · simp only [hTable] at hSome ⊢
      rw [hEffect.records _ (hAnswers.fresh i hi)]
      exact h.ids i hi hSome
    · simp only [hTable]
      exact h.once
    · simp only [hTable]
      exact h.ended
    · simp only [hTable, hCurrent]
      exact h.current
  · obtain ⟨hCurrent, slot, hSlot, hTable, hId⟩ := hEffect.loaded hFailed
    obtain ⟨hRange, hEmpty⟩ := processGetFreeSlot_some hSlot
    have hNew : k.processes slot = a.process := by rw [hTable, Function.update_self]
    have hOld : ∀ i, i ≠ slot → k.processes i = r.kernel.processes i := fun i hi => by
      rw [hTable, Function.update_of_ne hi]
    refine ⟨fun i hi hSome => ?_, fun i hi j hj hSome hSame => ?_, fun p hp => ⟨(h.ended p hp).1, fun i hi => ?_⟩, Or.inr ?_⟩
    · by_cases hThis : i = slot
      · rw [hThis, hNew]
        exact hId
      · rw [hOld i hThis] at hSome ⊢
        rw [hEffect.records _ (hAnswers.fresh i hi)]
        exact h.ids i hi hSome
    · by_cases hThis : i = slot
      · by_cases hThat : j = slot
        · rw [hThis, hThat]
        · rw [hThis, hNew, hOld j hThat] at hSame
          exact absurd hSame.symm (hAnswers.fresh j hj)
      · by_cases hThat : j = slot
        · rw [hThat, hNew, hOld i hThis] at hSame
          exact absurd hSame (hAnswers.fresh i hi)
        · rw [hOld i hThis] at hSome
          rw [hOld i hThis, hOld j hThat] at hSame
          exact h.once i hi j hj hSome hSame
    · by_cases hThis : i = slot
      · rw [hThis, hNew]
        exact fun hSame => hAnswers.unused (by rw [hSame]; exact hp)
      · rw [hOld i hThis]
        exact (h.ended p hp).2 i hi
    · simp only [hCurrent]
      exact ⟨hAnswers.granted, hAnswers.unused, slot, hRange, hNew⟩

theorem TableIntact.terminate (h : TableIntact r) {i process : Nat} (hSlot : i < liebeOsMaxProcesses)
    (hLive : r.kernel.processes i = process) (hSome : process ≠ 0)
    (hReturned : processTerminate r.kernel process = .returned k) :
    TableIntact ⟨k, process :: r.ended⟩ := by
  obtain ⟨hRecords, hTable, hCurrent⟩ := processTerminate_effect hReturned
  have hId : (r.kernel.records process).id = i := by
    rw [← hLive]
    exact h.ids i hSlot (by rw [hLive]; exact hSome)
  rw [hId] at hTable
  have hGone : k.processes i = 0 := by rw [hTable, Function.update_self]
  have hOld : ∀ j, k.processes j ≠ 0 → j ≠ i ∧ k.processes j = r.kernel.processes j := fun j hj => by
    have hOther : j ≠ i := fun hSame => hj (by rw [hSame, hGone])
    exact ⟨hOther, by rw [hTable, Function.update_of_ne hOther]⟩
  have hLeft : ∀ j < liebeOsMaxProcesses, k.processes j ≠ process := fun j hj hSame => by
    obtain ⟨hOther, hBefore⟩ := hOld j (by rw [hSame]; exact hSome)
    refine hOther (h.once j hj i hSlot ?_ ?_)
    · rw [← hBefore, hSame]
      exact hSome
    · rw [← hBefore, hSame, hLive]
  have hEnded : ∀ p ∈ process :: r.ended, p ≠ 0 ∧ ∀ j < liebeOsMaxProcesses, k.processes j ≠ p := by
    intro p hp
    rcases List.mem_cons.mp hp with rfl | hBefore
    · exact ⟨hSome, hLeft⟩
    · obtain ⟨hNull, hNone⟩ := h.ended p hBefore
      refine ⟨hNull, fun j hj hSame => hNone j hj ?_⟩
      rw [← (hOld j (by rw [hSame]; exact hNull)).2]
      exact hSame
  refine ⟨fun j hj hUsed => ?_, fun j hj j' hj' hUsed hSame => ?_, hEnded, Or.inr ?_⟩
  · obtain ⟨_, hBefore⟩ := hOld j hUsed
    simp only [hBefore, hRecords] at hUsed ⊢
    exact h.ids j hj hUsed
  · obtain ⟨_, hBefore⟩ := hOld j hUsed
    obtain ⟨_, hBefore'⟩ := hOld j' (by rw [← hSame]; exact hUsed)
    rw [hBefore] at hUsed
    rw [hBefore, hBefore'] at hSame
    exact h.once j hj j' hj' hUsed hSame
  · rcases hCurrent with ⟨hOther, hKept⟩ | ⟨_, hCurrentSome, j, hj, hEntry⟩
    · rcases h.current with ⟨_, _, hEmpty⟩ | ⟨hCurrentSome, hNotEnded, j, hj, hEntry⟩
      · exact absurd ((hEmpty i hSlot).symm.trans hLive).symm hSome
      · have hElse : j ≠ i := fun hSame => hOther (by rw [← hEntry, hSame, hLive])
        simp only [hKept]
        refine ⟨hCurrentSome, ?_, j, hj, ?_⟩
        · simp only [List.mem_cons, not_or]
          exact ⟨hOther, hNotEnded⟩
        · rw [hTable, Function.update_of_ne hElse]
          exact hEntry
    · exact ⟨hCurrentSome, fun hIn => (hEnded _ hIn).2 j hj hEntry, j, hj, hEntry⟩

/-- What a call that meets the condition preserves. -/
theorem TableIntact.step {t : TableRun} {e : TableEvent} (h : TableIntact r)
    (hStep : Guarded TableStep KeepsTable r e t) : TableIntact t := by
  obtain ⟨hKeeps, hStep⟩ := hStep
  cases hStep with
  | load hAnswers hReturned =>
      rcases processLoadSwitch_cases hAnswers.map with ⟨hMisses, _⟩ |
        ⟨_, _, _, _, hSame, hEffect, _⟩
      · exact absurd hKeeps hMisses
      · rw [hReturned, Outcome.returned.injEq, Prod.mk.injEq, Prod.mk.injEq] at hSame
        obtain ⟨rfl, rfl, rfl⟩ := hSame
        exact h.load hAnswers hEffect
  | undefined k hAnswers hUndefined =>
      obtain ⟨_, _, _, hReturned, _⟩ :=
        (processLoadSwitch_promise hAnswers.map).mp hKeeps
      rw [hUndefined] at hReturned
      exact absurd hReturned (by simp)
  | terminate hSlot hLive hSome hReturned => exact h.terminate hSlot hLive hSome hReturned

end Runs

/-- In every run whose loads all meet the condition the table is intact in every
state; and from each of these states a load does what is promised if and only if
it meets the condition. -/
theorem tableRun_intact {sched : Scheduler} {records : Nat → Process} {events : List TableEvent}
    {r : TableRun} (run : Run (Guarded TableStep KeepsTable) (tableBoot sched records) events r) :
    TableIntact r ∧ ∀ a, TableAnswers r a → (KeepsTable r (.load a) ↔ ∃ res process k,
      processLoadSwitch r.kernel a = .returned (res, process, k) ∧
        LoadPromise r.kernel a res process k) := by
  have hBoot : TableIntact (tableBoot sched records) :=
    ⟨fun _ _ hSome => absurd rfl hSome, fun _ _ _ _ hSome => absurd rfl hSome,
      fun _ hp => absurd hp List.not_mem_nil, Or.inl ⟨rfl, rfl, fun _ _ => rfl⟩⟩
  exact ⟨run.invariant hBoot fun _ _ _ h hStep => h.step hStep,
    fun a hAnswers => processLoadSwitch_promise hAnswers.map⟩

/-- Two programs are loaded, and the first one ends while the second one is the
current one. -/
theorem tableRun_intact_two_programs :
    ∃ r, Run (Guarded TableStep KeepsTable)
        (tableBoot ⟨fun _ => taskInit 0 0 0, 0, 0, 0, []⟩ fun _ => processInit)
        [.load ⟨4096, 0, 16384, 32768, 36864, 0x400000, 0⟩,
          .load ⟨40960, 0, 53248, 69632, 73728, 0x400000, 0⟩, .terminate 4096] r ∧
      r.ended = [4096] ∧ TableIntact r := by
  have hGranted : ∀ (k : Kernel) (a : LoadAnswers), a.process ≠ 0 → a.task ≠ 0 →
      a.pageDirectory ≠ 0 → LoadFits k a :=
    fun _ _ hProcess hTask hDirectory => Or.inr ⟨hProcess, Or.inr (Or.inr ⟨hTask, hDirectory⟩)⟩
  have hFirst : Guarded TableStep KeepsTable
      (tableBoot ⟨fun _ => taskInit 0 0 0, 0, 0, 0, []⟩ fun _ => processInit)
      (.load ⟨4096, 0, 16384, 32768, 36864, 0x400000, 0⟩) _ :=
    ⟨hGranted _ _ (by decide) (by decide) (by decide),
      TableStep.load ⟨by decide, by decide, by decide, by decide⟩ rfl⟩
  have hSecond := (Run.single hFirst).snoc (show Guarded TableStep KeepsTable _
      (.load ⟨40960, 0, 53248, 69632, 73728, 0x400000, 0⟩) _ from
    ⟨hGranted _ _ (by decide) (by decide) (by decide),
      TableStep.load ⟨by decide, by decide, by decide, by decide⟩ rfl⟩)
  have run := hSecond.snoc (show Guarded TableStep KeepsTable _ (.terminate 4096) _ from
    ⟨trivial, @TableStep.terminate _ 0 4096 _ (by decide) rfl (by decide) rfl⟩)
  exact ⟨_, run, rfl, (tableRun_intact run).1⟩

/-- The task record of the first program is refused: `task_new` and its caller
go on through null, and nothing is known of the table any more. -/
theorem tableRun_not_intact :
    ¬ ∀ (sched : Scheduler) (records : Nat → Process) (events : List TableEvent) (r : TableRun),
      Run TableStep (tableBoot sched records) events r → TableIntact r := by
  intro hClaim
  let sched : Scheduler := ⟨fun _ => taskInit 0 0 0, 0, 0, 0, []⟩
  let refused : LoadAnswers := ⟨4096, 0, 16384, 0, 0, 0x400000, 0⟩
  have run : Run TableStep (tableBoot sched fun _ => processInit) [.load refused]
      ⟨⟨sched, fun _ => 4096, fun _ => processInit, 4096⟩, []⟩ :=
    Run.single (TableStep.undefined _ ⟨by decide, by decide, by decide, by decide⟩ rfl)
  have hIds := (hClaim _ _ _ _ run).ids 1 (by decide) (by decide)
  exact absurd hIds (by decide)

end LiebeOS
