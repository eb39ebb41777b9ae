import LiebeOS.Task.ElfProgram
import LiebeOS.Task.SystemRun

/-! What programs can write to, in every state of every run from boot. -/
namespace LiebeOS

open Attempts MachineInt Bytes Transition

/-- No program has been loaded yet. -/
structure System.Booted (s : System) : Prop where
  heap : HeapInOrder s.storage.files.heap
  empty : ∀ i < liebeOsMaxProcesses, s.kernel.processes i = 0

/-- The page is memory that the process in slot `i` has for its program. It is in no other
allocation, in nothing else that a process has, and not in the kernel. -/
structure OwnPage (s : System) (i : Nat) (q : LiveProcess) (page : Nat) : Prop where
  own : ∃ r : Part, r.ForProgram ∧ ∀ x, x / 4096 * 4096 = page →
    InAllocation s.storage.files.heap (q.part s.storage.mem r) x ∧
      ∀ ptr, InAllocation s.storage.files.heap ptr x → ptr = q.part s.storage.mem r
  others : ∀ j q' r' x, s.live j = some q' → x / 4096 * 4096 = page →
    InAllocation s.storage.files.heap (q'.part s.storage.mem r') x → j = i ∧ r'.ForProgram
  inHeap : 0x01000000 ≤ page ∧ page + 4096 ≤ 0x07400000

/-- No page is kept for the kernel. -/
def noWindow : Window := ⟨fun _ _ => False, fun _ _ hNone => hNone.elim⟩

section Isolated

variable {window : Window} {d : DiskFiles} {s t : System} {events : List SystemEvent} {i : Nat}
  {q : LiveProcess} {w : Nat}

theorem System.Booted.inv (h : s.Booted) (window : Window) : SystemInv window s := by
  have hNone : ∀ {i q}, s.live i ≠ some q := fun {i q} hq => by
    obtain ⟨hRange, hSome, _⟩ := System.live_iff.mp hq
    exact hSome (h.empty i hRange)
  exact ⟨⟨h.heap, fun hq => absurd hq hNone, fun hq => absurd hq hNone, fun hq => absurd hq hNone⟩,
    fun hq => absurd hq hNone⟩

theorem SystemInv.run (hBoot : s.Booted)
    (run : Run (Guarded (SystemStep d) (KeepsMemory window d)) s events t) : SystemInv window t :=
  run.invariant (hBoot.inv window) fun _ _ _ h hStep => h.step hStep

theorem SystemInv.ownPage (h : SystemInv window s) (hLive : s.live i = some q)
    (hw : w < 4294967296) (hPage : w % 4096 = 0)
    (hWritable : pagingGet s.storage.mem q.directory w &&& pagingIsWriteable ≠ 0) :
    OwnPage s i q (entryAddress (pagingGet s.storage.mem q.directory w)) := by
  obtain ⟨r, hPart, hIn⟩ := h.memory.writable hLive hw hPage hWritable
  have hEntry : pagingGet s.storage.mem q.directory w < 4294967296 := loadWord_lt _ _
  have hAligned := entryAddress_eq hEntry
  change InAllocation s.storage.files.heap (q.part s.storage.mem r)
    (entryAddress (pagingGet s.storage.mem q.directory w)) at hIn
  generalize entryAddress (pagingGet s.storage.mem q.directory w) = page at hIn hAligned ⊢
  have hAll : ∀ x, x / 4096 * 4096 = page →
      InAllocation s.storage.files.heap (q.part s.storage.mem r) x := fun x hx =>
    hIn.page (by omega)
  refine ⟨⟨r, hPart, fun x hx => ⟨hAll x hx, fun ptr hOther => hOther.unique (hAll x hx)⟩⟩,
    fun j q' r' x hq' hx hIn' => ?_, ?_⟩
  · obtain ⟨rfl, rfl⟩ := h.memory.disjoint hLive hq' (hAll x hx) hIn'
    exact ⟨rfl, hPart⟩
  · obtain ⟨n, hAllotted, hLow, hHigh⟩ := hIn
    have hInside := hAllotted.allotted.inside
    have hTotal := h.memory.inOrder.kernel.total_eq
    change s.storage.files.heap.table.total = _ at hTotal
    omega

/-- In every run from boot of which it is known what follows, and whose programs fit where
their headers say, each page that a program can write to is its own: it is in its image,
its stack or memory that it has requested. -/
theorem systemRun_isolated (hBoot : s.Booted)
    (run : Run (Guarded (SystemStep d) (KeepsMemory noWindow d)) s events t)
    (hLive : t.live i = some q) (hw : w < 4294967296) (hPage : w % 4096 = 0)
    (hWritable : pagingGet t.storage.mem q.directory w &&& pagingIsWriteable ≠ 0) :
    OwnPage t i q (entryAddress (pagingGet t.storage.mem q.directory w)) :=
  (SystemInv.run hBoot run).ownPage hLive hw hPage hWritable

end Isolated

/-! ### One program -/

theorem startSystem_booted : (startSystem fun _ => 0).Booted :=
  ⟨startSystem_heap _, fun _ _ => rfl⟩

/-- There is one way to load a program. -/
theorem ProgramStart.loaded_eq {d : DiskFiles} {m : Storage} {filename : List UInt8}
    (p p' : ProgramStart d m filename) : p.loaded = p'.loaded :=
  (Prod.mk.inj (Prod.mk.inj (Attempt.returned.inj
    (p.processLoadAnswers.symm.trans p'.processLoadAnswers))).2).1

/-- The system when the first program has been loaded. -/
theorem ProgramStart.first {d : DiskFiles}
    (p : ProgramStart d (startSystem fun _ => 0).storage missingFile) :
    ∃ s', Guarded (SystemStep d) (Known d) (startSystem fun _ => 0) (.load missingFile) s' ∧
      s'.live 0 = some p.live ∧ s'.storage = p.finish := by
  have hSlot : processGetFreeSlot (startSystem fun _ => 0).kernel = some 0 := rfl
  obtain ⟨s', hCall, _⟩ := p.ready (startSystem_heap _) (startSystem_queue _)
    (fun _ hNone => absurd hNone List.not_mem_nil) hSlot
  obtain ⟨_, _, hStarted⟩ := p.started (startSystem_heap _) hSlot hCall
  refine ⟨s', ⟨fun hLost => ?_, .load hCall⟩, hStarted.live (by decide), hStarted.storage⟩
  rcases hLost with hUndefined | ⟨_, _, _, _, _, hEmpty, _⟩
  · rw [hCall] at hUndefined
    cases hUndefined
  · exact hEmpty rfl

/-- The first program is given the processor. Its one page is not put over the window. -/
theorem startSystem_run (window : Window) (hOut : ∀ task w, window.touched task w →
    4096 ≤ offsetFrom liebeOsProgramVirtualAddress w) :
    ∃ (l : FlatLoad flatFiles (startSystem fun _ => 0).storage missingFile 16 fun _ => 0x90)
      (process task : Nat) (t : System),
      Run (Guarded (SystemStep flatFiles) (KeepsMemory window flatFiles)) (startSystem fun _ => 0)
        [.load missingFile, .switch process task] t ∧
      t.live 0 = some (l.start (startSystem_heap _) (by decide)).live ∧
      t.storage = (l.start (startSystem_heap _) (by decide)).finish := by
  obtain ⟨l, _⟩ := startSystem_load
  let p := l.start (startSystem_heap _) (by decide)
  obtain ⟨s', hStep, hLive, hStorage⟩ := p.first
  have hFits : ∀ p' : ProgramStart flatFiles (startSystem fun _ => 0).storage missingFile,
      p'.Fits window := fun p' => by
    have hData : p'.program.data = .binary l.binary.buffer :=
      congrArg Program.data (p'.loaded_eq p)
    have hSize : p'.program.size = 16 := congrArg Program.size (p'.loaded_eq p)
    rw [ProgramStart.Fits, hData]
    dsimp only
    rw [hSize]
    exact fun w hTouched => hOut _ w hTouched
  have hLoad : Guarded (SystemStep flatFiles) (KeepsMemory window flatFiles)
      (startSystem fun _ => 0) (.load missingFile) s' := ⟨⟨hStep.1, hFits⟩, hStep.2⟩
  have hSwitch : Guarded (SystemStep flatFiles) (KeepsMemory window flatFiles) s'
      (.switch p.process p.task) _ := ⟨⟨id, trivial⟩, .switch _ _ _⟩
  have run := (Run.single hLoad).snoc hSwitch
  exact ⟨l, _, _, _, run, hLive, hStorage⟩

/-- That program can write to its stack. -/
theorem systemRun_isolated_first :
    ∃ process task t q, Run (Guarded (SystemStep flatFiles) (KeepsMemory noWindow flatFiles))
        (startSystem fun _ => 0) [.load missingFile, .switch process task] t ∧
      t.live 0 = some q ∧ pagingGet t.storage.mem q.directory 0x3FB000 &&& pagingIsWriteable ≠ 0 ∧
      OwnPage t 0 q (entryAddress (pagingGet t.storage.mem q.directory 0x3FB000)) := by
  obtain ⟨l, process, task, t, run, hLive, hStorage⟩ := startSystem_run noWindow fun _ _ hNone =>
    hNone.elim
  let p := l.start (startSystem_heap _) (by decide)
  have hWritable : pagingGet t.storage.mem p.directory 0x3FB000 &&& pagingIsWriteable ≠ 0 := by
    have hSpace := l.space (startSystem_heap _) (by decide)
    have hEntry := (hSpace.stack 0x3FB000 (by decide) (by decide)).2
    obtain ⟨_, hMapped⟩ := p.mappedTask (startSystem_heap _)
    obtain ⟨hStack, _⟩ := hMapped.stack
    rw [hStorage]
    change pagingGet p.finish.mem p.directory 0x3FB000 = _ at hEntry
    rw [hEntry, or_flags (by omega) (userFlags_lt true), and_pagingIsWriteable,
      show userFlags true = 7 by decide]
    omega
  exact ⟨process, task, t, p.live, run, hLive, hWritable,
    systemRun_isolated startSystem_booted run hLive (by decide) (by decide) hWritable⟩

/-- A program whose segment is larger than its file writes to the record of its task. -/
theorem systemRun_not_isolated :
    ¬ ∀ (d : DiskFiles) (s t : System) (events : List SystemEvent), s.Booted →
      Run (Guarded (SystemStep d) (Known d)) s events t →
      ∀ (i : Nat) (q : LiveProcess) (w : Nat), t.live i = some q → w < 4294967296 → w % 4096 = 0 →
      pagingGet t.storage.mem q.directory w &&& pagingIsWriteable ≠ 0 →
      OwnPage t i q (entryAddress (pagingGet t.storage.mem q.directory w)) := by
  intro hClaim
  obtain ⟨l, hBehind⟩ := startSystem_loadWild
  let p := l.start (startSystem_heap _)
  obtain ⟨s', hStep, hLive, hStorage⟩ := p.first
  obtain ⟨_, hEntry⟩ := l.wild (startSystem_heap _)
  rw [← hBehind] at hEntry
  change pagingGet p.finish.mem p.directory 0x600000 = p.task ||| userFlags true at hEntry
  rw [← hStorage] at hEntry
  have hTask := p.task_kept (startSystem_heap _)
  obtain ⟨hAligned, hLow, hHigh⟩ :=
    hTask.page (taskDirectory_inOrder (p.inOrder (startSystem_heap _)).2).kernel
  have hWritable : pagingGet s'.storage.mem p.directory 0x600000 &&& pagingIsWriteable ≠ 0 := by
    rw [hEntry, or_flags hAligned (userFlags_lt true), and_pagingIsWriteable,
      show userFlags true = 7 by decide]
    omega
  have hOwn := hClaim _ _ _ _ startSystem_booted (Run.single hStep) 0 p.live 0x600000 hLive
    (by decide) (by decide) hWritable
  change OwnPage s' 0 p.live (entryAddress (pagingGet s'.storage.mem p.directory 0x600000)) at hOwn
  rw [hEntry, entryAddress_or_flags hAligned (by omega) (userFlags_lt true)] at hOwn
  have hIn : InAllocation s'.storage.files.heap (p.live.part s'.storage.mem .task) p.task := by
    rw [hStorage]
    exact ⟨1, hTask, hTask.inBlocks (by omega)⟩
  exact (hOwn.others 0 p.live .task p.task hLive (by omega) hIn).2

end LiebeOS
