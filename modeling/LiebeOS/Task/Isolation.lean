import Mathlib.Data.Nat.Bitwise
import LiebeOS.Task.Teardown

/-! All processes at once. Each has allocations of its own, and what it may write to is
among them. -/
namespace LiebeOS

open Attempts MachineInt Bytes Transition

/-- A process that has been loaded, with the records of its task and of the directory. -/
structure LiveProcess where
  process : Nat
  task : Nat
  chunk : Nat
  loaded : LoadedProcess

/-- What a process has an allocation for. -/
inductive Part where
  | process
  | task
  | chunk
  | directory
  | stack
  | record
  | image
  | table (d : Nat)
  | slot (n : Nat)

/-- A part that is there for the program to write to. -/
def Part.ForProgram : Part → Prop
  | .image => True
  | .stack => True
  | .slot _ => True
  | _ => False

def ProgramData.record : ProgramData → Nat
  | .elf elfFile _ => elfFile
  | .binary _ => 0

def ProgramData.image : ProgramData → Nat
  | .elf _ file => file.elfMemory
  | .binary ptr => ptr

namespace LiveProcess

def memory (q : LiveProcess) : ProcessMemory := q.loaded.arguments.process

def directory (q : LiveProcess) : Nat := q.memory.directory

/-- The address of a part, which is null if there is no such part. -/
def part (q : LiveProcess) (mem : Memory) : Part → Nat
  | .process => q.process
  | .task => q.task
  | .chunk => q.chunk
  | .directory => q.directory
  | .stack => q.loaded.program.stack
  | .record => q.loaded.program.data.record
  | .image => q.loaded.program.data.image
  | .table d => if d < 1024 then directoryTables mem q.directory d else 0
  | .slot n => if n < liebeOsMaxProgramAllocations then (q.memory.allocations n).ptr else 0

/-- `y` is a page of the directory. -/
def Page (q : LiveProcess) (mem : Memory) (y : Nat) : Prop :=
  y = q.chunk ∨ y = q.directory ∨ ∃ d < 1024, y = directoryTables mem q.directory d

end LiveProcess

/-- The address `x` is in the allocation that begins at `ptr`. -/
def InAllocation (heap : Heap) (ptr x : Nat) : Prop :=
  ∃ n, AllottedAt heap ptr n ∧ InBlocks (blockOf ptr) n x

/-- Pages that the kernel needs where they are while the directory of a task is loaded,
by the record of the task. No program is put there. -/
structure Window where
  touched : Nat → Nat → Prop
  outside : ∀ task w, touched task w → ¬ InUserStack w ∧ (w < 0x01000000 ∨ w = task)

/-- What may stand in the entry of a page that is not in a slot. -/
structure LiveProcess.Entry (q : LiveProcess) (window : Window) (heap : Heap) (w e : Nat) :
    Prop where
  writable : e &&& pagingIsWriteable ≠ 0 →
    InAllocation heap q.loaded.program.data.image (entryAddress e) ∨
      InAllocation heap q.loaded.program.stack (entryAddress e)
  window : window.touched q.task w → e = w ||| userFlags false

/-- The directory of a process is complete, and its slots have the sizes of their
allocations. -/
structure LiveProcess.Alive (window : Window) (k : KernelMemory) (q : LiveProcess) : Prop where
  tables : PageTables k.mem q.directory (directoryTables k.mem q.directory)
  points : loadWord k.mem q.chunk = q.directory
  chunk : q.chunk % 4096 = 0 ∧ q.chunk < 4294967296
  some : q.task ≠ 0 ∧ ∀ y, q.Page k.mem y → y ≠ 0
  slots : ∀ n < liebeOsMaxProgramAllocations, (q.memory.allocations n).ptr ≠ 0 →
    1 ≤ (q.memory.allocations n).size ∧
      AllottedAt k.heap (q.memory.allocations n).ptr (blocksOf (q.memory.allocations n).size)
  empty : ∀ n < liebeOsMaxProgramAllocations, (q.memory.allocations n).ptr = 0 →
    (q.memory.allocations n).size = 0
  entries : ∀ w < 4294967296, w % 4096 = 0 →
    q.Entry window k.heap w (pagingGet k.mem q.directory w) ∨
      (SlotPage q.memory w ∧ pagingGet k.mem q.directory w = w ||| 7)

/-- Every part of a process has an allocation, which is no other part of any process. -/
structure MemoryInv (window : Window) (k : KernelMemory) (processes : Nat → Option LiveProcess) :
    Prop where
  inOrder : HeapInOrder k.heap
  owned : ∀ {i q}, processes i = some q → ∀ r, q.part k.mem r ≠ 0 →
    ∃ n, AllottedAt k.heap (q.part k.mem r) n
  unique : ∀ {i j q q'}, processes i = some q → processes j = some q' → ∀ r r',
    q.part k.mem r ≠ 0 → q.part k.mem r = q'.part k.mem r' → i = j ∧ r = r'
  alive : ∀ {i q}, processes i = some q → q.Alive window k

theorem and_pagingIsWriteable (e : Nat) : e &&& pagingIsWriteable = e / 2 % 2 * 2 := by
  have hBit := Nat.and_two_pow e 1
  rw [Nat.testBit_eq_decide_div_mod_eq] at hBit
  change e &&& 2 ^ 1 = _
  rw [hBit]
  rcases Nat.mod_two_eq_zero_or_one (e / 2) with hClear | hSet
  · simp [hClear]
  · simp [hSet]

/-! ### What is done beside a process -/

section Beside

variable {window : Window} {k k' : KernelMemory} {q : LiveProcess} {heap heap' : Heap}
  {ptr ptr' n n' x : Nat} {r : Part}

theorem AllottedAt.page (h : AllottedAt heap ptr n) (hHeap : KernelHeap heap) :
    ptr % 4096 = 0 ∧ 0x01000000 ≤ ptr ∧ ptr + 4096 ≤ 0x07400000 := by
  have hAddress := h.address
  obtain ⟨hLow, hHigh⟩ := h.allotted.inside
  have hPositive := h.allotted.run.1
  have hTotal := hHeap.total_eq
  omega

theorem AllottedAt.inBlocks (h : AllottedAt heap ptr n) (hPage : x / 4096 * 4096 = ptr) :
    InBlocks (blockOf ptr) n x := by
  have hAddress := h.address
  have hPositive := h.allotted.run.1
  refine ⟨by omega, by omega⟩

theorem AllottedAt.block_ne (h : AllottedAt heap ptr n) (h' : AllottedAt heap ptr' n')
    (hne : ptr ≠ ptr') : blockOf ptr ≠ blockOf ptr' := by
  have hAddress := h.address
  have hAddress' := h'.address
  omega

theorem PageTables.own {mem : Memory} {directory : Nat} {table : Nat → Nat}
    (h : PageTables mem directory table) :
    PageTables mem directory (directoryTables mem directory) where
  aligned := h.aligned
  lt := h.lt
  entry _ _ := rfl
  apart d hd hSame := h.apart d hd ((h.entry d hd).symm.trans hSame)
  distinct d hd e he hSame :=
    h.distinct d hd e he ((h.entry d hd).symm.trans (hSame.trans (h.entry e he)))

/-- The pages of the directory and the allocations of the process are as before. -/
structure LiveProcess.Undisturbed (q : LiveProcess) (k k' : KernelMemory) : Prop where
  mem : ∀ x < 4294967296, q.Page k.mem (x / 4096 * 4096) → k'.mem x = k.mem x
  blocks : ∀ r n, q.part k.mem r ≠ 0 → AllottedAt k.heap (q.part k.mem r) n →
    AllottedAt k'.heap (q.part k.mem r) n

theorem LiveProcess.Undisturbed.tables (h : q.Undisturbed k k') (hAlive : q.Alive window k)
    {d : Nat} (hd : d < 1024) :
    directoryTables k'.mem q.directory d = directoryTables k.mem q.directory d := by
  obtain ⟨hTables, _⟩ := hAlive.tables.remapped fun x hx hIn => h.mem x hx (Or.inr hIn)
  exact hTables.entry d hd

theorem LiveProcess.Undisturbed.part (h : q.Undisturbed k k') (hAlive : q.Alive window k)
    (r : Part) : q.part k'.mem r = q.part k.mem r := by
  cases r with
  | table d =>
      rw [LiveProcess.part, LiveProcess.part]
      by_cases hd : d < 1024
      · rw [if_pos hd, if_pos hd]
        exact h.tables hAlive hd
      · rw [if_neg hd, if_neg hd]
  | _ => rfl

theorem LiveProcess.Undisturbed.inAllocation (h : q.Undisturbed k k') (r : Part)
    (hPart : q.part k.mem r ≠ 0) (hIn : InAllocation k.heap (q.part k.mem r) x) :
    InAllocation k'.heap (q.part k.mem r) x := by
  obtain ⟨n, hAllotted, hBlocks⟩ := hIn
  exact ⟨n, h.blocks r n hPart hAllotted, hBlocks⟩

/-- A null pointer is no allocation of the heap. -/
theorem InAllocation.ne_zero (h : InAllocation heap ptr x) : ptr ≠ 0 := fun hNull => by
  obtain ⟨n, hAllotted, _⟩ := h
  have hInside := hAllotted.allotted.inside.1
  rw [hNull, blockOf_null] at hInside
  omega

theorem LiveProcess.Alive.undisturbed (hAlive : q.Alive window k) (h : q.Undisturbed k k') :
    q.Alive window k' := by
  obtain ⟨hTables, hPages⟩ := hAlive.tables.remapped fun x hx hIn => h.mem x hx (Or.inr hIn)
  have hPage : ∀ y, q.Page k'.mem y → q.Page k.mem y := fun y hy => by
    rcases hy with hChunk | hDirectory | ⟨d, hd, hTable⟩
    · exact Or.inl hChunk
    · exact Or.inr (Or.inl hDirectory)
    · exact Or.inr (Or.inr ⟨d, hd, hTable.trans (h.tables hAlive hd)⟩)
  obtain ⟨hChunk, hLt⟩ := hAlive.chunk
  refine ⟨hTables.own, ?_, hAlive.chunk, ⟨hAlive.some.1, fun y hy => hAlive.some.2 y (hPage y hy)⟩,
    fun n hn hPtr => ?_, hAlive.empty, fun w hw hAligned => ?_⟩
  · rw [← hAlive.points]
    refine loadWord_congr fun i hi => ?_
    rw [behind_of_lt (by omega)]
    exact h.mem _ (by omega) (Or.inl (by omega))
  · obtain ⟨hSize, hAllotted⟩ := hAlive.slots n hn hPtr
    have hPart : q.part k.mem (.slot n) = (q.memory.allocations n).ptr := if_pos hn
    have hKept := h.blocks (.slot n) _ (by rw [hPart]; exact hPtr) (by rw [hPart]; exact hAllotted)
    rw [hPart] at hKept
    exact ⟨hSize, hKept⟩
  · rw [hPages.entries w hw hAligned]
    refine (hAlive.entries w hw hAligned).imp
      (fun hEntry => ⟨fun hWritable => ?_, hEntry.window⟩) id
    rcases hEntry.writable hWritable with hImage | hStack
    · exact Or.inl (h.inAllocation .image hImage.ne_zero hImage)
    · exact Or.inr (h.inAllocation .stack hStack.ne_zero hStack)

end Beside

section Replace

variable {window : Window} {k k' : KernelMemory} {processes : Nat → Option LiveProcess}

/-- What happens beside all processes. -/
theorem MemoryInv.undisturbed (h : MemoryInv window k processes) (hOrder : HeapInOrder k'.heap)
    (hAll : ∀ j q, processes j = some q → q.Undisturbed k k') : MemoryInv window k' processes where
  inOrder := hOrder
  owned {i q} hq r hPart := by
    have hSame := (hAll i q hq).part (h.alive hq) r
    rw [hSame] at hPart ⊢
    obtain ⟨n, hAllotted⟩ := h.owned hq r hPart
    exact ⟨n, (hAll i q hq).blocks r n hPart hAllotted⟩
  unique {i j q q'} hq hq' r r' hPart hEqual := by
    rw [(hAll i q hq).part (h.alive hq) r] at hPart hEqual
    rw [(hAll j q' hq').part (h.alive hq') r'] at hEqual
    exact h.unique hq hq' r r' hPart hEqual
  alive {i q} hq := (h.alive hq).undisturbed (hAll i q hq)

/-- A process with allocations of its own. -/
structure LiveProcess.Housed (window : Window) (k : KernelMemory) (q : LiveProcess) : Prop where
  alive : q.Alive window k
  owned : ∀ r, q.part k.mem r ≠ 0 → ∃ n, AllottedAt k.heap (q.part k.mem r) n
  unique : ∀ r r', q.part k.mem r ≠ 0 → q.part k.mem r = q.part k.mem r' → r = r'

/-- Something happens to one process, or it takes the place of one. -/
theorem MemoryInv.replace (h : MemoryInv window k processes) (i : Nat) (new : Option LiveProcess)
    (hOrder : HeapInOrder k'.heap)
    (hOthers : ∀ j q, j ≠ i → processes j = some q → q.Undisturbed k k')
    (hNew : ∀ q, new = some q → q.Housed window k' ∧
      ∀ j q', j ≠ i → processes j = some q' → ∀ r r', q'.part k.mem r ≠ 0 →
        q.part k'.mem r' ≠ q'.part k.mem r) :
    MemoryInv window k' (Function.update processes i new) := by
  have hCases : ∀ {j q}, Function.update processes i new j = some q →
      (j = i ∧ new = some q) ∨ (j ≠ i ∧ processes j = some q) := fun {j q} hq => by
    by_cases hSame : j = i
    · rw [hSame, Function.update_self] at hq
      exact Or.inl ⟨hSame, hq⟩
    · rw [Function.update_of_ne hSame] at hq
      exact Or.inr ⟨hSame, hq⟩
  have hPart : ∀ {j q}, j ≠ i → processes j = some q → ∀ r, q.part k'.mem r = q.part k.mem r :=
    fun {j q} hne hq r => (hOthers j q hne hq).part (h.alive hq) r
  refine ⟨hOrder, fun {j q} hq r hSome => ?_, fun {j j' q q'} hq hq' r r' hSome hEqual => ?_,
    fun {j q} hq => ?_⟩
  · rcases hCases hq with ⟨_, hMine⟩ | ⟨hne, hOld⟩
    · exact (hNew q hMine).1.owned r hSome
    · rw [hPart hne hOld] at hSome ⊢
      obtain ⟨n, hAllotted⟩ := h.owned hOld r hSome
      exact ⟨n, (hOthers j q hne hOld).blocks r n hSome hAllotted⟩
  · rcases hCases hq with ⟨rfl, hMine⟩ | ⟨hne, hOld⟩
    · rcases hCases hq' with ⟨rfl, hMine'⟩ | ⟨hne', hOld'⟩
      · obtain rfl := Option.some.inj (hMine.symm.trans hMine')
        exact ⟨rfl, (hNew q hMine).1.unique r r' hSome hEqual⟩
      · rw [hEqual, hPart hne' hOld'] at hSome
        rw [hPart hne' hOld'] at hEqual
        exact absurd hEqual ((hNew q hMine).2 j' q' hne' hOld' r' r hSome)
    · rw [hPart hne hOld] at hSome hEqual
      rcases hCases hq' with ⟨rfl, hMine'⟩ | ⟨hne', hOld'⟩
      · exact absurd hEqual.symm ((hNew q' hMine').2 j q hne hOld r r' hSome)
      · rw [hPart hne' hOld'] at hEqual
        exact h.unique hOld hOld' r r' hSome hEqual
  · rcases hCases hq with ⟨_, hMine⟩ | ⟨hne, hOld⟩
    · exact (hNew q hMine).1.alive
    · exact (h.alive hOld).undisturbed (hOthers j q hne hOld)

end Replace

/-! ### What a process asks for -/

/-- What is looked at while a process calls the kernel: all allocations but those of its
slots. -/
def LiveProcess.life (q : LiveProcess) (window : Window) (k : KernelMemory) : Life where
  guard b n := Allotted k.heap b n ∧ ∀ m < liebeOsMaxProgramAllocations,
    (q.memory.allocations m).ptr ≠ 0 → b ≠ blockOf (q.memory.allocations m).ptr
  before := k.mem
  chunk := q.chunk
  directory := q.directory
  table := directoryTables k.mem q.directory
  entry := q.Entry window k.heap
  sized := True

section Calls

variable {window : Window} {k : KernelMemory} {processes : Nat → Option LiveProcess}
  {i j n : Nat} {q q' : LiveProcess} {r : Part}

theorem LiveProcess.part_slot (q : LiveProcess) (mem : Memory)
    (hn : n < liebeOsMaxProgramAllocations) :
    q.part mem (.slot n) = (q.memory.allocations n).ptr := if_pos hn

theorem LiveProcess.part_table (q : LiveProcess) (mem : Memory) {d : Nat} (hd : d < 1024) :
    q.part mem (.table d) = directoryTables mem q.directory d := if_pos hd

/-- Allocations of others, and those that a process has had from the start, stay. -/
theorem MemoryInv.guard (h : MemoryInv window k processes) (hq : processes i = some q)
    (hq' : processes j = some q') (hPart : q'.part k.mem r ≠ 0)
    (hOther : ∀ m, ¬ (j = i ∧ r = .slot m)) (hAllotted : AllottedAt k.heap (q'.part k.mem r) n) :
    (q.life window k).guard (blockOf (q'.part k.mem r)) n := by
  refine ⟨hAllotted.allotted, fun m hm hPtr hBlock => ?_⟩
  have hSlot := q.part_slot k.mem hm
  obtain ⟨n', hOwned⟩ := h.owned hq (.slot m) (by rw [hSlot]; exact hPtr)
  rw [hSlot] at hOwned
  have hAddress := hAllotted.address
  have hAddress' := hOwned.address
  exact hOther m (h.unique hq' hq r (.slot m) hPart (by rw [hSlot]; omega))

/-- The pages of its directory are not there for the program. -/
theorem MemoryInv.page_part (h : MemoryInv window k processes) (hq : processes i = some q) {y : Nat}
    (hPage : q.Page k.mem y) : ∃ r, q.part k.mem r = y ∧ y ≠ 0 ∧ ¬ r.ForProgram := by
  refine (?_ : ∃ r, q.part k.mem r = y ∧ ¬ Part.ForProgram r).elim fun r hr =>
    ⟨r, hr.1, (h.alive hq).some.2 y hPage, hr.2⟩
  rcases hPage with rfl | rfl | ⟨d, hd, rfl⟩
  · exact ⟨.chunk, rfl, id⟩
  · exact ⟨.directory, rfl, id⟩
  · exact ⟨.table d, q.part_table k.mem hd, id⟩

theorem MemoryInv.sound (h : MemoryInv window k processes) (hq : processes i = some q) :
    (q.life window k).Sound := by
  have hAlive := h.alive hq
  refine ⟨hAlive.chunk, fun d hd hSame => ?_, fun x hPage => ?_,
    fun w hAligned hLow hHigh hOut => ?_⟩
  · have hChunk : q.part k.mem .chunk ≠ 0 := hAlive.some.2 _ (Or.inl rfl)
    have hEqual : q.part k.mem .chunk = q.part k.mem (.table d) := by
      rw [q.part_table k.mem hd]
      exact hSame
    exact nomatch (h.unique hq hq _ _ hChunk hEqual).2
  · obtain ⟨r, hPart, hSome, hKernel⟩ := h.page_part hq hPage
    rw [← hPart] at hSome
    obtain ⟨n, hAllotted⟩ := h.owned hq r hSome
    exact ⟨_, n, h.guard hq hq hSome (fun m hm => hKernel (hm.2 ▸ trivial)) hAllotted,
      hAllotted.inBlocks hPart.symm⟩
  · refine ⟨fun hWritable => absurd ?_ hWritable, fun hTouched => ?_⟩
    · rw [and_pagingIsWriteable]
      omega
    · obtain ⟨_, hTask⟩ := window.outside _ _ hTouched
      obtain rfl : w = q.task := by omega
      have hSome : q.part k.mem .task ≠ 0 := hAlive.some.1
      obtain ⟨n, hAllotted⟩ := h.owned hq .task hSome
      refine absurd ⟨_, n, h.guard hq hq hSome (fun m hm => nomatch hm.2) hAllotted,
        hAllotted.inBlocks ?_⟩ hOut
      change q.task / 4096 * 4096 = q.task
      omega

theorem MemoryInv.lives (h : MemoryInv window k processes) (hq : processes i = some q) :
    (q.life window k).Inv k q.memory := by
  have hAlive := h.alive hq
  have hSlots : SlotsOwned k.heap q.memory :=
    { inOrder := h.inOrder
      granted := hAlive.slots
      distinct := fun m hm m' hm' hPtr hSame => by
        have hSlot := q.part_slot k.mem hm
        have hOther := (h.unique hq hq (.slot m) (.slot m') (by rw [hSlot]; exact hPtr)
          (by rw [hSlot, q.part_slot k.mem hm']; exact hSame)).2
        exact Part.slot.inj hOther }
  refine ⟨⟨h.inOrder.kernel, fun b n hGuard => hGuard.1, fun _ _ _ _ => rfl, hAlive.tables,
    hAlive.points, hAlive.entries⟩, rfl, fun n hn => ?_, fun _ => hSlots⟩
  by_cases hPtr : (q.memory.allocations n).ptr = 0
  · have hSize := hAlive.empty n hn hPtr
    refine ⟨⟨by omega, by omega, fun x _ hTo => by omega⟩, fun b m hGuard => ?_⟩
    rw [hPtr]
    exact Beside.null hGuard.1.inside.1 m
  · obtain ⟨hSize, hAllotted⟩ := hAlive.slots n hn hPtr
    have hAddress := hAllotted.address
    have hTotal := h.inOrder.kernel.total_eq
    obtain ⟨hLow, hHigh⟩ := hAllotted.allotted.inside
    have hCovers := blocksOf_covers (q.memory.allocations n).size
    refine ⟨⟨by omega, by omega, fun x hFrom hTo => ⟨by omega, ?_⟩⟩, fun b m hGuard => ?_⟩
    · rintro ⟨b, m, hGuard, hIn⟩
      have hApart := hAllotted.allotted.apart hGuard.1 (hGuard.2 n hn hPtr).symm
      have hBlocks : (((q.memory.allocations n).size + 4095) / 4096 : Nat) ≤
          blocksOf (q.memory.allocations n).size := Nat.le_max_right _ _
      unfold RangesApart at hApart
      unfold InBlocks at hIn
      omega
    · exact hGuard.1.beside (Or.inr hAllotted.allotted.protected) (hGuard.2 n hn hPtr).symm

/-- What a process asks for disturbs no other one. -/
theorem MemoryInv.others (h : MemoryInv window k processes) (hq : processes i = some q)
    {k' : KernelMemory} {p : ProcessMemory} (hInv : (q.life window k).Inv k' p) (hne : j ≠ i)
    (hq' : processes j = some q') : q'.Undisturbed k k' := by
  refine ⟨fun x hx hPage => ?_, fun r n hPart hAllotted => ?_⟩
  · obtain ⟨r, hPart, hSome, _⟩ := h.page_part hq' hPage
    rw [← hPart] at hSome
    obtain ⟨n, hAllotted⟩ := h.owned hq' r hSome
    refine hInv.still x hx ⟨_, n, h.guard hq hq' hSome (fun m hm => hne hm.1) hAllotted,
      hAllotted.inBlocks hPart.symm⟩ fun ⟨d, hd, hTable⟩ => ?_
    refine hne (h.unique hq' hq r (.table d) hSome ?_).1
    rw [q.part_table k.mem hd]
    exact hPart.trans hTable
  · exact ⟨hAllotted.address, hInv.kept _ n (h.guard hq hq' hPart (fun m hm => hne hm.1) hAllotted)⟩

/-- The process with other slots. -/
def LiveProcess.withArguments (q : LiveProcess) (arguments : ArgumentsProcess) : LiveProcess :=
  { q with loaded := { q.loaded with arguments := arguments } }

section Called

variable {k' : KernelMemory} {arguments : ArgumentsProcess}

theorem Part.slot_cases (r : Part) : (∀ m, r ≠ .slot m) ∨ ∃ m, r = .slot m := by
  cases r with
  | slot m => exact Or.inr ⟨m, rfl⟩
  | _ => exact Or.inl fun _ hSame => nomatch hSame

theorem LiveProcess.called_slot (q : LiveProcess) (arguments : ArgumentsProcess) (mem : Memory)
    (hn : n < liebeOsMaxProgramAllocations) :
    (q.withArguments arguments).part mem (.slot n) = (arguments.process.allocations n).ptr :=
  if_pos hn

/-- Parts that are no slots stay where they are. -/
theorem LiveProcess.called_part (hInv : (q.life window k).Inv k' arguments.process)
    (hNoSlot : ∀ m, r ≠ .slot m) :
    (q.withArguments arguments).part k'.mem r = q.part k.mem r := by
  have hDirectory : (q.withArguments arguments).directory = q.directory := hInv.process
  cases r with
  | slot m => exact absurd rfl (hNoSlot m)
  | directory => exact hDirectory
  | table d =>
      rw [LiveProcess.part, LiveProcess.part, hDirectory]
      by_cases hd : d < 1024
      · rw [if_pos hd, if_pos hd]
        exact hInv.tables.entry d hd
      · rw [if_neg hd, if_neg hd]
  | _ => rfl

theorem MemoryInv.called_kept (h : MemoryInv window k processes) (hq : processes i = some q)
    (hInv : (q.life window k).Inv k' arguments.process) (hNoSlot : ∀ m, r ≠ .slot m)
    (hPart : q.part k.mem r ≠ 0) (hAllotted : AllottedAt k.heap (q.part k.mem r) n) :
    AllottedAt k'.heap (q.part k.mem r) n :=
  ⟨hAllotted.address, hInv.kept _ _ (h.guard hq hq hPart (fun m hm => hNoSlot m hm.2) hAllotted)⟩

/-- A slot is none of the allocations that stay. -/
theorem MemoryInv.called_apart (h : MemoryInv window k processes) (hq : processes i = some q)
    (hInv : (q.life window k).Inv k' arguments.process) (hq' : processes j = some q')
    (hOther : ∀ m, ¬ (j = i ∧ r = .slot m)) (hPart : q'.part k.mem r ≠ 0)
    (hn : n < liebeOsMaxProgramAllocations) :
    (arguments.process.allocations n).ptr ≠ q'.part k.mem r := fun hSame => by
  obtain ⟨m, hAllotted⟩ := h.owned hq' _ hPart
  have hBeside := (hInv.slots _ hn).beside _ m (h.guard hq hq' hPart hOther hAllotted)
  have hPositive := hAllotted.allotted.run.1
  rw [hSame, Beside] at hBeside
  omega

theorem MemoryInv.called_alive (h : MemoryInv window k processes) (hq : processes i = some q)
    (hInv : (q.life window k).Inv k' arguments.process) :
    (q.withArguments arguments).Alive window k' := by
  have hOwned := hInv.owned trivial
  have hAlive := h.alive hq
  have hDirectory : (q.withArguments arguments).directory = q.directory := hInv.process
  have hKept : ∀ {r x}, (∀ m, r ≠ .slot m) → InAllocation k.heap (q.part k.mem r) x →
      InAllocation k'.heap (q.part k.mem r) x := fun hNoSlot hIn => by
    have hPart := hIn.ne_zero
    obtain ⟨n, hAllotted, hBlocks⟩ := hIn
    exact ⟨n, h.called_kept hq hInv hNoSlot hPart hAllotted, hBlocks⟩
  refine ⟨?_, ?_, hAlive.chunk, ⟨hAlive.some.1, fun y hPage => ?_⟩, hOwned.granted,
    fun n hn hNull => ?_, fun w hw hPage => ?_⟩
  · rw [hDirectory]
    exact hInv.tables.own
  · rw [hDirectory]
    exact hInv.points
  · rcases hPage with hChunk | hSame | ⟨d, hd, hSame⟩
    · exact hAlive.some.2 y (Or.inl hChunk)
    · exact hAlive.some.2 y (Or.inr (Or.inl (hSame.trans hDirectory)))
    · rw [hDirectory] at hSame
      exact hAlive.some.2 y (Or.inr (Or.inr ⟨d, hd, hSame.trans (hInv.tables.entry d hd)⟩))
  · -- behind null there are no pages of the heap
    have hPages := (hInv.slots n hn).pages 0
    rw [show (arguments.process.allocations n).ptr = 0 from hNull] at hPages
    change (arguments.process.allocations n).size = 0
    by_contra hSize
    exact absurd (hPages (Nat.le_refl 0) (by omega)).1 (by decide)
  · rw [hDirectory]
    refine (hInv.entries w hw hPage).imp (fun hEntry => ⟨fun hWritable => ?_, hEntry.window⟩) id
    exact (hEntry.writable hWritable).imp
      (fun hImage => hKept (r := .image) (fun _ hSame => nomatch hSame) hImage)
      fun hStack => hKept (r := .stack) (fun _ hSame => nomatch hSame) hStack

theorem MemoryInv.called_housed (h : MemoryInv window k processes) (hq : processes i = some q)
    (hInv : (q.life window k).Inv k' arguments.process) :
    (q.withArguments arguments).Housed window k' := by
  have hOwned := hInv.owned trivial
  have hRange : ∀ {m}, (q.withArguments arguments).part k'.mem (.slot m) ≠ 0 →
      m < liebeOsMaxProgramAllocations := fun {m} hPart => by
    by_contra hm
    exact hPart (if_neg hm)
  refine ⟨h.called_alive hq hInv, fun r hPart => ?_, fun r r' hPart hEqual => ?_⟩
  · rcases r.slot_cases with hNoSlot | ⟨m, rfl⟩
    · rw [LiveProcess.called_part hInv hNoSlot] at hPart ⊢
      obtain ⟨n, hAllotted⟩ := h.owned hq r hPart
      exact ⟨n, h.called_kept hq hInv hNoSlot hPart hAllotted⟩
    · have hm := hRange hPart
      rw [q.called_slot arguments k'.mem hm] at hPart ⊢
      exact ⟨_, (hOwned.granted m hm hPart).2⟩
  · rcases r.slot_cases with hNoSlot | ⟨m, rfl⟩
    · rw [LiveProcess.called_part hInv hNoSlot] at hPart hEqual
      rcases r'.slot_cases with hNoSlot' | ⟨m', rfl⟩
      · rw [LiveProcess.called_part hInv hNoSlot'] at hEqual
        exact (h.unique hq hq r r' hPart hEqual).2
      · have hm' := hRange (hEqual ▸ hPart)
        rw [q.called_slot arguments k'.mem hm'] at hEqual
        exact absurd hEqual.symm
          (h.called_apart hq hInv hq (fun m hm => hNoSlot m hm.2) hPart hm')
    · have hm := hRange hPart
      rw [q.called_slot arguments k'.mem hm] at hPart hEqual
      rcases r'.slot_cases with hNoSlot' | ⟨m', rfl⟩
      · rw [LiveProcess.called_part hInv hNoSlot'] at hEqual
        exact absurd hEqual
          (h.called_apart hq hInv hq (fun m hm => hNoSlot' m hm.2) (hEqual ▸ hPart) hm)
      · have hm' : m' < liebeOsMaxProgramAllocations := hRange (hEqual ▸ hPart)
        rw [q.called_slot arguments k'.mem hm'] at hEqual
        exact congrArg Part.slot (hOwned.distinct m hm m' hm' hPart hEqual)

/-- A process has called the kernel. -/
theorem MemoryInv.call (h : MemoryInv window k processes) (hq : processes i = some q)
    (hInv : (q.life window k).Inv k' arguments.process) :
    MemoryInv window k' (Function.update processes i (some (q.withArguments arguments))) := by
  refine h.replace i _ (hInv.owned trivial).inOrder (fun j q' hne hq' => h.others hq hInv hne hq')
    fun q' hSome => ?_
  obtain rfl := Option.some.inj hSome
  refine ⟨h.called_housed hq hInv, fun j q' hne hq' r r' hPart => ?_⟩
  rcases r'.slot_cases with hNoSlot | ⟨m, rfl⟩
  · rw [LiveProcess.called_part hInv hNoSlot]
    exact fun hSame => hne (h.unique hq' hq r r' hPart hSame.symm).1
  · by_cases hm : m < liebeOsMaxProgramAllocations
    · rw [q.called_slot arguments k'.mem hm]
      exact h.called_apart hq hInv hq' (fun m hm => hne hm.1) hPart hm
    · rw [LiveProcess.part, if_neg hm]
      exact Ne.symm hPart

end Called

end Calls

/-! ### What a process can write to -/

section Writes

variable {window : Window} {k : KernelMemory} {processes : Nat → Option LiveProcess} {i j x w : Nat}
  {q q' : LiveProcess} {r r' : Part}

/-- Two allocations that share an address are the same. -/
theorem InAllocation.unique {heap : Heap} {ptr ptr' x : Nat} (h : InAllocation heap ptr x)
    (h' : InAllocation heap ptr' x) : ptr = ptr' := by
  obtain ⟨n, hAllotted, hLow, hHigh⟩ := h
  obtain ⟨n', hAllotted', hLow', hHigh'⟩ := h'
  by_contra hne
  have hApart := hAllotted.allotted.apart hAllotted'.allotted (hAllotted.block_ne hAllotted' hne)
  unfold RangesApart at hApart
  omega

/-- No address is in two parts. -/
theorem MemoryInv.disjoint (h : MemoryInv window k processes) (hq : processes i = some q)
    (hq' : processes j = some q') (hIn : InAllocation k.heap (q.part k.mem r) x)
    (hIn' : InAllocation k.heap (q'.part k.mem r') x) : i = j ∧ r = r' :=
  h.unique hq hq' r r' hIn.ne_zero (hIn.unique hIn')

/-- What a writable entry maps is in a part that is there for the program. -/
theorem MemoryInv.writable (h : MemoryInv window k processes) (hq : processes i = some q)
    (hw : w < 4294967296) (hPage : w % 4096 = 0)
    (hWritable : pagingGet k.mem q.directory w &&& pagingIsWriteable ≠ 0) :
    ∃ r : Part, r.ForProgram ∧
      InAllocation k.heap (q.part k.mem r) (entryAddress (pagingGet k.mem q.directory w)) := by
  rcases (h.alive hq).entries w hw hPage with hEntry | ⟨⟨n, hn, hPtr, hLow, hHigh⟩, hSame⟩
  · rcases hEntry.writable hWritable with hImage | hStack
    · exact ⟨.image, trivial, hImage⟩
    · exact ⟨.stack, trivial, hStack⟩
  · obtain ⟨hSize, hAllotted⟩ := (h.alive hq).slots n hn hPtr
    have hAddress := hAllotted.address
    have hBlocks : (((q.memory.allocations n).size + 4095) / 4096 : Nat) ≤
      blocksOf (q.memory.allocations n).size := Nat.le_max_right _ _
    refine ⟨.slot n, trivial, ?_⟩
    rw [hSame, entryAddress_or_flags hPage hw (by decide), q.part_slot k.mem hn]
    exact ⟨_, hAllotted, by omega, by omega⟩

/-- A whole page is in an allocation when its beginning is. -/
theorem InAllocation.page {heap : Heap} {ptr y : Nat} (h : InAllocation heap ptr x)
    (hPage : y / 4096 = x / 4096) : InAllocation heap ptr y := by
  obtain ⟨n, hAllotted, hLow, hHigh⟩ := h
  have hAddress := hAllotted.address
  exact ⟨n, hAllotted, by omega, by omega⟩

/-- What a program writes is not in a page of a directory. -/
theorem MemoryInv.store (h : MemoryInv window k processes) (hq : processes i = some q)
    (hIn : InAllocation k.heap (q.part k.mem r) x) (hPart : r.ForProgram) (byte : UInt8) :
    MemoryInv window { k with mem := Function.update k.mem x byte } processes := by
  refine h.undisturbed h.inOrder fun j q' hq' =>
    ⟨fun y hy hPage => ?_, fun _ _ _ hAllotted => hAllotted⟩
  refine Function.update_of_ne (fun hSame => ?_) _ _
  subst hSame
  obtain ⟨r', hPlace, hSome, hKernel⟩ := h.page_part hq' hPage
  rw [← hPlace] at hSome
  obtain ⟨n, hAllotted⟩ := h.owned hq' r' hSome
  obtain ⟨_, rfl⟩ := h.disjoint hq hq' hIn ⟨n, hAllotted, hAllotted.inBlocks hPlace.symm⟩
  exact hKernel hPart

end Writes

/-! ### The end of a process -/

def ProgramData.parts : ProgramData → List Part
  | .elf elfFile _ => if elfFile = 0 then [] else [.image, .record]
  | .binary _ => [.image]

/-- The parts that are given back, in this order. -/
def LiveProcess.released (q : LiveProcess) : List Part :=
  (List.range liebeOsMaxProgramAllocations).map .slot ++ (q.loaded.program.data.parts ++ (.stack ::
    (((List.range 1024).map .table ++ [.directory, .chunk]) ++ [.task])))

section Release

variable {window : Window} {k : KernelMemory} {processes : Nat → Option LiveProcess} {i : Nat}
  {q : LiveProcess}

theorem LiveProcess.released_once (q : LiveProcess) : q.released.Nodup := by
  have hSlots : ((List.range liebeOsMaxProgramAllocations).map Part.slot).Nodup :=
    List.nodup_range.map fun _ _ hSame => Part.slot.inj hSame
  have hTables : ((List.range 1024).map Part.table).Nodup :=
    List.nodup_range.map fun _ _ hSame => Part.table.inj hSame
  have hData : q.loaded.program.data.parts = [] ∨ q.loaded.program.data.parts = [.image, .record] ∨
      q.loaded.program.data.parts = [.image] := by
    cases q.loaded.program.data with
    | elf elfFile file =>
        rw [ProgramData.parts]
        split_ifs
        · exact Or.inl rfl
        · exact Or.inr (Or.inl rfl)
    | binary ptr => exact Or.inr (Or.inr rfl)
  refine List.nodup_append.mpr ⟨hSlots, ?_, fun r hr r' hr' hSame => ?_⟩
  · rcases hData with hNone | hBoth | hOne
    · simp [hNone, hTables, List.nodup_append]
    · simp [hBoth, hTables, List.nodup_append]
    · simp [hOne, hTables, List.nodup_append]
  · obtain ⟨n, _, rfl⟩ := List.mem_map.mp hr
    subst hSame
    rcases hData with hNone | hBoth | hOne
    · simp [hNone] at hr'
    · simp [hBoth] at hr'
    · simp [hOne] at hr'

theorem LiveProcess.released_parts (q : LiveProcess) (mem : Memory) :
    q.loaded.releases q.task q.chunk q.directory (directoryTables mem q.directory) =
      q.released.map (q.part mem) := by
  have hSlots : q.loaded.slots =
      ((List.range liebeOsMaxProgramAllocations).map Part.slot).map (q.part mem) := by
    rw [List.map_map]
    exact List.map_congr_left fun n hn => (q.part_slot mem (List.mem_range.mp hn)).symm
  have hTables : (List.range 1024).map (directoryTables mem q.directory) =
      ((List.range 1024).map Part.table).map (q.part mem) := by
    rw [List.map_map]
    exact List.map_congr_left fun n hn => (q.part_table mem (List.mem_range.mp hn)).symm
  have hData : q.loaded.program.data.releases = q.loaded.program.data.parts.map (q.part mem) := by
    have hImage : q.part mem .image = q.loaded.program.data.image := rfl
    have hRecord : q.part mem .record = q.loaded.program.data.record := rfl
    cases hKind : q.loaded.program.data with
    | elf elfFile file =>
        rw [hKind] at hImage hRecord
        rw [ProgramData.releases, ProgramData.parts]
        split_ifs
        · rfl
        · rw [List.map_cons, List.map_cons, hImage, hRecord]
          rfl
    | binary ptr =>
        rw [hKind] at hImage
        rw [ProgramData.releases, ProgramData.parts, List.map_cons, hImage]
        rfl
  rw [LoadedProcess.releases, released, directoryReleases, hSlots, hTables, hData, List.map_append,
    List.map_append, List.map_cons, List.map_append, List.map_append]
  rfl

/-- All that is given back was the process's own, and nothing is given back twice. -/
theorem MemoryInv.terminate (h : MemoryInv window k processes) (hq : processes i = some q) :
    MemoryInv window (processTerminateMemory k q.loaded q.task q.chunk)
      (Function.update processes i none) := by
  have hAlive := h.alive hq
  rw [processTerminateMemory_eq hAlive.tables hAlive.points, q.released_parts]
  have hOwned : ∀ p ∈ q.released.map (q.part k.mem), Owned k.heap p := fun p hp => by
    obtain ⟨r, _, rfl⟩ := List.mem_map.mp hp
    by_cases hNull : q.part k.mem r = 0
    · exact Or.inl hNull
    · obtain ⟨n, hAllotted⟩ := h.owned hq r hNull
      exact Or.inr hAllotted.allotted.protected
  -- the blocks of one part are not those of another
  have hBlocks : ∀ {r j q'} r', processes j = some q' → q'.part k.mem r' ≠ 0 → (j = i → r' ≠ r) →
      blockOf (q'.part k.mem r') ≠ blockOf (q.part k.mem r) := fun {r j q'} r' hq' hSome hne => by
    obtain ⟨n, hAllotted⟩ := h.owned hq' r' hSome
    by_cases hNull : q.part k.mem r = 0
    · have hInside := hAllotted.allotted.inside.1
      rw [hNull, blockOf_null]
      omega
    · obtain ⟨n', hAllotted'⟩ := h.owned hq r hNull
      refine hAllotted.block_ne hAllotted' fun hSame => ?_
      obtain ⟨hIndex, hPart⟩ := h.unique hq' hq r' r hSome hSame
      exact hne hIndex hPart
  refine h.replace i none ?_ (fun j q' hne hq' => ⟨fun _ _ _ => ?_, fun r n hSome hAllotted => ?_⟩)
    fun _ hNone => nomatch hNone
  · refine kfreeAll_inOrder h.inOrder hOwned (List.pairwise_map.mpr ?_)
    exact q.released_once.imp fun hne hSome => hBlocks _ hq hSome fun _ => hne
  · rw [kfreeAll_mem]
  · refine ⟨hAllotted.address, (kfreeAll_keeps ⟨h.inOrder.kernel, hAllotted.allotted⟩
      fun p hp => ?_).block⟩
    have hPtr := hOwned p hp
    obtain ⟨r', _, rfl⟩ := List.mem_map.mp hp
    exact hAllotted.allotted.beside hPtr (hBlocks r hq' hSome fun hSame => absurd hSame hne).symm

end Release

end LiebeOS
