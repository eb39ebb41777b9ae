import LiebeOS.Task.ArgumentsPassed
import LiebeOS.Task.LoadAtomic
import LiebeOS.Task.ProcessFree

/-! The life of a process behind its load: it requests memory, gives it back, and is
handed arguments. None of these calls gives back a block that the process has not
requested itself, so what its task rests on stays where it is. -/
namespace LiebeOS

open Attempts MachineInt Bytes Transition

/-- The page `w` belongs to an allocation of the process. -/
def SlotPage (p : ProcessMemory) (w : Nat) : Prop :=
  ∃ n < liebeOsMaxProgramAllocations, (p.allocations n).ptr ≠ 0 ∧ (p.allocations n).ptr ≤ w ∧
    w < (p.allocations n).ptr + ((p.allocations n).size + 4095) / 4096 * 4096

/-- Every occupied slot has an allocation of its own. -/
structure SlotsOwned (heap : Heap) (p : ProcessMemory) : Prop where
  inOrder : HeapInOrder heap
  granted : ∀ n < liebeOsMaxProgramAllocations, (p.allocations n).ptr ≠ 0 →
    1 ≤ (p.allocations n).size ∧
      AllottedAt heap (p.allocations n).ptr (blocksOf (p.allocations n).size)
  distinct : ∀ m < liebeOsMaxProgramAllocations, ∀ n < liebeOsMaxProgramAllocations,
    (p.allocations m).ptr ≠ 0 → (p.allocations m).ptr = (p.allocations n).ptr → m = n

/-- What is looked at while a process lives: blocks that are to stay in use, with what
was in memory before; the pages of the task's directory, and what may stand in the entry
of a page; and whether requests for no bytes are left out. -/
structure Life where
  guard : Int → Nat → Prop
  before : Memory
  chunk : Nat
  directory : Nat
  table : Nat → Nat
  entry : Nat → Nat → Prop
  sized : Prop

namespace Life

/-- `q` is the record of the directory, the directory or one of its tables. -/
def Page (l : Life) (q : Nat) : Prop :=
  q = l.chunk ∨ q = l.directory ∨ ∃ d < 1024, q = l.table d

/-- The address `x` is in one of the blocks that are to stay in use. -/
def Guarded (l : Life) (x : Nat) : Prop := ∃ b n, l.guard b n ∧ InBlocks b n x

/-- The blocks that stay hold the directory. A page of the heap outside of them need not
be there. -/
structure Sound (l : Life) : Prop where
  chunk : l.chunk % 4096 = 0 ∧ l.chunk < 4294967296
  apart : ∀ d < 1024, l.chunk ≠ l.table d
  pages : ∀ x, l.Page (x / 4096 * 4096) → l.Guarded x
  entry : ∀ w, w % 4096 = 0 → 0x01000000 ≤ w → w < 0x07400000 → ¬ l.Guarded w → l.entry w w

/-- The blocks are in use, with the tables as all that has changed in them, and the
directory is complete. Pages that are `opened` may be there for the program to write to. -/
structure Holds (l : Life) (opened : Nat → Prop) (k : KernelMemory) : Prop where
  heap : KernelHeap k.heap
  kept : ∀ b n, l.guard b n → Allotted k.heap b n
  still : ∀ x < 4294967296, l.Guarded x → ¬ InTables l.table x → k.mem x = l.before x
  tables : PageTables k.mem l.directory l.table
  points : loadWord k.mem l.chunk = l.directory
  entries : ∀ w < 4294967296, w % 4096 = 0 → l.entry w (pagingGet k.mem l.directory w) ∨
    (opened w ∧ pagingGet k.mem l.directory w = w ||| 7)

/-- The `size` bytes from `ptr` on are pages of the heap outside of the blocks. -/
structure Elsewhere (l : Life) (ptr size : Nat) : Prop where
  aligned : ptr % 4096 = 0
  inside : ptr + size ≤ 0x07400000
  pages : ∀ x, ptr ≤ x → x < ptr + (size + 4095) / 4096 * 4096 → 0x01000000 ≤ x ∧ ¬ l.Guarded x

/-- What stands in a slot of the process can be given back. -/
structure SlotApart (l : Life) (a : ProcessAllocation) : Prop extends
    l.Elsewhere a.ptr a.size where
  beside : ∀ b n, l.guard b n → Beside b n a.ptr

/-- The process lives: its task has what it rests on, and no slot leads there. -/
structure Inv (l : Life) (k : KernelMemory) (p : ProcessMemory) : Prop extends
    l.Holds (SlotPage p) k where
  process : p.directory = l.directory
  slots : ∀ n < liebeOsMaxProgramAllocations, l.SlotApart (p.allocations n)
  owned : l.sized → SlotsOwned k.heap p

end Life

section Holds

variable {l : Life} {k : KernelMemory} {mem : Memory} {opened opened' : Nat → Prop}
  {ptr size x : Nat}

theorem Life.Holds.held (h : l.Holds opened k) (hGuarded : l.Guarded x) :
    Held k.heap (x / 4096 * 4096) := by
  obtain ⟨b, n, hGuard, hIn⟩ := hGuarded
  have hKeeps : Keeps b n k.heap := ⟨h.heap, h.kept b n hGuard⟩
  exact hKeeps.inBlocks hIn

/-- Nothing is written to the blocks. -/
theorem Life.Holds.write (h : l.Holds opened k) (hSound : l.Sound)
    (hSame : ∀ x < 4294967296, l.Guarded x → mem x = k.mem x) :
    l.Holds opened { k with mem := mem } := by
  have hPage : ∀ x < 4294967296, l.Page (x / 4096 * 4096) → mem x = k.mem x := fun x hx hIn =>
    hSame x hx (hSound.pages x hIn)
  obtain ⟨hTables, hPages⟩ := h.tables.remapped fun x hx hIn => hPage x hx (Or.inr hIn)
  obtain ⟨hChunk, hLt⟩ := hSound.chunk
  refine ⟨h.heap, h.kept, fun x hx hIn hOut => ?_, hTables, ?_, fun w hw hAligned => ?_⟩
  · exact (hSame x hx hIn).trans (h.still x hx hIn hOut)
  · rw [← h.points]
    refine loadWord_congr fun i hi => ?_
    rw [behind_of_lt (by omega)]
    exact hPage _ (by omega) (Or.inl (by omega))
  · rw [hPages.entries w hw hAligned]
    exact h.entries w hw hAligned

theorem Life.Holds.kfree (h : l.Holds opened k) (hBeside : ∀ b n, l.guard b n → Beside b n ptr) :
    l.Holds opened (kfree k ptr) where
  heap := h.heap.free ptr
  kept b n hGuard := (h.kept b n hGuard).free h.heap (hBeside b n hGuard)
  still := h.still
  tables := h.tables
  points := h.points
  entries := h.entries

/-- Pages outside of the blocks are mapped to themselves, to be written to, or not to be
there. -/
theorem Life.Holds.mapSelf (h : l.Holds opened k) (hSound : l.Sound)
    (hElsewhere : l.Elsewhere ptr size) {flags : Nat}
    (hFlags : flags = 0 ∨ flags = 7 ∧ ∀ w, ptr ≤ w → w < ptr + (size + 4095) / 4096 * 4096 → opened' w)
    (hRest : ∀ w, opened w → (w < ptr ∨ ptr + (size + 4095) / 4096 * 4096 ≤ w) → opened' w) :
    ∃ mem, pagingMapTo k.mem l.directory ptr ptr (pagingAlignAddress (behind ptr size)) flags =
      (0, mem) ∧ l.Holds opened' { k with mem := mem } := by
  have hAligned := hElsewhere.aligned
  have hInside := hElsewhere.inside
  obtain ⟨mem, hRun, hOnly, hMaps⟩ := h.tables.maps.mapSelf (show flags < 4096 by omega)
    hElsewhere.aligned (n := (size + 4095) / 4096) (by omega)
  have hEnd : pagingAlignAddress (behind ptr size) = ptr + 4096 * ((size + 4095) / 4096) := by
    rw [behind_of_lt (by omega), pagingAlignAddress_eq (by omega)]
    omega
  rw [hEnd]
  refine ⟨mem, hRun, h.heap, h.kept, fun x hx hIn hOut => ?_, hMaps.toPageTables, ?_,
    fun w hw hPage => ?_⟩
  · exact (hOnly x hx hOut).trans (h.still x hx hIn hOut)
  · obtain ⟨hChunk, hLt⟩ := hSound.chunk
    rw [← h.points]
    refine loadWord_congr fun i hi => ?_
    rw [behind_of_lt (by omega)]
    refine hOnly _ (by omega) fun ⟨d, hd, hTable⟩ => hSound.apart d hd ?_
    omega
  · rw [hMaps.entries w hw hPage]
    split_ifs with hIn
    · rcases hFlags with rfl | ⟨rfl, hOpen⟩
      · obtain ⟨hLow, hOut⟩ := hElsewhere.pages w hIn.1 (by omega)
        rw [Nat.or_zero]
        exact Or.inl (hSound.entry w hPage hLow (by omega) hOut)
      · exact Or.inr ⟨hOpen w hIn.1 (by omega), rfl⟩
    · exact (h.entries w hw hPage).imp id fun hSame => ⟨hRest w hSame.1 (by omega), hSame.2⟩

/-- A request takes none of the blocks, and writes to none of them. -/
theorem Life.Holds.kzalloc (h : l.Holds opened k) (hSound : l.Sound)
    (hInside : RequestInside k size) :
    kzalloc k size = (0, k) ∨
      (l.Holds opened (kzalloc k size).2 ∧ l.SlotApart ⟨(kzalloc k size).1, size⟩ ∧
        0x01000000 ≤ (kzalloc k size).1 ∧ (kzalloc k size).1 + 4096 ≤ 0x07400000 ∧
        ∀ x, (kzalloc k size).1 ≤ x → x < (kzalloc k size).1 + 4096 → ¬ l.Guarded x) := by
  refine (kzalloc_newBlocks h.heap hInside).imp id fun hNew => ?_
  generalize LiebeOS.kzalloc k size = r at hNew ⊢
  obtain ⟨ptr, k'⟩ := r
  obtain ⟨hHeap, hPtr⟩ := hNew.heap
  obtain ⟨hLow, hHigh⟩ := hNew.inside
  have hPositive := blocksOf_pos size
  have hCovers := blocksOf_covers size
  dsimp only at hHeap hPtr hLow hHigh ⊢
  have hOut : ∀ x, ptr ≤ x → x < ptr + 4096 * blocksOf size → ¬ l.Guarded x :=
    fun x hFrom hTo hIn => hNew.fresh x hFrom hTo (h.held hIn)
  have hKept : l.Holds opened { k with heap := k'.heap } :=
    { h with
      heap := by
        rw [hHeap]
        exact h.heap.malloc size
      kept := fun b n hGuard => by
        rw [hHeap]
        exact (h.kept b n hGuard).malloc size }
  refine ⟨hKept.write hSound fun x hx hIn => hNew.words x hx ?_, ?_, hLow, by omega,
    fun x hFrom hTo => hOut x hFrom (by omega)⟩
  · by_contra hBetween
    exact hOut x (by omega) (by dsimp only at hBetween; omega) hIn
  · refine ⟨⟨hNew.aligned, by dsimp only; omega, fun x hFrom hTo => ?_⟩, fun b n hGuard => ?_⟩
    · refine ⟨by dsimp only at hFrom; omega, hOut x hFrom ?_⟩
      dsimp only at hTo
      unfold blocksOf
      omega
    · dsimp only
      rw [hPtr]
      exact (h.kept b n hGuard).malloc_beside h.heap size

/-- One page fits into every heap. -/
theorem requestInside_page (hHeap : KernelHeap k.heap) (hSize : 1 ≤ size) (hPage : size ≤ 4096) :
    RequestInside k size := by
  rw [RequestInside]
  rcases kzalloc_block k hHeap hSize hPage with hNone | ⟨b, hFree, hGrant⟩
  · rw [hNone]
    exact fun hOver => hOver.1 rfl
  · have hAddress := hFree.address hHeap (Nat.le_refl 1)
    rw [hGrant]
    intro hOver
    have hEnd : 0x07400000 < heapBlockToAddress k.heap b + size := hOver.2
    omega

end Holds

/-! ### The slots -/

section Slots

variable {heap : Heap} {k k' : KernelMemory} {p : ProcessMemory} {size ptr n : Nat}

theorem AllottedAt.malloc (h : AllottedAt heap ptr n) (size : Nat) :
    AllottedAt (heapMalloc heap size).2 ptr n :=
  ⟨h.address, h.allotted.malloc size⟩

theorem AllottedAt.free (h : AllottedAt heap ptr n) (hHeap : KernelHeap heap) {q : Nat}
    (hBeside : Beside (blockOf ptr) n q) : AllottedAt (heapFree heap q) ptr n :=
  ⟨h.address, h.allotted.free hHeap hBeside⟩

/-- Whoever asks for some bytes is granted blocks of his own. -/
theorem kzalloc_granted (hOrder : HeapInOrder k.heap) (hSize : 1 ≤ size)
    (hInside : RequestInside k size) (hSome : (kzalloc k size).1 ≠ 0) :
    Granted k size (kzalloc k size).1 (kzalloc k size).2 := by
  have hEnd : (kzalloc k size).1 + size ≤ 0x07400000 := Nat.le_of_not_lt fun hOver =>
    hInside ⟨hSome, hOver⟩
  have hReturned : kzallocWithin k size = .returned (kzalloc k size) := if_neg hInside
  rcases kzallocWithin_cases hOrder.kernel hOrder.chained (by omega) _ hReturned with
    ⟨hNone, _⟩ | ⟨hZero, _⟩ | ⟨_, _, hGranted⟩
  · exact absurd hNone hSome
  · omega
  · exact hGranted

theorem SlotsOwned.fill (h : SlotsOwned k.heap p) (hSize : 1 ≤ size)
    (hInside : RequestInside k size) (hSome : (kzalloc k size).1 ≠ 0) (n : Nat) :
    SlotsOwned (kzalloc k size).2.heap { p with
      allocations := Function.update p.allocations n ⟨(kzalloc k size).1, size⟩ } := by
  have hGranted := kzalloc_granted h.inOrder hSize hInside hSome
  have hOther : ∀ m < liebeOsMaxProgramAllocations, (p.allocations m).ptr ≠ 0 →
      (p.allocations m).ptr ≠ (kzalloc k size).1 := fun m hm hPtr hSame => by
    obtain ⟨_, hOld⟩ := h.granted m hm hPtr
    have hTaken := hOld.allotted.protected.taken
    have hFirst := blocksOf_pos size
    rw [hSame, hGranted.free _ (Int.le_refl _) (by omega)] at hTaken
    cases hTaken
  rw [kzalloc_heap]
  refine ⟨h.inOrder.malloc size, fun m hm hPtr => ?_, fun m hm m' hm' hPtr hSame => ?_⟩
  · dsimp only at hPtr ⊢
    by_cases hNew : m = n
    · subst hNew
      rw [Function.update_self]
      have hAllotted := hGranted.allotted
      rw [kzalloc_heap] at hAllotted
      exact ⟨hSize, hGranted.address, hAllotted⟩
    · rw [Function.update_of_ne hNew] at hPtr ⊢
      obtain ⟨hSized, hOld⟩ := h.granted m hm hPtr
      exact ⟨hSized, hOld.malloc size⟩
  · dsimp only at hPtr hSame
    by_cases hNew : m = n
    · by_cases hNew' : m' = n
      · exact hNew.trans hNew'.symm
      · rw [hNew, Function.update_self, Function.update_of_ne hNew'] at hSame
        exact absurd hSame.symm (hOther m' hm' (by rw [← hSame]; exact hSome))
    · rw [Function.update_of_ne hNew] at hPtr hSame
      by_cases hNew' : m' = n
      · rw [hNew', Function.update_self] at hSame
        exact absurd hSame (hOther m hm hPtr)
      · rw [Function.update_of_ne hNew'] at hSame
        exact h.distinct m hm m' hm' hPtr hSame

/-- Blocks for which there is no slot are given back. -/
theorem SlotsOwned.refuse (h : SlotsOwned k.heap p) (size : Nat) :
    SlotsOwned (heapFree (heapMalloc k.heap size).2 (heapMalloc k.heap size).1) p where
  inOrder := (h.inOrder.malloc size).free
    (h.inOrder.chained.malloc_unchained h.inOrder.kernel size)
  granted m hm hPtr := by
    obtain ⟨hSized, hOld⟩ := h.granted m hm hPtr
    exact ⟨hSized, (hOld.malloc size).free (h.inOrder.kernel.malloc size)
      (hOld.allotted.malloc_beside h.inOrder.kernel size)⟩
  distinct := h.distinct

/-- The pointer of a slot is given back with the slot. -/
theorem SlotsOwned.empty (h : SlotsOwned heap p) (hn : n < liebeOsMaxProgramAllocations) :
    SlotsOwned (heapFree heap (p.allocations n).ptr) { p with
      allocations := Function.update p.allocations n ⟨0, 0⟩ } := by
  have hOwned : Owned heap (p.allocations n).ptr := by
    by_cases hNull : (p.allocations n).ptr = 0
    · exact Or.inl hNull
    · exact Or.inr (h.granted n hn hNull).2.allotted.protected
  refine ⟨h.inOrder.free hOwned.unchained, fun m hm hPtr => ?_, fun m hm m' hm' hPtr hSame => ?_⟩
  · dsimp only at hPtr ⊢
    by_cases hEmpty : m = n
    · rw [hEmpty, Function.update_self] at hPtr
      exact absurd rfl hPtr
    · rw [Function.update_of_ne hEmpty] at hPtr ⊢
      obtain ⟨hSized, hOld⟩ := h.granted m hm hPtr
      refine ⟨hSized, hOld.free h.inOrder.kernel (hOld.allotted.beside hOwned fun hBlock => ?_)⟩
      rcases Nat.eq_zero_or_pos (p.allocations n).ptr with hNull | hSome
      · have hInside := hOld.allotted.inside
        rw [hNull, blockOf_null] at hBlock
        omega
      · have hPlace := (h.granted n hn (by omega)).2.address
        have hPlace' := hOld.address
        exact hEmpty (h.distinct m hm n hn hPtr (by omega))
  · dsimp only at hPtr hSame
    by_cases hEmpty : m = n
    · rw [hEmpty, Function.update_self] at hPtr
      exact absurd rfl hPtr
    · rw [Function.update_of_ne hEmpty] at hPtr hSame
      by_cases hEmpty' : m' = n
      · rw [hEmpty', Function.update_self] at hSame
        exact absurd hSame hPtr
      · rw [Function.update_of_ne hEmpty'] at hSame
        exact h.distinct m hm m' hm' hPtr hSame

end Slots

/-! ### The calls -/

section Calls

variable {l : Life} {k : KernelMemory} {p : ProcessMemory} {size ptr : Nat}

theorem Life.SlotApart.empty {opened : Nat → Prop} (h : l.Holds opened k) : l.SlotApart ⟨0, 0⟩ where
  aligned := rfl
  inside := by decide
  pages x _ hTo := by
    dsimp only at hTo
    omega
  beside b n hGuard := Beside.null (h.kept b n hGuard).inside.1 n

theorem Life.Inv.update {n : Nat} (h : l.Inv k p) {k' : KernelMemory} {a : ProcessAllocation}
    (hHolds : l.Holds (SlotPage { p with allocations := Function.update p.allocations n a }) k')
    (hSlot : l.SlotApart a)
    (hOwned : l.sized →
      SlotsOwned k'.heap { p with allocations := Function.update p.allocations n a }) :
    l.Inv k' { p with allocations := Function.update p.allocations n a } where
  toHolds := hHolds
  process := h.process
  slots m hm := by
    by_cases hSame : m = n
    · subst hSame
      dsimp only
      rwa [Function.update_self]
    · dsimp only
      rw [Function.update_of_ne hSame]
      exact h.slots m hm
  owned := hOwned

/-- The pages of the other slots stay when a slot changes. -/
theorem SlotPage.update {n w : Nat} (h : SlotPage p w) (a : ProcessAllocation)
    (hOut : (p.allocations n).ptr = 0 ∨ w < (p.allocations n).ptr ∨
      (p.allocations n).ptr + ((p.allocations n).size + 4095) / 4096 * 4096 ≤ w) :
    SlotPage { p with allocations := Function.update p.allocations n a } w := by
  obtain ⟨m, hm, hPtr, hLow, hHigh⟩ := h
  have hOther : m ≠ n := fun hSame => by
    subst hSame
    omega
  refine ⟨m, hm, ?_⟩
  dsimp only
  rw [Function.update_of_ne hOther]
  exact ⟨hPtr, hLow, hHigh⟩

/-- What is returned to the process is a page outside of the blocks, and it costs a slot. -/
structure Life.Answer (l : Life) (p p' : ProcessMemory) (ptr : Nat) : Prop where
  page : ptr % 4096 = 0
  inside : 0x01000000 ≤ ptr ∧ ptr + 4096 ≤ 0x07400000
  outside : ∀ x, ptr ≤ x → x < ptr + 4096 → ¬ l.Guarded x
  slots : (freeSlots p').card + 1 = (freeSlots p).card

theorem Life.Inv.processMalloc (h : l.Inv k p) (hSound : l.Sound) (hInside : RequestInside k size)
    (hSize : l.sized → 1 ≤ size) :
    ∃ ptr k' p', processMalloc k p size = (ptr, k', p') ∧ l.Inv k' p' ∧
      (ptr ≠ 0 → l.Answer p p' ptr) := by
  have hGranted := h.toHolds.kzalloc hSound hInside
  have hHeap := kzalloc_heap k size
  have hPtr := kzalloc_ptr k size
  have hFill := fun hSized => (h.owned hSized).fill (hSize hSized) hInside
  rw [LiebeOS.processMalloc]
  generalize kzalloc k size = r at hGranted hHeap hPtr hFill ⊢
  obtain ⟨ptr, k'⟩ := r
  dsimp only at hGranted hHeap hPtr hFill ⊢
  by_cases hNull : ptr = 0
  · rw [if_pos hNull]
    rcases hGranted with hNone | ⟨_, _, hLow, _⟩
    · obtain ⟨_, rfl⟩ := Prod.mk.inj hNone
      exact ⟨0, k', p, rfl, h, fun hSome => absurd rfl hSome⟩
    · omega
  rw [if_neg hNull]
  obtain ⟨hHolds, hSlot, hLow, hHigh, hOut⟩ := hGranted.resolve_left fun hNone =>
    hNull (Prod.mk.inj hNone).1
  rcases processFindFreeAllocationIndex_cases p with ⟨_, hIndex⟩ | ⟨n, hn, hEmpty, hIndex⟩
  · rw [hIndex, if_pos (by decide)]
    refine ⟨0, _, p, rfl, ⟨hHolds.kfree hSlot.beside, h.process, h.slots, fun hSized => ?_⟩,
      fun hSome => absurd rfl hSome⟩
    rw [LiebeOS.kfree, hHeap, hPtr]
    exact (h.owned hSized).refuse size
  · have hSlotPage : ∀ w, ptr ≤ w → w < ptr + (size + 4095) / 4096 * 4096 → SlotPage { p with
        allocations := Function.update p.allocations n ⟨ptr, size⟩ } w := fun w hFrom hTo => by
      refine ⟨n, hn, ?_⟩
      dsimp only
      rw [Function.update_self]
      exact ⟨hNull, hFrom, hTo⟩
    obtain ⟨mem, hRun, hMapped⟩ := hHolds.mapSelf hSound hSlot.toElsewhere
      (Or.inr ⟨rfl, hSlotPage⟩) fun w hIn _ => hIn.update ⟨ptr, size⟩ (Or.inl hEmpty)
    have hFlags : pagingIsWriteable ||| pagingIsPresent ||| pagingAccessFromAll = 7 := rfl
    dsimp only at hRun
    rw [← h.process] at hRun
    rw [hIndex, if_neg (by omega), hFlags, hRun]
    dsimp only
    rw [if_neg (Int.lt_irrefl 0)]
    exact ⟨ptr, _, _, rfl, h.update hMapped hSlot fun hSized => hFill hSized hNull n, fun _ =>
      ⟨hSlot.aligned, ⟨hLow, hHigh⟩, hOut, freeSlots_fill hn hEmpty hNull size⟩⟩

theorem Life.Inv.processFree (h : l.Inv k p) (hSound : l.Sound) (ptr : Nat) :
    l.Inv (processFree k p ptr).1 (processFree k p ptr).2 := by
  rcases isCurrentProcessPtr_cases p ptr with ⟨hUnknown, _⟩ | ⟨n, hFound, hn, rfl⟩
  · rw [processFree_unknown k hUnknown]
    exact h
  · have hSlot := h.slots n hn
    obtain ⟨mem, hRun, hMapped⟩ := h.toHolds.mapSelf hSound hSlot.toElsewhere (Or.inl rfl)
      fun w hIn hOut => hIn.update ⟨0, 0⟩ (Or.inr hOut)
    rw [← h.process] at hRun
    rw [LiebeOS.processFree, hFound]
    simp only [Int.toNat_natCast, hRun]
    rw [if_neg (by omega), if_neg (Int.lt_irrefl 0)]
    exact h.update (hMapped.kfree hSlot.beside) (Life.SlotApart.empty h.toHolds) fun hSized =>
      (h.owned hSized).empty hn

/-- An argument is copied into a page of its own, and its address is stored in the page
of the pointers: there is a slot for each, and no more slots than pointers in a page. -/
theorem Life.Inv.injectLoop {argv : Nat} (hSound : l.Sound) (hArgv : argv % 4096 = 0)
    (hHigh : argv + 4096 ≤ 0x07400000) (hOut : ∀ x, argv ≤ x → x < argv + 4096 → ¬ l.Guarded x)
    (fuel i current : Nat) (h : l.Inv k p) (hSlots : i + (freeSlots p).card ≤ 1023) :
    (processInjectLoop argv fuel i current k p).Ensures fun res => l.Inv res.2.1 res.2.2 := by
  induction fuel generalizing i current k p with
  | zero => exact Attempt.ensures_endless
  | succ fuel ih =>
      rw [processInjectLoop]
      by_cases hEnd : current = 0
      · rw [if_pos hEnd]
        exact Attempt.ensures_returned h
      rw [if_neg hEnd]
      obtain ⟨q, k', p', hRequest, hInv, hAnswer⟩ := h.processMalloc hSound
        (requestInside_page h.heap (show 1 ≤ sizeOfArgument by decide) (by decide))
        (fun _ => by decide)
      rw [hRequest]
      dsimp only
      by_cases hNull : q = 0
      · rw [if_pos hNull]
        exact Attempt.ensures_returned hInv
      rw [if_neg hNull]
      obtain ⟨hPage, ⟨hLow, hTop⟩, hCopy, hFewer⟩ := hAnswer hNull
      cases hString : kernelStrncpy identityTranslation q current sizeOfArgument ⟨k'.mem, []⟩ with
      | none => exact Attempt.ensures_undefined
      | some s =>
          have hReaches : Reaches identityTranslation k'.mem q q 512 := fun mem' _ j hj => by
            rw [behind_of_lt (by omega)]
            rfl
          have hOutside := kernelStrncpy_outside (s := ⟨k'.mem, []⟩) hReaches rfl (by decide) hString
          have hPlace : behind argv (4 * i) = argv + 4 * i := behind_of_lt (by omega)
          have hHolds := @Life.Holds.write _ _ (storeWord s.mem (behind argv (4 * i)) q) _
            hInv.toHolds hSound fun x hx hIn => by
              have hAside : ¬ (q ≤ x ∧ x < q + 4096) := fun hThere => hCopy x hThere.1 hThere.2 hIn
              have hAside' : ¬ (argv ≤ x ∧ x < argv + 4096) := fun hThere =>
                hOut x hThere.1 hThere.2 hIn
              rw [hPlace, storeWord_apart (by omega) hx (by omega)]
              exact hOutside x (by omega)
          exact ih (i + 1) _ ⟨hHolds, hInv.process, hInv.slots, hInv.owned⟩ (by omega)

theorem freeSlots_le (p : ProcessMemory) : (freeSlots p).card ≤ 1024 := by
  have hAll := Finset.card_filter_le (Finset.range liebeOsMaxProgramAllocations)
    fun i => (p.allocations i).ptr = 0
  rwa [Finset.card_range] at hAll

theorem Life.Inv.injectArguments {p : ArgumentsProcess} (h : l.Inv k p.process) (hSound : l.Sound)
    {root : Nat} (hInside : ∀ argc, processCountCommandArguments k.mem root = .returned argc →
      RequestInside k (toWord (4 * argc)))
    (hSize : l.sized → ∀ argc, processCountCommandArguments k.mem root = .returned argc →
      argc ≠ 0 → 1 ≤ toWord (4 * argc)) :
    (processInjectArguments k p root).Ensures fun res => l.Inv res.2.1 res.2.2.process := by
  refine Attempt.ensures_bind (P := fun argc =>
    processCountCommandArguments k.mem root = .returned argc) (fun _ hCount => hCount)
    fun argc hCount => ?_
  by_cases hNone : argc = 0
  · rw [if_pos hNone]
    exact Attempt.ensures_returned h
  rw [if_neg hNone]
  obtain ⟨argv, k', p', hRequest, hInv, hAnswer⟩ := h.processMalloc hSound
    (hInside argc hCount) fun hSized => hSize hSized argc hCount hNone
  rw [hRequest]
  dsimp only
  by_cases hNull : argv = 0
  · rw [if_pos hNull]
    exact Attempt.ensures_returned hInv
  rw [if_neg hNull]
  obtain ⟨hPage, ⟨_, hTop⟩, hOut, hFewer⟩ := hAnswer hNull
  have hSlots := freeSlots_le p.process
  refine Attempt.ensures_bind (Life.Inv.injectLoop hSound hPage hTop hOut _ 0 root hInv
    (by omega)) fun res hRes => ?_
  refine Attempt.ensures_returned ?_
  dsimp only
  split_ifs
  · exact hRes
  · exact hRes

end Calls

/-! ### Runs -/

/-- What the kernel does on behalf of a process that it has loaded. -/
inductive ProcessCall where
  | malloc (size : Nat)
  | free (ptr : Nat)
  | injectArguments (root : Nat)

/-- The call asks for some bytes, if it asks for any memory at all. -/
def ProcessCall.AsksSome (k : KernelMemory) : ProcessCall → Prop
  | .malloc size => 1 ≤ size
  | .free _ => True
  | .injectArguments root => ∀ argc, processCountCommandArguments k.mem root = .returned argc →
      argc ≠ 0 → 1 ≤ toWord (4 * argc)

/-- The kernel's memory, and the process whose life is followed. -/
structure ProcessState where
  k : KernelMemory
  process : ArgumentsProcess

/-- A call that comes to its end. Memory behind the heap is not requested. -/
inductive ProcessStep : ProcessState → ProcessCall → ProcessState → Prop where
  | malloc (s : ProcessState) (size ptr : Nat) (k : KernelMemory) (p : ProcessMemory)
      (hInside : RequestInside s.k size)
      (hCall : processMalloc s.k s.process.process size = (ptr, k, p)) :
      ProcessStep s (.malloc size) ⟨k, { s.process with process := p }⟩
  | free (s : ProcessState) (ptr : Nat) (k : KernelMemory) (p : ProcessMemory)
      (hCall : processFree s.k s.process.process ptr = (k, p)) :
      ProcessStep s (.free ptr) ⟨k, { s.process with process := p }⟩
  | injectArguments (s : ProcessState) (root : Nat) (res : Int) (k : KernelMemory)
      (p : ArgumentsProcess)
      (hInside : ∀ argc, processCountCommandArguments s.k.mem root = .returned argc →
        RequestInside s.k (toWord (4 * argc)))
      (hCall : processInjectArguments s.k s.process root = .returned (res, k, p)) :
      ProcessStep s (.injectArguments root) ⟨k, p⟩

section Run

variable {l : Life} {s t : ProcessState}

theorem Life.Inv.step (h : l.Inv s.k s.process.process) (hSound : l.Sound) {call : ProcessCall}
    (hSize : l.sized → call.AsksSome s.k) (hStep : ProcessStep s call t) :
    l.Inv t.k t.process.process := by
  cases hStep with
  | malloc size ptr k p hInside hCall =>
      obtain ⟨ptr', k', p', hRequest, hInv, _⟩ := h.processMalloc hSound hInside hSize
      obtain ⟨_, hRest⟩ := Prod.mk.inj (hRequest.symm.trans hCall)
      obtain ⟨rfl, rfl⟩ := Prod.mk.inj hRest
      exact hInv
  | free ptr k p hCall =>
      have hInv := h.processFree hSound ptr
      rwa [hCall] at hInv
  | injectArguments root res k p hInside hCall =>
      exact h.injectArguments hSound hInside hSize _ hCall

/-- Requests for no bytes can only be left out step by step. -/
theorem Life.Inv.run (h : l.Inv s.k s.process.process) (hSound : l.Sound) (hAll : ¬ l.sized)
    {calls : List ProcessCall} (run : Run ProcessStep s calls t) : l.Inv t.k t.process.process :=
  @Run.invariant _ _ _ (fun s => l.Inv s.k s.process.process) _ _ _ run h
    fun _ _ _ hInv hStep => Life.Inv.step hInv hSound (fun hSized => absurd hSized hAll) hStep

end Run

/-! ### A process that has just been loaded -/

section Start

variable {d : DiskFiles} {m : Storage} {filename : List UInt8}

theorem ProgramStart.inOrder (p : ProgramStart d m filename) (hHeap : HeapInOrder m.files.heap) :
    HeapInOrder p.afterProgram.files.heap ∧ HeapInOrder p.afterTask.files.heap := by
  have hProcess := Storage.kzalloc_inOrder hHeap _ _ p.processGranted.1
  have hProgram := processLoadData_inOrder hProcess _ (processLoadData_ok_iff.mpr p.programRead)
  have hStack := Storage.kzalloc_inOrder hProgram _ _ p.stackGranted.1
  exact ⟨hProgram, Storage.kzalloc_inOrder hStack _ _ p.taskGranted.1⟩

/-- What is to stay of a process: its record, that of its task, and the task's directory. -/
def processLife (process task chunk directory : Nat) (mem : Memory) (entry : Nat → Nat → Prop) :
    Life where
  guard b n := (b = blockOf process ∧ n = blocksOf sizeOfProcess) ∨ (n = 1 ∧ ∃ q, b = blockOf q ∧
    (q = task ∨ q = chunk ∨ q = directory ∨ ∃ d < 1024, q = directoryTables mem directory d))
  before := mem
  chunk := chunk
  directory := directory
  table := directoryTables mem directory
  entry := entry
  sized := False

def ProgramStart.life (p : ProgramStart d m filename) (entry : Nat → Nat → Prop) : Life :=
  processLife p.process p.task (taskDirectory p.afterTask).1 p.directory p.finish.mem entry

/-- The directory of a task behind its load: its tables are those that were built. -/
structure ProgramStart.Mapped (p : ProgramStart d m filename) (table : Nat → Nat) : Prop where
  record : DirectoryRecord p.afterTask.memory (taskDirectory p.afterTask).2
    (taskDirectory p.afterTask).1 p.directory (pagingIsPresent ||| pagingAccessFromAll) table
  only : TablesOnly table (taskDirectory p.afterTask).2.mem p.finish.mem
  stack : p.stack % 4096 = 0 ∧ p.stack + 16384 ≤ liebeOsHeapEnd
  maps : Maps p.finish.mem p.directory table (mapStack p.stack
    (pagingGet (mapData (taskDirectory p.afterTask).2.mem p.directory p.loaded).2 p.directory))

theorem ProgramStart.mappedTask (p : ProgramStart d m filename) (hHeap : HeapInOrder m.files.heap) :
    ∃ table, p.Mapped table := by
  obtain ⟨hAligned, hInside, table, hRecord, _, hOnly, hMaps⟩ := p.maps hHeap
  exact ⟨table, hRecord, hOnly, ⟨hAligned, hInside⟩, hMaps⟩

theorem ProgramStart.Mapped.page {p : ProgramStart d m filename} {table : Nat → Nat}
    (h : p.Mapped table) {entry : Nat → Nat → Prop} {q : Nat} (hPage : (p.life entry).Page q) :
    q = (taskDirectory p.afterTask).1 ∨ q = p.directory ∨ ∃ d < 1024, q = table d := by
  rcases hPage with hChunk | hDirectory | ⟨d, hd, hTable⟩
  · exact Or.inl hChunk
  · exact Or.inr (Or.inl hDirectory)
  · exact Or.inr (Or.inr ⟨d, hd, hTable.trans (h.maps.entry d hd)⟩)

/-- Pages of the directory were free when the task was requested. -/
theorem ProgramStart.Mapped.fresh {p : ProgramStart d m filename} {table : Nat → Nat}
    (h : p.Mapped table) {entry : Nat → Nat → Prop} {q : Nat} (hPage : (p.life entry).Page q) :
    ¬ Held p.afterTask.files.heap q := by
  rcases h.page hPage with rfl | rfl | ⟨d, hd, rfl⟩
  · exact h.record.record.2
  · exact h.record.built.page.2
  · exact (h.record.built.tables d hd).2.1

/-- The blocks are in use when the load is done. -/
theorem ProgramStart.Mapped.kept {p : ProgramStart d m filename} {table : Nat → Nat}
    (h : p.Mapped table) (hHeap : HeapInOrder m.files.heap) {entry : Nat → Nat → Prop} {b : Int}
    {n : Nat} (hGuard : (p.life entry).guard b n) :
    Allotted (taskDirectory p.afterTask).2.heap b n := by
  obtain ⟨_, hInOrder⟩ := p.inOrder hHeap
  rcases hGuard with ⟨rfl, rfl⟩ | ⟨rfl, q, rfl, rfl | hPage⟩
  · have hProcess := (Storage.kzalloc_granted hHeap (by decide) p.processGranted.1
      p.processGranted.2).keeps
    exact (taskDirectory_keeps (p.keeps hProcess).2.1).block
  · have hStack := Storage.kzalloc_inOrder (p.inOrder hHeap).1 _ _ p.stackGranted.1
    have hTask := (Storage.kzalloc_granted hStack (by decide) p.taskGranted.1 p.taskGranted.2).keeps
    have hKept : Keeps (blockOf p.task) (blocksOf sizeOfTask) p.afterTask.files.heap := hTask
    exact (taskDirectory_keeps hKept).block
  · have hTable := @ProgramStart.Mapped.page _ _ _ _ _ h entry _ hPage
    exact (taskDirectory_allotted hInOrder p.directoryGranted h.record hTable).1

/-- The blocks hold the directory, whatever is asked of its entries. -/
theorem ProgramStart.Mapped.sound {p : ProgramStart d m filename} {table : Nat → Nat}
    (h : p.Mapped table) (hHeap : HeapInOrder m.files.heap) {entry : Nat → Nat → Prop}
    (hEntry : ∀ w, w % 4096 = 0 → 0x01000000 ≤ w → w < 0x07400000 →
      ¬ (p.life entry).Guarded w → entry w w) :
    (p.life entry).Sound := by
  obtain ⟨hChunk, _, hHigh⟩ := h.record.record.1.page h.record.built.grows.heap
  refine ⟨⟨hChunk, ?_⟩, fun d hd hSame => ?_, fun x hPage => ?_, hEntry⟩
  · change (taskDirectory p.afterTask).1 < 4294967296
    omega
  · exact h.record.recordApart.2 d hd (hSame.trans (h.maps.entry d hd))
  · have hPlace := (taskDirectory_allotted (p.inOrder hHeap).2 p.directoryGranted h.record
      (h.page hPage)).2
    refine ⟨_, 1, Or.inr ⟨rfl, _, rfl, Or.inr hPage⟩, ?_, ?_⟩
    · omega
    · omega

/-- A process that has been started lives. -/
theorem ProgramStart.Mapped.alive {p : ProgramStart d m filename} {table : Nat → Nat}
    (h : p.Mapped table) (hHeap : HeapInOrder m.files.heap) {entry : Nat → Nat → Prop}
    (hEntries : ∀ w < 4294967296, w % 4096 = 0 → entry w (pagingGet p.finish.mem p.directory w)) :
    (p.life entry).Inv p.finish.memory (newProcess p.loaded p.directory).arguments.process := by
  have hHolds : (p.life entry).Holds
      (SlotPage (newProcess p.loaded p.directory).arguments.process) p.finish.memory :=
    { heap := h.record.built.grows.heap
      kept := fun b n hGuard => h.kept hHeap hGuard
      still := fun _ _ _ _ => rfl
      tables :=
        { aligned := h.maps.aligned
          lt := h.maps.lt
          entry := fun _ _ => rfl
          apart := fun d hd hSame => h.maps.apart d hd ((h.maps.entry d hd).symm.trans hSame)
          distinct := fun d hd e he hSame => h.maps.distinct d hd e he
            ((h.maps.entry d hd).symm.trans (hSame.trans (h.maps.entry e he))) }
      points := h.record.points_kept h.only
      entries := fun w hw hPage => Or.inl (hEntries w hw hPage) }
  exact ⟨hHolds, rfl, fun _ _ => Life.SlotApart.empty hHolds, False.elim⟩

end Start

end LiebeOS
