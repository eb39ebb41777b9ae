import LiebeOS.Memory.Undisturbed
import LiebeOS.Task.ProcessFree

/-! Whole runs in which processes are started, request memory, give it back and end.
The slots, the table of the heap and the page tables stay in step with each other, so
that `process_free` knows a pointer of the process from every other one. -/
namespace LiebeOS

open MachineInt Bytes Transition

/-- Nothing is written to the pages of the processes' directories. -/
def WordsKept (s : AllocationRun) (mem : Memory) : Prop :=
  ∀ i p, s.processes i = some p → ∀ x < 4294967296, x / 4096 * 4096 = p.directory →
    mem x = s.k.mem x

/-- The slot is empty, or there is an allocation behind it. -/
structure SlotNoted (live : List Allocation) (a : ProcessAllocation) : Prop where
  empty : a.ptr = 0 → a.size = 0
  live : a.ptr ≠ 0 → 1 ≤ a.size ∧ ⟨a.ptr, a.size⟩ ∈ live

section Owners

variable {s s' : AllocationRun} {i d n q : Nat} {o : Owner} {p p' : ProcessMemory} {mem : Memory}

theorem AllocationInv.directoryTables_kept (h : AllocationInv s) (hWords : WordsKept s mem)
    (hp : s.processes i = some p) (hd : d < 1024) :
    directoryTables mem p.directory d = directoryTables s.k.mem p.directory d := by
  rw [directoryTables, (h.space hp).tables.pointer (hWords i p hp) hd]
  rfl

/-- Where nothing is written to blocks in use, directories are left alone. -/
theorem AllocationInv.wordsKept (h : AllocationInv s)
    (hHeld : ∀ x < 4294967296, Held s.k.heap (x / 4096 * 4096) → mem x = s.k.mem x) :
    WordsKept s mem := by
  intro j p hp x hx hPage
  have hDirectory : Owns s (.directory j) (x / 4096 * 4096) := ⟨p, hp, hPage⟩
  exact hHeld x hx (h.held hDirectory)

/-- A directory is nobody's table. -/
theorem AllocationInv.tablesOnly_words (h : AllocationInv s) (hp : s.processes i = some p)
    {mid : Memory} (hWords : WordsKept s mid)
    (hOnly : TablesOnly (directoryTables s.k.mem p.directory) mid mem) : WordsKept s mem := by
  intro j p' hp' x hx hPage
  rw [← hWords j p' hp' x hx hPage]
  refine hOnly x hx ?_
  rintro ⟨d, hd, hTable⟩
  have hMine : Owns s (.table i d) (x / 4096 * 4096) := ⟨p, hp, hd, hTable⟩
  have hSame := h.unique _ _ _ hMine (show Owns s (.directory j) _ from ⟨p', hp', hPage⟩)
  cases hSame

/-- The invariant holds after an event, and what somebody owns then has been his, or
was free. -/
structure Follows (s t : AllocationRun) : Prop where
  inv : AllocationInv t
  owners : ∀ o q, Owns t o q → Owns s o q ∨ ¬ Held s.k.heap q

theorem AllocationInv.follows_same (h : AllocationInv s) : Follows s s :=
  ⟨h, fun _ _ ho => Or.inl ho⟩

/-- Owners stay and new ones come: what the new ones own was free. -/
theorem AllocationInv.extend (h : AllocationInv s) (New : Owner → Nat → Prop)
    (hKernel : KernelHeap s'.k.heap) (hClear : FreeClear s'.k.heap)
    (hSafe : HeapInv 25600 ⟨s'.k.heap, s'.live⟩)
    (hOwns : ∀ o q, Owns s' o q → Owns s o q ∨ New o q)
    (hOld : ∀ a ∈ s.live, (∃ o, Owns s' o a.ptr) → a ∈ s'.live)
    (hNew : ∀ o q, New o q → (∃ a ∈ s'.live, a.ptr = q) ∧ ¬ Held s.k.heap q)
    (hUnique : ∀ o o' q, New o q → New o' q → o = o')
    (hSlots : ∀ i p n, s'.processes i = some p → n < liebeOsMaxProgramAllocations →
      (∃ p₀, s.processes i = some p₀ ∧ p₀.allocations n = p.allocations n) ∨
        SlotNoted s'.live (p.allocations n)) : Follows s s' := by
  refine ⟨⟨hKernel, hClear, hSafe, fun o q ho => ?_, fun o o' q ho ho' => ?_,
    fun i p n hp hn hPtr => ?_, fun i p n hp hn hEmpty => ?_⟩,
    fun o q ho => (hOwns o q ho).imp id fun hFresh => (hNew o q hFresh).2⟩
  · rcases hOwns o q ho with hBefore | hFresh
    · obtain ⟨a, ha, rfl⟩ := h.owned o q hBefore
      exact ⟨a, hOld a ha ⟨o, ho⟩, rfl⟩
    · exact (hNew o q hFresh).1
  · rcases hOwns o q ho with hBefore | hFresh
    · rcases hOwns o' q ho' with hBefore' | hFresh'
      · exact h.unique o o' q hBefore hBefore'
      · exact absurd (h.held hBefore) (hNew o' q hFresh').2
    · rcases hOwns o' q ho' with hBefore' | hFresh'
      · exact absurd (h.held hBefore') (hNew o q hFresh).2
      · exact hUnique o o' q hFresh hFresh'
  · rcases hSlots i p n hp hn with ⟨p₀, hp₀, hSame⟩ | hNoted
    · obtain ⟨hSize, hLive⟩ := h.slots i p₀ n hp₀ hn (by rw [hSame]; exact hPtr)
      rw [hSame] at hSize hLive
      exact ⟨hSize, hOld _ hLive ⟨.slot i n, p, hp, hn, rfl, hPtr⟩⟩
    · exact hNoted.live hPtr
  · rcases hSlots i p n hp hn with ⟨p₀, hp₀, hSame⟩ | hNoted
    · rw [← hSame]
      exact h.empty i p₀ n hp₀ hn (by rw [hSame]; exact hEmpty)
    · exact hNoted.empty hEmpty

/-- No process gets anything. -/
theorem AllocationInv.keep (h : AllocationInv s) (hKernel : KernelHeap s'.k.heap)
    (hClear : FreeClear s'.k.heap) (hSafe : HeapInv 25600 ⟨s'.k.heap, s'.live⟩)
    (hProcesses : ∀ i p, s'.processes i = some p → s.processes i = some p)
    (hWords : WordsKept s s'.k.mem)
    (hLive : ∀ a ∈ s.live, (∃ o, Owns s o a.ptr) → a ∈ s'.live) : Follows s s' := by
  have hOwns : ∀ o q, Owns s' o q → Owns s o q := fun o q ho => by
    cases o with
    | directory i =>
        obtain ⟨p, hp, hq⟩ := ho
        exact ⟨p, hProcesses i p hp, hq⟩
    | table i d =>
        obtain ⟨p, hp, hd, hq⟩ := ho
        have hBefore := hProcesses i p hp
        rw [h.directoryTables_kept hWords hBefore hd] at hq
        exact ⟨p, hBefore, hd, hq⟩
    | slot i n =>
        obtain ⟨p, hp, hSlot⟩ := ho
        exact ⟨p, hProcesses i p hp, hSlot⟩
  refine h.extend (fun _ _ => False) hKernel hClear hSafe (fun o q ho => Or.inl (hOwns o q ho))
    (fun a ha ⟨o, ho⟩ => hLive a ha ⟨o, hOwns o a.ptr ho⟩) (fun _ _ hFalse => hFalse.elim)
    (fun _ _ _ hFalse => hFalse.elim) (fun i p n hp hn => ?_)
  exact Or.inl ⟨p, hProcesses i p hp, rfl⟩

/-- One process has other slots than before. -/
theorem AllocationInv.owns_update (h : AllocationInv s) (hp : s.processes i = some p)
    {heap : Heap} {live : List Allocation} (hWords : WordsKept s mem)
    (ho : Owns ⟨⟨heap, mem⟩, live, Function.update s.processes i (some p')⟩ o q)
    (hDirectory : p'.directory = p.directory) :
    Owns s o q ∨ ∃ n, o = .slot i n ∧ n < liebeOsMaxProgramAllocations ∧
      q = (p'.allocations n).ptr ∧ q ≠ 0 := by
  cases o with
  | directory j =>
      obtain ⟨p₁, hp₁, rfl⟩ := ho
      rcases Slots.update_some hp₁ with ⟨rfl, rfl⟩ | ⟨_, hBefore⟩
      · exact Or.inl ⟨p, hp, hDirectory⟩
      · exact Or.inl ⟨p₁, hBefore, rfl⟩
  | table j d =>
      obtain ⟨p₁, hp₁, hd, rfl⟩ := ho
      rcases Slots.update_some hp₁ with ⟨rfl, rfl⟩ | ⟨_, hBefore⟩
      · refine Or.inl ⟨p, hp, hd, ?_⟩
        dsimp only
        rw [hDirectory]
        exact h.directoryTables_kept hWords hp hd
      · exact Or.inl ⟨p₁, hBefore, hd, h.directoryTables_kept hWords hBefore hd⟩
  | slot j n =>
      obtain ⟨p₁, hp₁, hn, hq, hNull⟩ := ho
      rcases Slots.update_some hp₁ with ⟨rfl, rfl⟩ | ⟨_, hBefore⟩
      · exact Or.inr ⟨n, rfl, hn, hq, hNull⟩
      · exact Or.inl ⟨p₁, hBefore, hn, hq, hNull⟩

end Owners

/-! ### The events -/

section Events

variable {s : AllocationRun} {i n ptr size : Nat} {p p' : ProcessMemory} {k : KernelMemory}
  {mem : Memory}

theorem wordsKept_same (s : AllocationRun) : WordsKept s s.k.mem := fun _ _ _ _ _ _ => rfl

theorem mem_released {live : List Allocation} {a : Allocation} (ha : a ∈ live) (hne : a.ptr ≠ ptr) :
    a ∈ released live ptr :=
  (List.mem_eraseP_of_neg (by simpa using hne)).mpr ha

theorem HeapInv.released {heap : Heap} {live : List Allocation} (h : HeapInv 25600 ⟨heap, live⟩)
    (hLive : ∃ a ∈ live, a.ptr = ptr) : HeapInv 25600 ⟨heapFree heap ptr, released live ptr⟩ := by
  rw [LiebeOS.released, List.eraseP_eq_eraseIdx]
  cases hFind : live.findIdx? fun a => decide (a.ptr = ptr) with
  | none =>
      obtain ⟨a, ha, hPtr⟩ := hLive
      have hNone := List.findIdx?_eq_none_iff.mp hFind a ha
      exact absurd hPtr (of_decide_eq_false hNone)
  | some j =>
      obtain ⟨hj, hPtr, _⟩ := List.findIdx?_eq_some_iff_getElem.mp hFind
      have hFreed := h.free (List.getElem?_eq_getElem hj)
      rwa [of_decide_eq_true hPtr] at hFreed

theorem AllocationInv.kmalloc (h : AllocationInv s) (hSize : size < 4294967296)
    (hFits : RequestFits s.k.heap.table size) :
    Follows s { s with
      k := (LiebeOS.kmalloc s.k size).2
      live := if (LiebeOS.kmalloc s.k size).1 = 0 then s.live
        else ⟨(LiebeOS.kmalloc s.k size).1, size⟩ :: s.live } := by
  refine h.keep (h.kernel.malloc size) (h.clear.malloc size)
    (h.safe.malloc (by decide) hSize hFits) (fun _ _ hp => hp) (wordsKept_same s) fun a ha _ => ?_
  dsimp only
  split
  · exact ha
  · exact List.mem_cons_of_mem _ ha

theorem AllocationInv.kfree (h : AllocationInv s) (hLive : ∃ a ∈ s.live, a.ptr = ptr)
    (hFree : ∀ o, ¬ Owns s o ptr) :
    Follows s { s with k := LiebeOS.kfree s.k ptr, live := released s.live ptr } :=
  h.keep (h.kernel.free ptr) (h.clear.free ptr) (h.safe.released hLive) (fun _ _ hp => hp)
    (wordsKept_same s) fun _ ha ⟨o, ho⟩ => mem_released ha fun hPtr => hFree o (hPtr ▸ ho)

theorem AllocationInv.kfreeNull (h : AllocationInv s) (hMisses : NullFreeMisses s.k.heap) :
    Follows s { s with k := LiebeOS.kfree s.k 0 } :=
  h.keep (h.kernel.free 0) (h.clear.free 0) (h.safe.freeNull hMisses) (fun _ _ hp => hp)
    (wordsKept_same s) fun _ ha _ => ha

theorem AllocationInv.write (h : AllocationInv s) (hWords : WordsKept s mem) :
    Follows s { s with k := { s.k with mem := mem } } :=
  h.keep h.kernel h.clear h.safe (fun _ _ hp => hp) hWords fun _ ha _ => ha

theorem AllocationInv.finish (h : AllocationInv s) (i : Nat) :
    Follows s { s with processes := Function.update s.processes i none } := by
  refine h.keep h.kernel h.clear h.safe (fun j p hp => ?_) (wordsKept_same s) fun _ ha _ => ha
  by_cases hSame : j = i
  · subst hSame
    exact absurd ((Function.update_self j _ _).symm.trans hp) (by simp)
  · exact (Function.update_of_ne hSame _ _).symm.trans hp

/-- A new directory takes pages that belonged to nobody, and empty slots own nothing. -/
theorem AllocationInv.start {chunk : Nat} (h : AllocationInv s) (hNew : s.processes i = none)
    (hDirectory : createNewPageDirectory s.k (pagingIsPresent ||| pagingAccessFromAll) = (chunk, k))
    (hGranted : chunk ≠ 0) :
    Follows s
      { k := k
        live := directoryAllocations k.mem chunk (getPageDirectoryEntry k.mem chunk) ++ s.live
        processes := Function.update s.processes i
          (some ⟨getPageDirectoryEntry k.mem chunk, fun _ => ⟨0, 0⟩⟩) } := by
  have hFlags : pagingIsPresent ||| pagingAccessFromAll < 256 := by decide
  have hUndisturbed := createNewPageDirectory_undisturbed h.kernel h.clear h.safe
    (show pagingIsPresent ||| pagingAccessFromAll < 4096 by decide)
  obtain ⟨directory, table, hRecord, hTakes⟩ := @createNewPageDirectory_takes s.k _ h.kernel hFlags
    (by rw [hDirectory]; exact hGranted)
  rw [hDirectory] at hUndisturbed hRecord hTakes
  dsimp only at hUndisturbed hRecord hTakes
  have hMaps := hRecord.built.maps hFlags
  have hTables : ∀ d < 1024, directoryTables k.mem directory d = table d := fun d hd =>
    hMaps.entry d hd
  have hPages : directoryPages directory 1024 (directoryTables k.mem directory) =
      directoryPages directory 1024 table := by
    unfold directoryPages
    rw [List.map_congr_left fun d hd => hTables d (List.mem_range.mp hd)]
  have hWords := h.wordsKept hUndisturbed.words
  rw [getPageDirectoryEntry, hRecord.points, directoryAllocations, hPages]
  have hLive : ∀ q ∈ directoryPages directory 1024 table,
      ∃ a ∈ (chunk :: directoryPages directory 1024 table).map (fun p => (⟨p, 4096⟩ : Allocation)) ++
        s.live, a.ptr = q := fun q hq =>
    ⟨⟨q, 4096⟩, List.mem_append_left _ (List.mem_map_of_mem (List.mem_cons_of_mem _ hq)), rfl⟩
  refine h.extend (fun o q => (o = .directory i ∧ q = directory) ∨
      ∃ d < 1024, o = .table i d ∧ q = table d) hUndisturbed.kernel hUndisturbed.clear
    (h.safe.takes hUndisturbed.safe hTakes) (fun o q ho => ?_)
    (fun a ha _ => List.mem_append_right _ ha) (fun o q hNew => ?_) (fun o o' q hNew hNew' => ?_)
    (fun j p n hp hn => ?_)
  · cases o with
    | directory j =>
        obtain ⟨p, hp, rfl⟩ := ho
        rcases Slots.update_some hp with ⟨rfl, rfl⟩ | ⟨_, hBefore⟩
        · exact Or.inr (Or.inl ⟨rfl, rfl⟩)
        · exact Or.inl ⟨p, hBefore, rfl⟩
    | table j d =>
        obtain ⟨p, hp, hd, rfl⟩ := ho
        rcases Slots.update_some hp with ⟨rfl, rfl⟩ | ⟨_, hBefore⟩
        · exact Or.inr (Or.inr ⟨d, hd, rfl, hTables d hd⟩)
        · exact Or.inl ⟨p, hBefore, hd, h.directoryTables_kept hWords hBefore hd⟩
    | slot j n =>
        obtain ⟨p, hp, hn, hq, hNull⟩ := ho
        rcases Slots.update_some hp with ⟨rfl, rfl⟩ | ⟨_, hBefore⟩
        · exact absurd hq hNull
        · exact Or.inl ⟨p, hBefore, hn, hq, hNull⟩
  · rcases hNew with ⟨rfl, rfl⟩ | ⟨d, hd, rfl, rfl⟩
    · exact ⟨hLive _ (List.mem_append_right _ List.mem_cons_self), hRecord.built.page.2⟩
    · exact ⟨hLive _ (List.mem_append_left _ (List.mem_map_of_mem (List.mem_range.mpr hd))),
        (hRecord.built.tables d hd).2.1⟩
  · rcases hNew with ⟨rfl, rfl⟩ | ⟨d, hd, rfl, rfl⟩
    · rcases hNew' with ⟨rfl, _⟩ | ⟨d, hd, rfl, hSame⟩
      · rfl
      · exact absurd hSame.symm (hRecord.built.tables d hd).2.2
    · rcases hNew' with ⟨rfl, hSame⟩ | ⟨e, he, rfl, hSame⟩
      · exact absurd hSame (hRecord.built.tables d hd).2.2
      · rw [hRecord.built.distinct d hd e he hSame]
  · rcases Slots.update_some hp with ⟨rfl, rfl⟩ | ⟨_, hBefore⟩
    · exact Or.inr ⟨fun _ => rfl, fun hNull => absurd rfl hNull⟩
    · exact Or.inl ⟨p, hBefore, rfl⟩

theorem AllocationInv.startRefused (h : AllocationInv s)
    (hDirectory : createNewPageDirectory s.k (pagingIsPresent ||| pagingAccessFromAll) = (0, k)) :
    Follows s { s with k := k } := by
  have hUndisturbed := createNewPageDirectory_undisturbed h.kernel h.clear h.safe
    (show pagingIsPresent ||| pagingAccessFromAll < 4096 by decide)
  rw [hDirectory] at hUndisturbed
  exact h.keep hUndisturbed.kernel hUndisturbed.clear hUndisturbed.safe (fun _ _ hp => hp)
    (h.wordsKept hUndisturbed.words) fun _ ha _ => ha

theorem processes_same (hp : s.processes i = some p) :
    Function.update s.processes i (some p) = s.processes := by
  rw [← hp]
  exact Function.update_eq_self i s.processes

/-- What the other slots of a process were, they are. -/
theorem slots_update {s' : AllocationRun} {a : ProcessAllocation} (hp : s.processes i = some p)
    (hProcesses : s'.processes = Function.update s.processes i
      (some { p with allocations := Function.update p.allocations n a }))
    (hNoted : SlotNoted s'.live a) (j : Nat) (p₁ : ProcessMemory) (m : Nat)
    (hp₁ : s'.processes j = some p₁) :
    (∃ p₀, s.processes j = some p₀ ∧ p₀.allocations m = p₁.allocations m) ∨
      SlotNoted s'.live (p₁.allocations m) := by
  rw [hProcesses] at hp₁
  rcases Slots.update_some hp₁ with ⟨rfl, rfl⟩ | ⟨_, hBefore⟩
  · by_cases hSlot : m = n
    · subst hSlot
      right
      dsimp only
      rwa [Function.update_self]
    · exact Or.inl ⟨p, hp, (Function.update_of_ne hSlot _ _).symm⟩
  · exact Or.inl ⟨p₁, hBefore, rfl⟩

/-- A request that is refused leaves the process alone; one for which there is no slot
is given back at once; what is granted belongs to the slot. -/
theorem AllocationInv.malloc (h : AllocationInv s) (hp : s.processes i = some p)
    (hSize : size < 4294967296) (hFits : RequestFits s.k.heap.table size)
    (hRequest : processMalloc s.k p size = (ptr, k, p')) :
    Follows s
      { k := k
        live := if ptr = 0 then s.live else ⟨ptr, size⟩ :: s.live
        processes := Function.update s.processes i (some p') } := by
  rcases kzalloc_of_fits s.k hSize hFits with hNone | ⟨hSome, hRun⟩
  · simp only [processMalloc, hNone, if_true] at hRequest
    obtain ⟨rfl, hRest⟩ := Prod.mk.inj hRequest
    obtain ⟨rfl, rfl⟩ := Prod.mk.inj hRest
    rw [if_pos rfl, processes_same hp]
    exact h.follows_same
  · obtain ⟨b, hBlocks, hGrant⟩ := kzalloc_of_run h.kernel hSome hRun
    have hHeap : heapMalloc s.k.heap size = (heapBlockToAddress s.k.heap b,
        heapMarkBlocksTaken s.k.heap b (blocksOf size)) :=
      Prod.ext (by rw [← kzalloc_ptr, hGrant]) (by rw [← kzalloc_heap, hGrant])
    have hNull : heapBlockToAddress s.k.heap b ≠ 0 := by
      obtain ⟨_, hLow, _⟩ := hBlocks.address h.kernel (blocksOf_pos size)
      omega
    have hSafe := h.safe.malloc (by decide) hSize hFits
    have hClear := h.clear.malloc size
    have hKernel := h.kernel.malloc size
    rw [hHeap] at hSafe hClear hKernel
    dsimp only at hSafe hClear hKernel
    rw [if_neg hNull] at hSafe
    have hCleared : WordsKept s (storeRange s.k.mem (heapBlockToAddress s.k.heap b) size fun _ => 0) :=
      h.wordsKept fun x hx hHeld => hBlocks.storeRange_held h.kernel (blocksOf_pos size)
        (blocksOf_covers size) hHeld hx rfl _ _
    rcases processMalloc_of_grant (h.space hp) hSome hBlocks hGrant with
      ⟨_, hFull⟩ | ⟨n, mem, hn, hEmpty, hGranted, hOnly, _⟩
    · obtain ⟨rfl, hRest⟩ := Prod.mk.inj (hRequest.symm.trans hFull)
      obtain ⟨rfl, rfl⟩ := Prod.mk.inj hRest
      rw [if_pos rfl, processes_same hp]
      exact h.keep (hKernel.free _) (hClear.free _)
        (@HeapInv.free 25600 _ 0 ⟨heapBlockToAddress s.k.heap b, size⟩ hSafe rfl)
        (fun _ _ hp => hp) hCleared fun _ ha _ => ha
    · obtain ⟨rfl, hRest⟩ := Prod.mk.inj (hRequest.symm.trans hGranted)
      obtain ⟨rfl, rfl⟩ := Prod.mk.inj hRest
      have hWords := h.tablesOnly_words hp hCleared hOnly
      rw [if_neg hNull]
      refine h.extend (fun o q => o = .slot i n ∧ q = heapBlockToAddress s.k.heap b) hKernel hClear
        hSafe (fun o q ho => ?_) (fun a ha _ => List.mem_cons_of_mem _ ha) (fun o q hNew => ?_)
        (fun o o' q hNew hNew' => hNew.1.trans hNew'.1.symm)
        (fun j p₁ m hp₁ _ => slots_update hp rfl
          ⟨fun hZero => absurd hZero hNull, fun _ => ⟨hSome, List.mem_cons_self⟩⟩ j p₁ m hp₁)
      · rcases h.owns_update hp hWords ho rfl with hBefore | ⟨m, rfl, hm, rfl, hPtr⟩
        · exact Or.inl hBefore
        · by_cases hSlot : m = n
          · subst hSlot
            dsimp only
            exact Or.inr ⟨rfl, by rw [Function.update_self]⟩
          · dsimp only at hPtr ⊢
            rw [Function.update_of_ne hSlot] at hPtr ⊢
            exact Or.inl ⟨p, hp, hm, rfl, hPtr⟩
      · obtain ⟨rfl, rfl⟩ := hNew
        exact ⟨⟨_, List.mem_cons_self, rfl⟩, hBlocks.not_held h.kernel (blocksOf_pos size)⟩

/-- A pointer that is not found changes nothing. Otherwise the allocation of the slot
belongs to nobody any more. -/
theorem AllocationInv.free (h : AllocationInv s) (hp : s.processes i = some p)
    (hFits : ptr ≠ 0 ∨ NullFreeMisses s.k.heap ∨ SlotsTaken p)
    (hRelease : processFree s.k p ptr = (k, p')) :
    Follows s
      { k := k
        live := if isCurrentProcessPtr p ptr < 0 ∨ ptr = 0 then s.live else released s.live ptr
        processes := Function.update s.processes i (some p') } := by
  rcases isCurrentProcessPtr_cases p ptr with ⟨hUnknown, _⟩ | ⟨n, hFound, hn, rfl⟩
  · rw [processFree_unknown s.k hUnknown] at hRelease
    obtain ⟨rfl, rfl⟩ := Prod.mk.inj hRelease
    rw [if_pos (Or.inl (by rw [hUnknown]; decide)), processes_same hp]
    exact h.follows_same
  · by_cases hNull : (p.allocations n).ptr = 0
    · rw [hNull] at hFound hRelease ⊢
      rw [h.processFree_null hp hn hNull hFound] at hRelease
      obtain ⟨rfl, rfl⟩ := Prod.mk.inj hRelease
      rw [if_pos (Or.inr rfl), processes_same hp]
      rcases hFits with hNonNull | hMisses | hTaken
      · exact absurd hNull hNonNull
      · exact h.kfreeNull hMisses
      · exact absurd hNull (hTaken n hn)
    · obtain ⟨mem, hRun, hOnly, _⟩ := h.processFree_slot hp hn hNull
      obtain ⟨rfl, rfl⟩ := Prod.mk.inj (hRelease.symm.trans hRun)
      have hWords := h.tablesOnly_words hp (wordsKept_same s) hOnly
      have hMine : Owns s (.slot i n) (p.allocations n).ptr := ⟨p, hp, hn, rfl, hNull⟩
      have hLive := (h.slots i p n hp hn hNull).2
      have hOwns : ∀ o q, Owns ⟨⟨heapFree s.k.heap (p.allocations n).ptr, mem⟩,
          released s.live (p.allocations n).ptr, Function.update s.processes i
            (some { p with allocations := Function.update p.allocations n ⟨0, 0⟩ })⟩ o q →
          Owns s o q := fun o q ho => by
        rcases h.owns_update hp hWords ho rfl with hBefore | ⟨m, rfl, hm, rfl, hPtr⟩
        · exact hBefore
        · dsimp only at hPtr ⊢
          by_cases hSlot : m = n
          · rw [hSlot, Function.update_self] at hPtr
            exact absurd rfl hPtr
          · rw [Function.update_of_ne hSlot] at hPtr ⊢
            exact ⟨p, hp, hm, rfl, hPtr⟩
      rw [if_neg (by rw [hFound]; omega)]
      refine h.extend (fun _ _ => False) (h.kernel.free _) (h.clear.free _)
        (h.safe.released ⟨_, hLive, rfl⟩) (fun o q ho => Or.inl (hOwns o q ho)) (fun a ha => ?_)
        (fun _ _ hFalse => hFalse.elim) (fun _ _ _ hFalse => hFalse.elim)
        (fun j p₁ m hp₁ _ => slots_update hp rfl ⟨fun _ => rfl, fun hZero => absurd rfl hZero⟩ j p₁ m
          hp₁)
      rintro ⟨o, ho⟩
      refine mem_released ha fun hPtr => ?_
      rw [hPtr] at ho
      obtain rfl := h.unique _ _ _ (hOwns _ _ ho) hMine
      obtain ⟨p₁, hp₁, _, hSlot, hNonNull⟩ := ho
      obtain rfl := Option.some.inj ((Function.update_self i _ _).symm.trans hp₁)
      dsimp only at hSlot
      rw [Function.update_self] at hSlot
      exact hNonNull hSlot

end Events

/-- Every event keeps the invariant, as long as it meets none of the heap's defects. -/
theorem AllocationInv.step {s t : AllocationRun} {e : AllocationEvent} (h : AllocationInv s)
    (hStep : Guarded AllocationStep AllocationFits s e t) : Follows s t := by
  obtain ⟨hFits, hStep⟩ := hStep
  cases hStep with
  | kmalloc size hSize => exact h.kmalloc hSize hFits
  | kfree ptr hLive hFree => exact h.kfree hLive hFree
  | kfreeNull => exact h.kfreeNull hFits
  | write mem hApart => exact h.write hApart
  | start i chunk k hNew hDirectory hGranted => exact h.start hNew hDirectory hGranted
  | startRefused i k hNew hDirectory => exact h.startRefused hDirectory
  | finish i => exact h.finish i
  | malloc i size ptr k p p' hProcess hSize hRequest => exact h.malloc hProcess hSize hFits hRequest
  | free i ptr k p p' hProcess hRelease =>
      exact h.free hProcess (hFits.imp id fun hRest => hRest.imp id fun hTaken => hTaken p hProcess)
        hRelease

/-! ### From `kheap_init` on -/

/-- No process has been started, and nothing has been requested from the heap. -/
def allocationStart (heap : Heap) (finish : Nat) (entries : Int → UInt8) (mem : Memory) :
    AllocationRun where
  k := ⟨(heapStart heap liebeOsHeapAddress finish 25600 entries).heap, mem⟩
  live := []
  processes _ := none

section Start

variable {heap : Heap} {finish : Nat} {entries : Int → UInt8} {mem : Memory}
  {events : List AllocationEvent} {s : AllocationRun}

theorem allocationStart_inv
    (hCreate : (heapCreate heap liebeOsHeapAddress finish ⟨entries, 25600, []⟩).1 = 0) :
    AllocationInv (allocationStart heap finish entries mem) := by
  obtain ⟨hKernel, hClear⟩ := heapRun_clear hCreate (Run.nil _)
  have hNone : ∀ o q, ¬ Owns (allocationStart heap finish entries mem) o q := fun o q ho => by
    cases o with
    | directory i =>
        obtain ⟨p, hp, _⟩ := ho
        cases hp
    | table i d =>
        obtain ⟨p, hp, _⟩ := ho
        cases hp
    | slot i n =>
        obtain ⟨p, hp, _⟩ := ho
        cases hp
  exact
    { kernel := hKernel
      clear := hClear
      safe := heapStart_inv hCreate
      owned := fun o q ho => absurd ho (hNone o q)
      unique := fun o _ q ho => absurd ho (hNone o q)
      slots := fun _ _ _ hp => by cases hp
      empty := fun _ _ _ hp => by cases hp }

theorem allocationRun_inv
    (hCreate : (heapCreate heap liebeOsHeapAddress finish ⟨entries, 25600, []⟩).1 = 0)
    (run : Run (Guarded AllocationStep AllocationFits) (allocationStart heap finish entries mem)
      events s) : AllocationInv s :=
  run.invariant (allocationStart_inv hCreate) fun _ _ _ hInv hStep => (hInv.step hStep).inv

/-- There is room for a first process. -/
theorem allocationRun_start
    (hCreate : (heapCreate heap liebeOsHeapAddress finish ⟨entries, 25600, []⟩).1 = 0) :
    ∃ s p, Run (Guarded AllocationStep AllocationFits) (allocationStart heap finish entries mem)
        [.start 0] s ∧ s.processes 0 = some p ∧ ∀ n, (p.allocations n).ptr = 0 := by
  have hFree : FreeRun (allocationStart heap finish entries mem).k.heap.table.entries 0 1026 :=
    fun j hLow hHigh => by
      rw [allocationStart, heapStart_entries hCreate, if_pos (by omega)]
      rfl
  have hInv := @allocationStart_inv heap finish entries mem hCreate
  have hGranted := createNewPageDirectory_granted hInv.kernel
    (pagingIsPresent ||| pagingAccessFromAll) (Int.le_refl 0) (by decide) hFree
  generalize hDirectory : createNewPageDirectory (allocationStart heap finish entries mem).k
    (pagingIsPresent ||| pagingAccessFromAll) = r at hGranted
  obtain ⟨chunk, k⟩ := r
  have hp : ∀ p : ProcessMemory, Function.update
      (allocationStart heap finish entries mem).processes 0 (some p) 0 = some p :=
    fun p => Function.update_self 0 _ _
  exact ⟨_, ⟨getPageDirectoryEntry k.mem chunk, fun _ => ⟨0, 0⟩⟩,
    Run.single ⟨trivial, AllocationStep.start _ 0 chunk k rfl hDirectory hGranted⟩, hp _,
    fun _ => rfl⟩

/-- In every run in which all events meet their conditions, whatever pointer a process
gives back: unless the null pointer is taken for an empty slot, exactly the blocks, the
pages and the slot of the allocation are given up, or nothing if there is none. -/
theorem processFree_correct_iff
    (hCreate : (heapCreate heap liebeOsHeapAddress finish ⟨entries, 25600, []⟩).1 = 0)
    (run : Run (Guarded AllocationStep AllocationFits) (allocationStart heap finish entries mem)
      events s) {i : Nat} {p : ProcessMemory} (hp : s.processes i = some p) (ptr : Nat) :
    FreeCorrect s i p ptr ↔ ptr ≠ 0 ∨ SlotsTaken p :=
  (allocationRun_inv hCreate run).freeCorrect_iff hp

end Start

/-- A process that has requested 100 bytes gives back any pointer but null. -/
theorem processFree_correct_iff_first :
    ∃ s p, Run (Guarded AllocationStep AllocationFits)
        (allocationStart ⟨⟨fun _ => 0, 0, []⟩, 0⟩ 0x07400000 (fun _ => 0xFF) fun _ => 0)
        [.start 0, .malloc 0 100] s ∧ s.processes 0 = some p ∧
      ∀ ptr, ptr ≠ 0 → FreeCorrect s 0 p ptr := by
  obtain ⟨t, p, hStart, hp, _⟩ := @allocationRun_start _ _ _ (fun _ => 0) kheapInit_create
  generalize hRequest : processMalloc t.k p 100 = r
  obtain ⟨ptr, k, p'⟩ := r
  have hFits : AllocationFits t (.malloc 0 100) :=
    requestFits_one t.k.heap (by decide) (by decide)
  have run := hStart.snoc ⟨hFits, AllocationStep.malloc t 0 100 ptr k p p' hp (by decide) hRequest⟩
  have hp' : Function.update t.processes 0 (some p') 0 = some p' := Function.update_self 0 _ _
  exact ⟨_, p', run, hp',
    fun ptr hNonNull => (processFree_correct_iff kheapInit_create run hp' ptr).mpr (Or.inl hNonNull)⟩

/-- The first process gives back the null pointer: its first slot is taken for the
allocation, and the entry that is cleared is 4096 bytes in front of the table. -/
theorem processFree_null_unsafe :
    ¬ ∀ (heap : Heap) (finish : Nat) (entries : Int → UInt8) (mem : Memory)
      (events : List AllocationEvent) (s : AllocationRun) (i : Nat) (p : ProcessMemory) (ptr : Nat),
      (heapCreate heap liebeOsHeapAddress finish ⟨entries, 25600, []⟩).1 = 0 →
      Run AllocationStep (allocationStart heap finish entries mem) events s →
      s.processes i = some p → ptr < 4294967296 → FreeCorrect s i p ptr := by
  intro hClaim
  obtain ⟨s, p, run, hp, hEmpty⟩ := @allocationRun_start _ _ _ (fun _ => 0) kheapInit_create
  have hCorrect := hClaim _ _ _ _ _ s 0 p 0 kheapInit_create
    (run.weaken fun _ _ _ hStep => hStep.2) hp (by decide)
  rcases ((allocationRun_inv kheapInit_create run).freeCorrect_iff hp).mp hCorrect with
    hNonNull | hTaken
  · exact hNonNull rfl
  · exact hTaken 0 (by decide) (hEmpty 0)

end LiebeOS
