import LiebeOS.Memory.Undisturbed
import LiebeOS.Task.ProcessArguments
import LiebeOS.Task.StringFromTask

/-! What the new program finds of the arguments it was given. Everything that
`process_inject_arguments` writes goes to blocks that were free before, and each of
them is shown to the program under its own address. -/
namespace LiebeOS

open Attempts MachineInt Bytes

/-- The list that begins at `root`, as the addresses of its nodes. -/
inductive ArgumentList (mem : Memory) : Nat → List Nat → Prop where
  | nil : ArgumentList mem 0 []
  | cons {current : Nat} {nodes : List Nat} (hNode : current ≠ 0)
      (hRest : ArgumentList mem (commandArgumentNext mem current) nodes) :
      ArgumentList mem current (current :: nodes)

/-- `arguments->argc` and `arguments->argv` are the two words at `arguments`. -/
def isr80hCommand8GetProgramArguments (k : KernelMemory) (p : ArgumentsProcess)
    (arguments : Nat) : KernelMemory :=
  let physical := pagingGetPhysicalAddress k.mem p.process.directory arguments
  { k with mem := storeWord (storeWord k.mem physical (toWord p.argc)) (behind physical 4) p.argv }

/-- An allocated page that is neither the directory nor one of its tables. -/
structure DataPage (k : KernelMemory) (directory : Nat) (table : Nat → Nat) (q : Nat) :
    Prop where
  held : Held k.heap q
  directory : q ≠ directory
  tables : ∀ d < 1024, q ≠ table d

/-- The page `v` is none of the blocks that a request can still take. -/
def Settled (heap : Heap) (v : Nat) : Prop := Held heap v ∨ v < 0x01000000 ∨ 0x07400000 ≤ v

/-- The address `x` is not in the heap. -/
def OutsideHeap (x : Nat) : Prop := x < 0x01000000 ∨ 0x07400000 ≤ x

/-- A byte that no request stores to: it is in a data page, or not in the heap. -/
def Lasting (k : KernelMemory) (directory : Nat) (table : Nat → Nat) (x : Nat) : Prop :=
  DataPage k directory table (x / 4096 * 4096) ∨ OutsideHeap x

/-- What was allocated still is, with the same bytes; nothing has changed outside of the heap;
and settled pages are mapped as they were. -/
structure Kept (directory : Nat) (table : Nat → Nat) (k k' : KernelMemory) : Prop where
  held : ∀ q, Held k.heap q → Held k'.heap q
  bytes : ∀ x < 4294967296, Lasting k directory table x → k'.mem x = k.mem x
  entries : ∀ v < 4294967296, v % 4096 = 0 → Settled k.heap v →
    pagingGet k'.mem directory v = pagingGet k.mem directory v

/-- The address `x` is in a data page that the program may use under this address. -/
structure Shown (k : KernelMemory) (directory : Nat) (table : Nat → Nat) (x : Nat) :
    Prop where
  page : DataPage k directory table (x / 4096 * 4096)
  entry : pagingGet k.mem directory (x / 4096 * 4096) =
    x / 4096 * 4096 ||| (pagingIsWriteable ||| pagingIsPresent ||| pagingAccessFromAll)

/-- The slots of the process that are empty. -/
def freeSlots (process : ProcessMemory) : Finset Nat :=
  (Finset.range liebeOsMaxProgramAllocations).filter fun i => (process.allocations i).ptr = 0

/-- `size` bytes at `ptr` are new to the kernel, clear and shown to the program. -/
structure HandedOut (k k' : KernelMemory) (directory : Nat) (table : Nat → Nat)
    (ptr size : Nat) : Prop where
  address : ptr ≠ 0 ∧ ptr % 4096 = 0 ∧ ptr + size ≤ 0x07400000
  new : ∀ x, ptr ≤ x → x < ptr + size → ¬ Held k.heap (x / 4096 * 4096)
  shown : ∀ x, ptr ≤ x → x < ptr + size → Shown k' directory table x
  clear : ∀ x, ptr ≤ x → x < ptr + size → k'.mem x = 0

/-- What a request of the process comes to: it is refused, or it hands out bytes, for which it
takes a slot and as many blocks as they need. Either way everything else is kept. -/
structure Requested (k k' : KernelMemory) (process process' : ProcessMemory)
    (table : Nat → Nat) (ptr size : Nat) : Prop where
  directory : process'.directory = process.directory
  space : TaskSpace k' process.directory table
  kept : Kept process.directory table k k'
  answer : ptr = 0 ∨ HandedOut k k' process.directory table ptr size ∧ HasRun k.heap size ∧
    (freeSlots process').card + 1 = (freeSlots process).card ∧
    (freeBlocks k'.heap).card + blocksOf size = (freeBlocks k.heap).card
  granted : 0 < (freeSlots process).card → HasRun k.heap size → ptr ≠ 0

/-- Pointer `i` of the `n` at `argv` leads to a copy of the argument that was at `node` at the
start, and the copy is in blocks that were free. -/
def ArgumentPassed (start k : KernelMemory) (directory : Nat) (table : Nat → Nat)
    (argv n i node : Nat) : Prop :=
  ∃ q m out, 0 < q ∧ q + m < 4294967296 ∧
    (∀ j < 4, Shown k directory table (argv + 4 * i + j) ∧
      k.mem (argv + 4 * i + j) = wordByte q j) ∧
    StringCopied (fun j => some (start.mem (behind node j))) sizeOfArgument out m ∧
    ∀ j ≤ m, Shown k directory table (q + j) ∧ k.mem (q + j) = out j ∧
      (q + j < argv ∨ argv + 4 * n ≤ q + j) ∧ ¬ Held start.heap ((q + j) / 4096 * 4096)

/-- The arguments in `done` have been passed on, and all that was there before is kept. -/
structure Passing (start k : KernelMemory) (directory : Nat) (table : Nat → Nat) (argv n : Nat)
    (done : List Nat) : Prop where
  space : TaskSpace k directory table
  kept : Kept directory table start k
  address : 0 < argv ∧ argv + 4 * n ≤ 0x07400000
  pointers : ∀ x, argv ≤ x → x < argv + 4 * n →
    Shown k directory table x ∧ ¬ Held start.heap (x / 4096 * 4096)
  passed : ∀ i node, done[i]? = some node →
    ArgumentPassed start k directory table argv n i node

/-- The `count` bytes of the program at `virt` are those from `x` on, which are data that
no request hands out. -/
structure TaskBuffer (k : KernelMemory) (directory : Nat) (table : Nat → Nat)
    (virt x count : Nat) : Prop where
  inside : virt < 4294967296
  reached : ∀ j < count, pageTranslation directory k.mem (behind virt j) = some (x + j)
  settled : ∀ j < count, Settled k.heap (behind virt j / 4096 * 4096)
  page : ∀ j < count, DataPage k directory table ((x + j) / 4096 * 4096)

/-- What the program finds at `arguments`: their number, and behind it a pointer to as many
pointers, each to a copy of the argument that was in `source`. -/
structure ArgumentsFound (source mem : Memory) (directory arguments argv : Nat)
    (nodes : List Nat) : Prop where
  number : ∀ j < 4, taskByte mem directory arguments j = some (wordByte nodes.length j)
  pointers : ∀ j < 4, taskByte mem directory arguments (4 + j) = some (wordByte argv j)
  argument : ∀ i node, nodes[i]? = some node → ∃ q m out, q ≠ 0 ∧
    (∀ j < 4, taskByte mem directory argv (4 * i + j) = some (wordByte q j)) ∧
    StringCopied (fun j => some (source (behind node j))) sizeOfArgument out m ∧
    ∀ j ≤ m, taskByte mem directory q j = some (out j)

/-- The node's 516 bytes are data that no request hands out. -/
def NodeHeld (k : KernelMemory) (directory : Nat) (table : Nat → Nat) (node : Nat) : Prop :=
  ∀ j < 516, DataPage k directory table ((node + j) / 4096 * 4096)

/-- There are slots and blocks for `n` arguments. -/
structure RoomFor (k : KernelMemory) (process : ProcessMemory) (n : Nat) : Prop where
  slots : n < (freeSlots process).card
  pointers : HasRun k.heap (4 * n)
  blocks : blocksOf (4 * n) + n ≤ (freeBlocks k.heap).card

section Lists

variable {mem mem' : Memory} {root node : Nat} {nodes nodes' : List Nat}

theorem ArgumentList.unique (h : ArgumentList mem root nodes) (h' : ArgumentList mem root nodes') :
    nodes = nodes' := by
  induction h generalizing nodes' with
  | nil =>
      cases h' with
      | nil => rfl
      | cons hNode _ => exact absurd rfl hNode
  | cons hNode _ ih =>
      cases h' with
      | nil => exact absurd rfl hNode
      | cons _ hRest => rw [ih hRest]

/-- The list goes on from each of its nodes. -/
theorem ArgumentList.from_node (h : ArgumentList mem root nodes) (hNode : node ∈ nodes) :
    ∃ rest, ArgumentList mem node rest ∧ rest.length ≤ nodes.length := by
  induction h with
  | nil => exact absurd hNode (List.not_mem_nil)
  | cons hFirst hRest ih =>
      rcases List.mem_cons.mp hNode with rfl | hLater
      · exact ⟨_, ArgumentList.cons hFirst hRest, Nat.le_refl _⟩
      · obtain ⟨rest, hList, hLength⟩ := ih hLater
        exact ⟨rest, hList, Nat.le_succ_of_le hLength⟩

/-- A list that ends does not come back to a node. -/
theorem ArgumentList.nodup (h : ArgumentList mem root nodes) : nodes.Nodup := by
  induction h with
  | nil => exact List.nodup_nil
  | cons hFirst hRest ih =>
      refine List.nodup_cons.mpr ⟨fun hBack => ?_, ih⟩
      obtain ⟨rest, hList, hLength⟩ := hRest.from_node hBack
      rw [hList.unique (ArgumentList.cons hFirst hRest), List.length_cons] at hLength
      omega

theorem ArgumentList.length_le {bound : Nat} (h : ArgumentList mem root nodes)
    (hBound : ∀ node ∈ nodes, node < bound) : nodes.length ≤ bound := by
  have hSub : nodes ⊆ List.range bound := fun node hNode => List.mem_range.mpr (hBound node hNode)
  have hRange := (h.nodup.subperm hSub).length_le
  rwa [List.length_range] at hRange

theorem processCountLoop_list (h : ArgumentList mem root nodes) {fuel : Nat} (count : Nat)
    (hFuel : nodes.length < fuel) :
    processCountLoop mem fuel root count = .returned (count + nodes.length) := by
  induction h generalizing fuel count with
  | nil =>
      obtain ⟨fuel, rfl⟩ := Nat.exists_eq_succ_of_ne_zero (Nat.ne_of_gt hFuel)
      exact processCountLoop_null mem fuel count
  | cons hNode _ ih =>
      rw [List.length_cons] at hFuel
      obtain ⟨fuel, rfl⟩ := Nat.exists_eq_succ_of_ne_zero (show fuel ≠ 0 by omega)
      rw [processCountLoop_node mem fuel count hNode, ih (count + 1) (by omega), List.length_cons,
        Nat.add_assoc, Nat.add_comm 1]

end Lists

section Words

variable {mem : Memory} {p v j x : Nat}

theorem storeWord_at (hEnd : p + 4 ≤ 4294967296) (hj : j < 4) :
    storeWord mem p v (p + j) = wordByte v j := by
  rw [← @behind_of_lt p j (by omega)]
  exact storeRange_at hj (by decide)

theorem storeWord_apart (hEnd : p + 4 ≤ 4294967296) (hx : x < 4294967296)
    (hApart : x < p ∨ p + 4 ≤ x) : storeWord mem p v x = mem x := by
  apply storeRange_outside
  unfold offsetFrom toWord
  omega

end Words

section Kept

variable {k k' k'' : KernelMemory} {directory q x : Nat} {table : Nat → Nat} {mem : Memory}

theorem Kept.refl (directory : Nat) (table : Nat → Nat) (k : KernelMemory) :
    Kept directory table k k := ⟨fun _ h => h, fun _ _ _ => rfl, fun _ _ _ _ => rfl⟩

theorem DataPage.kept (h : DataPage k directory table q) (hKept : Kept directory table k k') :
    DataPage k' directory table q := ⟨hKept.held q h.held, h.directory, h.tables⟩

theorem OutsideHeap.notHeld {heap : Heap} (h : OutsideHeap x) (hHeap : KernelHeap heap) :
    ¬ Held heap (x / 4096 * 4096) := fun hHeld => by
  have hPage := hHeld.page hHeap
  unfold OutsideHeap at h
  omega

theorem Lasting.kept (h : Lasting k directory table x) (hKept : Kept directory table k k') :
    Lasting k' directory table x := h.imp_left fun hPage => hPage.kept hKept

theorem DataPage.notInTables (h : DataPage k directory table (x / 4096 * 4096)) :
    ¬ InTables table x := by
  rintro ⟨d, hd, hIn⟩
  exact h.tables d hd hIn

theorem Lasting.notInTables (h : Lasting k directory table x) (hSpace : TaskSpace k directory table) :
    ¬ InTables table x := by
  rcases h with hPage | hOutside
  · exact hPage.notInTables
  · rintro ⟨d, hd, hIn⟩
    exact hOutside.notHeld hSpace.heap (hIn ▸ hSpace.held.2 d hd)

theorem Kept.trans (hFirst : Kept directory table k k') (hSecond : Kept directory table k' k'') :
    Kept directory table k k'' where
  held q h := hSecond.held q (hFirst.held q h)
  bytes x hx h := (hSecond.bytes x hx (h.kept hFirst)).trans (hFirst.bytes x hx h)
  entries v hv hPage h := (hSecond.entries v hv hPage (h.imp_left (hFirst.held v))).trans
    (hFirst.entries v hv hPage h)

theorem Shown.lt (h : Shown k directory table x) (hHeap : KernelHeap k.heap) :
    x < 4294967296 := by
  have hPage := h.page.held.page hHeap
  omega

theorem Shown.kept (h : Shown k directory table x) (hHeap : KernelHeap k.heap)
    (hKept : Kept directory table k k') : Shown k' directory table x := by
  have hLt := h.lt hHeap
  exact ⟨h.page.kept hKept, (hKept.entries _ (by omega) (by omega) (Or.inl h.page.held)).trans
    h.entry⟩

/-- The program reads what is there. -/
theorem Shown.load (h : Shown k directory table x) (hSpace : TaskSpace k directory table) :
    (pageTranslation directory).load k.mem x = some (k.mem x) := by
  have hPage := h.page.held.page hSpace.heap
  have hLower : pagingAlignToLowerPage x = x / 4096 * 4096 := pagingAlignToLowerPage_eq x
  have hFlags := @or_flags (x / 4096 * 4096)
    (pagingIsWriteable ||| pagingIsPresent ||| pagingAccessFromAll) (by omega) (by decide)
  have hSeven : pagingIsWriteable ||| pagingIsPresent ||| pagingAccessFromAll = 7 := rfl
  have hEntry := h.entry
  rw [hSeven] at hFlags hEntry
  have hPhysical : pagingGetPhysicalAddress k.mem directory x = x / 4096 * 4096 + x % 4096 :=
    hSpace.tables.maps.translate (h.lt hSpace.heap) (by omega) (by omega) (show 7 < 4096 by decide)
      hEntry
  have hLt := h.lt hSpace.heap
  rw [Translation.load, pageTranslation, hLower, hEntry, hSpace.present _ (by omega), hFlags,
    hPhysical, if_neg (by omega), show x / 4096 * 4096 + x % 4096 = x by omega]
  rfl

/-- Settled pages are reached as before. -/
theorem Kept.translation (h : Kept directory table k k') (hSpace : TaskSpace k directory table)
    (hSpace' : TaskSpace k' directory table) (hLt : x < 4294967296)
    (hSettled : Settled k.heap (x / 4096 * 4096)) :
    pageTranslation directory k'.mem x = pageTranslation directory k.mem x := by
  have hLower : pagingAlignToLowerPage x = x / 4096 * 4096 := pagingAlignToLowerPage_eq x
  have hEntry := h.entries (x / 4096 * 4096) (by omega) (by omega) hSettled
  simp only [pageTranslation, pagingGetPhysicalAddress, hLower, hEntry,
    hSpace.present _ (show x / 4194304 < 1024 by omega),
    hSpace'.present _ (show x / 4194304 < 1024 by omega)]

theorem TaskBuffer.kept {virt count : Nat} (h : TaskBuffer k directory table virt x count)
    (hKept : Kept directory table k k') (hSpace : TaskSpace k directory table)
    (hSpace' : TaskSpace k' directory table) : TaskBuffer k' directory table virt x count where
  inside := h.inside
  reached j hj := (hKept.translation hSpace hSpace' (behind_lt _ _) (h.settled j hj)).trans
    (h.reached j hj)
  settled j hj := (h.settled j hj).imp_left (hKept.held _)
  page j hj := (h.page j hj).kept hKept

/-- Stores into data pages leave the directory and its tables alone. -/
theorem TaskSpace.stored (h : TaskSpace k directory table)
    (hOnly : ∀ x < 4294967296, mem x ≠ k.mem x → DataPage k directory table (x / 4096 * 4096)) :
    TaskSpace { k with mem := mem } directory table ∧
      Remapped k.mem mem directory (pagingGet k.mem directory) := by
  have hSame : ∀ x < 4294967296, x / 4096 * 4096 = directory ∨ InTables table x →
      mem x = k.mem x := fun x hx hIn => by
    by_contra hOther
    rcases hIn with hDirectory | ⟨d, hd, hTable⟩
    · exact (hOnly x hx hOther).directory hDirectory
    · exact (hOnly x hx hOther).tables d hd hTable
  obtain ⟨hTables, hPages⟩ := h.tables.remapped hSame
  refine ⟨{ heap := h.heap, clear := h.clear, tables := hTables, held := h.held,
            present := fun d hd => ?_ }, hPages⟩
  exact (congrArg (· % 2) (hPages.pointers d hd)).trans (h.present d hd)

theorem Shown.stored (h : Shown k directory table x) (hSpace : TaskSpace k directory table)
    (hMaps : Remapped k.mem mem directory (pagingGet k.mem directory)) :
    Shown { k with mem := mem } directory table x := by
  have hLt := h.lt hSpace.heap
  exact ⟨⟨h.page.held, h.page.directory, h.page.tables⟩,
    (hMaps.entries _ (by omega) (by omega)).trans h.entry⟩

end Kept

section Malloc

variable {k : KernelMemory} {process : ProcessMemory} {table : Nat → Nat} {size q i ptr : Nat}
  {heap : Heap} {b : Int} {n x : Nat}

theorem freeSlots_fill (hi : i < liebeOsMaxProgramAllocations)
    (hEmpty : (process.allocations i).ptr = 0) (hPtr : ptr ≠ 0) (size : Nat) :
    (freeSlots { process with
      allocations := Function.update process.allocations i ⟨ptr, size⟩ }).card + 1 =
      (freeSlots process).card := by
  have hMem : i ∈ freeSlots process := Finset.mem_filter.mpr ⟨Finset.mem_range.mpr hi, hEmpty⟩
  have hOthers : freeSlots { process with
      allocations := Function.update process.allocations i ⟨ptr, size⟩ } =
      (freeSlots process).erase i := by
    ext j
    rw [Finset.mem_erase, freeSlots, freeSlots, Finset.mem_filter, Finset.mem_filter]
    by_cases hSame : j = i
    · simp [hSame, hPtr]
    · simp [hSame]
  rw [hOthers, Finset.card_erase_add_one hMem]

theorem SlotsTaken.freeSlots (h : SlotsTaken process) : (freeSlots process).card = 0 := by
  refine Finset.card_eq_zero.mpr (Finset.filter_eq_empty_iff.mpr fun i hi => ?_)
  exact h i (Finset.mem_range.mp hi)

/-- The blocks that are taken are missing afterwards, and no others. -/
theorem FreeBlocks.card_mark (h : FreeBlocks heap b n) :
    (freeBlocks (heapMarkBlocksTaken heap b n)).card + n = (freeBlocks heap).card := by
  rcases Nat.eq_zero_or_pos n with rfl | hn
  · rfl
  obtain ⟨hLow, hHigh⟩ := h.inside
  let run := (Finset.range n).image fun i : Nat => b.toNat + i
  have hRun : run.card = n := by
    rw [Finset.card_image_of_injective _ fun i j hSame => Nat.add_left_cancel hSame,
      Finset.card_range]
  have hAll : freeBlocks heap = freeBlocks (heapMarkBlocksTaken heap b n) ∪ run := by
    ext c
    rw [Finset.mem_union, freeBlocks, freeBlocks, Finset.mem_filter, Finset.mem_filter,
      Finset.mem_image, heapMarkBlocksTaken_total]
    constructor
    · rintro ⟨hIn, hFree⟩
      by_cases hTaken : b ≤ c ∧ c < b + n
      · exact Or.inr ⟨c - b.toNat, Finset.mem_range.mpr (by omega), by omega⟩
      · rw [heapMarkBlocksTaken_entries_outside heap (by omega)]
        exact Or.inl ⟨hIn, hFree⟩
    · rintro (⟨hIn, hFree⟩ | ⟨i, hi, rfl⟩)
      · refine ⟨hIn, ?_⟩
        by_contra hTaken
        have hMarked := heapMarkBlocksTaken_taken heap b n ((Bool.not_eq_false _).mp hTaken)
        rw [hFree] at hMarked
        cases hMarked
      · have hIndex := Finset.mem_range.mp hi
        exact ⟨Finset.mem_range.mpr (by omega), h.free _ (by omega) (by omega)⟩
  have hDisjoint : Disjoint (freeBlocks (heapMarkBlocksTaken heap b n)) run := by
    rw [Finset.disjoint_right]
    intro c hc hFree
    obtain ⟨i, hi, rfl⟩ := Finset.mem_image.mp hc
    have hIndex := Finset.mem_range.mp hi
    have hTaken := ((heapMarkBlocksTaken_markedRun heap b hn).2 (b.toNat + i : Nat) (by omega)
      (by omega)).1
    rw [(Finset.mem_filter.mp hFree).2] at hTaken
    cases hTaken
  rw [hAll, Finset.card_union_of_disjoint hDisjoint, hRun]

/-- An allocated page is none of the free ones. -/
theorem FreeBlocks.apart_held (hHeap : KernelHeap heap) (h : FreeBlocks heap b n) (hn : 1 ≤ n)
    (hHeld : Held heap q) :
    q + 4096 ≤ heapBlockToAddress heap b ∨ heapBlockToAddress heap b + 4096 * n ≤ q := by
  obtain ⟨c, hc, rfl, hTaken⟩ := hHeld
  have hAddress := h.address hHeap hn
  have hHeldAddress := hHeap.address hc
  by_contra hIn
  rw [h.free c (by omega) (by omega)] at hTaken
  cases hTaken

theorem Held.mark (h : Held heap q) (b : Int) (n : Nat) :
    Held (heapMarkBlocksTaken heap b n) q := by
  obtain ⟨c, ⟨hLow, hHigh⟩, hAddress, hTaken⟩ := h
  refine ⟨c, ⟨hLow, ?_⟩, hAddress, heapMarkBlocksTaken_taken heap b n hTaken⟩
  rwa [heapMarkBlocksTaken_total]

/-- The pages of the blocks that have been taken are allocated. -/
theorem FreeBlocks.mark_held (hHeap : KernelHeap heap) (h : FreeBlocks heap b n) (hn : 1 ≤ n)
    (hLow : heapBlockToAddress heap b ≤ x) (hHigh : x < heapBlockToAddress heap b + 4096 * n) :
    Held (heapMarkBlocksTaken heap b n) (x / 4096 * 4096) := by
  obtain ⟨hPage, _, _, hAddress⟩ := h.address hHeap hn
  obtain ⟨hFrom, hTo⟩ := h.inside
  obtain ⟨c, hc⟩ : ∃ c : Nat, c = (x - heapBlockToAddress heap b) / 4096 := ⟨_, rfl⟩
  have hBlock : InHeap heap (b + c) := ⟨by omega, by omega⟩
  have hOwn := hHeap.address hBlock
  refine ⟨b + c, ⟨hBlock.1, ?_⟩, ?_, ?_⟩
  · rw [heapMarkBlocksTaken_total]
    exact hBlock.2
  · change _ = heapBlockToAddress heap (b + c)
    omega
  · exact ((heapMarkBlocksTaken_markedRun heap b hn).2 (b + c) (by omega) (by omega)).1

/-- The entries say which pages are allocated. -/
theorem Held.congr {heap' : Heap} (h : Held heap q) (hSaddr : heap'.saddr = heap.saddr)
    (hTotal : heap'.table.total = heap.table.total)
    (hEntries : heap'.table.entries = heap.table.entries) : Held heap' q := by
  obtain ⟨c, hc, hAddress, hTaken⟩ := h
  refine ⟨c, ?_, ?_, ?_⟩
  · rwa [InHeap, hTotal]
  · rwa [heapBlockToAddress, hSaddr]
  · rwa [hEntries]

/-- The directory of a task after a change of the heap, and of pages that are not its own. -/
theorem TaskSpace.changed {k' : KernelMemory} {directory : Nat} {m : PageMap}
    (h : TaskSpace k directory table) (hSaddr : k'.heap.saddr = k.heap.saddr)
    (hTotal : k'.heap.table.total = k.heap.table.total) (hClear : FreeClear k'.heap)
    (hHeld : ∀ q, Held k.heap q → Held k'.heap q) (hTables : PageTables k'.mem directory table)
    (hPages : Remapped k.mem k'.mem directory m) : TaskSpace k' directory table where
  heap := ⟨hSaddr.trans h.heap.saddr, hTotal.trans h.heap.total⟩
  clear := hClear
  tables := hTables
  held := ⟨hHeld _ h.held.1, fun d hd => hHeld _ (h.held.2 d hd)⟩
  present d hd := by
    rw [hPages.pointers d hd]
    exact h.present d hd

theorem TaskSpace.processMalloc (h : TaskSpace k process.directory table) (hSize : 1 ≤ size)
    (hLt : size < 4294967296) (hFits : RequestFits k.heap.table size) :
    ∃ ptr k' process', processMalloc k process size = (ptr, k', process') ∧
      Requested k k' process process' table ptr size := by
  by_cases hRun : HasRun k.heap size
  case neg =>
    have hNone := (kzalloc_of_fits k hLt hFits).resolve_right fun hSome => hRun hSome.2
    refine ⟨0, k, process, by simp only [LiebeOS.processMalloc, hNone]; rfl, ?_⟩
    exact ⟨rfl, h, Kept.refl _ _ _, Or.inl rfl, fun _ h => absurd h hRun⟩
  obtain ⟨b, hBlocks, hGrant⟩ := kzalloc_of_run h.heap hSize hRun
  have hOne := blocksOf_pos size
  have hCovers := blocksOf_covers size
  have hTotal := heapMarkBlocksTaken_total k.heap b (blocksOf size)
  obtain ⟨hPage, hLow, hEnd, hAddress⟩ := hBlocks.address h.heap hOne
  obtain ⟨hTables, hCleared⟩ := h.held.remapped h.heap h.tables hBlocks hOne hCovers fun _ => 0
  have hBytes : ∀ x < 4294967296, Lasting k process.directory table x →
      storeRange k.mem (heapBlockToAddress k.heap b) size (fun _ => 0) x = k.mem x :=
    fun x hx hLasting => by
      rcases hLasting with hData | hOutside
      · exact hBlocks.storeRange_held h.heap hOne hCovers hData.held hx rfl k.mem _
      · refine storeRange_outside ?_
        unfold OutsideHeap at hOutside
        unfold offsetFrom toWord
        omega
  have hClear : FreeClear (heapMarkBlocksTaken k.heap b (blocksOf size)) := by
    have hMalloc := h.clear.malloc size
    rwa [← kzalloc_heap, hGrant] at hMalloc
  rcases processMalloc_of_grant h.toAddressSpace hSize hBlocks hGrant with
    ⟨hTaken, hRequest⟩ | ⟨i, mem', hi, hEmpty, hRequest, hOnly, hPages⟩
  · have hEntries := heapFree_of_run h.heap h.clear hBlocks hOne
    have hShape := heapFree_shape (heapMarkBlocksTaken k.heap b (blocksOf size))
      (heapBlockToAddress k.heap b)
    have hHeld := fun q (hq : Held k.heap q) => hq.congr hShape.1 (hShape.2.trans hTotal) hEntries
    refine ⟨0, _, process, hRequest, rfl, h.changed hShape.1 (hShape.2.trans hTotal)
      (hClear.free _) hHeld hTables hCleared, ⟨hHeld, hBytes, fun v hv hAligned _ =>
      hCleared.entries v hv hAligned⟩, Or.inl rfl, fun hSome _ => ?_⟩
    rw [hTaken.freeSlots] at hSome
    exact absurd hSome (Nat.lt_irrefl 0)
  · have hNew : ∀ x, heapBlockToAddress k.heap b ≤ x → x < heapBlockToAddress k.heap b + size →
        ¬ Held k.heap (x / 4096 * 4096) := fun x hFrom hTo hHeld => by
      have hApart := hBlocks.apart_held h.heap hOne hHeld
      omega
    have hData : ∀ x, heapBlockToAddress k.heap b ≤ x → x < heapBlockToAddress k.heap b + size →
        DataPage ⟨heapMarkBlocksTaken k.heap b (blocksOf size), mem'⟩ process.directory table
          (x / 4096 * 4096) := fun x hFrom hTo =>
      { held := hBlocks.mark_held h.heap hOne hFrom (by omega)
        directory := fun hSame => hNew x hFrom hTo (by rw [hSame]; exact h.held.1)
        tables := fun d hd hSame => hNew x hFrom hTo (by rw [hSame]; exact h.held.2 d hd) }
    have hSpace : TaskSpace ⟨heapMarkBlocksTaken k.heap b (blocksOf size), mem'⟩
        process.directory table := h.changed rfl hTotal hClear (fun q hq => hq.mark b _)
      (hTables.of_tablesOnly hOnly) hPages
    refine ⟨_, _, _, hRequest, rfl, hSpace,
      ⟨fun q hq => hq.mark b _, fun x hx hOld => ?_, fun v hv hAligned hq => ?_⟩,
      Or.inr ⟨⟨⟨by omega, hPage, by omega⟩, hNew, fun x hFrom hTo => ?_, fun x hFrom hTo => ?_⟩,
        hRun, freeSlots_fill hi hEmpty (by omega) size, hBlocks.card_mark⟩, fun _ _ => by omega⟩
    · exact (hOnly x hx (hOld.notInTables h)).trans (hBytes x hx hOld)
    · refine (hPages.entries v hv hAligned).trans (if_neg fun hIn => ?_)
      rcases hq with hHeld | hBeside
      · have hApart := hBlocks.apart_held h.heap hOne hHeld
        omega
      · omega
    · refine ⟨hData x hFrom hTo, (hPages.entries _ (by omega) (by omega)).trans ?_⟩
      exact if_pos (by omega)
    · refine (hOnly x (by omega) (hData x hFrom hTo).notInTables).trans ?_
      refine if_pos ?_
      unfold offsetFrom toWord
      omega

end Malloc

section Copies

variable {start k k' : KernelMemory} {process : ProcessMemory} {directory : Nat}
  {table : Nat → Nat} {argv n i node q current : Nat} {done nodes : List Nat} {source : Memory}

theorem ArgumentPassed.kept (h : ArgumentPassed start k directory table argv n i node)
    (hShown : ∀ x, Shown k directory table x → Shown k' directory table x)
    (hPointer : ∀ j < 4, k'.mem (argv + 4 * i + j) = k.mem (argv + 4 * i + j))
    (hSame : ∀ x, Shown k directory table x → x < argv ∨ argv + 4 * n ≤ x →
      ¬ Held start.heap (x / 4096 * 4096) → k'.mem x = k.mem x) :
    ArgumentPassed start k' directory table argv n i node := by
  obtain ⟨q, m, out, hLow, hEnd, hWord, hCopied, hBytes⟩ := h
  refine ⟨q, m, out, hLow, hEnd, fun j hj => ⟨hShown _ (hWord j hj).1, ?_⟩, hCopied,
    fun j hj => ?_⟩
  · rw [hPointer j hj]
    exact (hWord j hj).2
  · obtain ⟨hPage, hByte, hApart, hNew⟩ := hBytes j hj
    refine ⟨hShown _ hPage, ?_, hApart, hNew⟩
    rw [hSame _ hPage hApart hNew]
    exact hByte

/-- Bytes that are handed out are bytes of the heap. -/
theorem HandedOut.inHeap {size x : Nat} (h : HandedOut k k' directory table q size)
    (hHeap : KernelHeap k'.heap) (hLow : q ≤ x) (hHigh : x < q + size) : ¬ OutsideHeap x :=
  fun hOutside => hOutside.notHeld hHeap (h.shown x hLow hHigh).page.held

/-- What lasts is not handed out. -/
theorem HandedOut.apart {size x : Nat} (h : HandedOut k k' directory table q size)
    (hHeap : KernelHeap k'.heap) (hx : Lasting k directory table x) : x < q ∨ q + size ≤ x := by
  by_contra hIn
  rcases hx with hPage | hOutside
  · exact h.new x (by omega) (by omega) hPage.held
  · exact h.inHeap hHeap (by omega) (by omega) hOutside

/-- A string that was there before is copied to bytes that are new. -/
theorem HandedOut.strncpy (h : HandedOut k k' directory table q sizeOfArgument)
    (hHeap : KernelHeap k'.heap)
    (hSource : ∀ j < sizeOfArgument, Lasting k directory table (behind node j) ∧
      k'.mem (behind node j) = source (behind node j)) :
    ∃ s m, kernelStrncpy identityTranslation q node sizeOfArgument ⟨k'.mem, []⟩ = some s ∧
      SameOutside q sizeOfArgument k'.mem s.mem ∧
      StringCopied (fun j => some (source (behind node j))) sizeOfArgument
        (fun j => s.mem (q + j)) m := by
  obtain ⟨_, _, hEnd⟩ := h.address
  have hSize : sizeOfArgument = 512 := rfl
  have hStable : StableSource identityTranslation k'.mem node q sizeOfArgument :=
    stableSource_identity k'.mem fun i hi => by
      have hApart := h.apart hHeap (hSource i (by omega)).1
      omega
  rcases @kernelStrncpy_copies _ ⟨k'.mem, []⟩ _ _ _ _ (sizeOfArgument : Int)
      (reaches_identity k'.mem (by omega)) hStable rfl (by decide) with
    ⟨_, j, _, hMissing⟩ | ⟨s, m, hRun, hWrote, hCopied⟩
  · rw [identityTranslation_load] at hMissing
    cases hMissing
  · have hInside := hCopied.inside
    refine ⟨s, m, hRun, hWrote.outside.mono (by omega), hCopied.congr fun j hj => ?_⟩
    have hLess := hj.1
    exact (congrArg some (hSource j (by omega)).2).symm

/-- One more argument. -/
theorem Passing.snoc (h : Passing start k process.directory table argv n done)
    (hNode : ∀ j < 516, Lasting start process.directory table (behind node j))
    (hMore : done.length < n) :
    ∃ q k' process', processMalloc k process sizeOfArgument = (q, k', process') ∧
      Requested k k' process process' table q sizeOfArgument ∧ (q ≠ 0 → ∃ s,
        kernelStrncpy identityTranslation q node sizeOfArgument ⟨k'.mem, []⟩ = some s ∧
        Passing start { k' with mem := storeWord s.mem (behind argv (4 * done.length)) q }
          process.directory table argv n (done ++ [node])) := by
  have hSize : sizeOfArgument = 512 := rfl
  obtain ⟨q, k', process', hRequest, hRequested⟩ := h.space.processMalloc
    (show 1 ≤ sizeOfArgument by decide) (by decide) (requestFits_one k.heap (by decide) (by decide))
  refine ⟨q, k', process', hRequest, hRequested, fun hNull => ?_⟩
  obtain ⟨hOut, _⟩ := hRequested.answer.resolve_left hNull
  have hSpace := hRequested.space
  have hKept := hRequested.kept
  have hAll := h.kept.trans hKept
  have hSource : ∀ j < sizeOfArgument, Lasting k process.directory table (behind node j) ∧
      k'.mem (behind node j) = start.mem (behind node j) := fun j hj =>
    ⟨(hNode j (by omega)).kept h.kept, hAll.bytes _ (behind_lt _ _) (hNode j (by omega))⟩
  obtain ⟨s, m, hRun, hOutside, hCopied⟩ := hOut.strncpy hSpace.heap hSource
  obtain ⟨_, _, hEnd⟩ := hOut.address
  obtain ⟨hArgv, hLast⟩ := h.address
  have hPointers := fun x hFrom hTo => (h.pointers x hFrom hTo).1.kept h.space.heap hKept
  -- what the two stores have written, and that they have written nothing else
  have hSlot : behind argv (4 * done.length) = argv + 4 * done.length := behind_of_lt (by omega)
  have hApart : ∀ x, (x < argv + 4 * done.length ∨ argv + 4 * done.length + 4 ≤ x) →
      x < 4294967296 → storeWord s.mem (behind argv (4 * done.length)) q x = s.mem x :=
    fun x hx hLt => by
      rw [hSlot]
      exact storeWord_apart (by omega) hLt hx
  have hSame : ∀ x, x < 4294967296 → (x < q ∨ q + sizeOfArgument ≤ x) →
      (x < argv + 4 * done.length ∨ argv + 4 * done.length + 4 ≤ x) →
      storeWord s.mem (behind argv (4 * done.length)) q x = k'.mem x := fun x hLt hOther hx =>
    (hApart x hx hLt).trans (hOutside x hOther)
  obtain ⟨hSpace', hMaps⟩ := hSpace.stored
     fun x hx (hChanged : storeWord s.mem (behind argv (4 * done.length)) q x ≠ k'.mem x) => by
      by_cases hCopy : q ≤ x ∧ x < q + sizeOfArgument
      · exact (hOut.shown x hCopy.1 hCopy.2).page
      · by_cases hIn : argv ≤ x ∧ x < argv + 4 * n
        · exact (hPointers x hIn.1 hIn.2).page
        · exact absurd (hSame x hx (by omega) (by omega)) hChanged
  have hShown := fun x (hx : Shown k' process.directory table x) => hx.stored hSpace hMaps
  have hOld : ∀ x, Lasting k process.directory table x → x < q ∨ q + sizeOfArgument ≤ x :=
    fun x hx => hOut.apart hSpace.heap hx
  refine ⟨s, hRun, hSpace', ⟨hAll.held, fun x hx hData => ?_, fun v hv hAligned hSettled => ?_⟩,
    h.address, fun x hFrom hTo => ⟨hShown x (hPointers x hFrom hTo), (h.pointers x hFrom hTo).2⟩,
    fun i other hOther => ?_⟩
  · refine (hSame x hx (hOld x (hData.kept h.kept)) ?_).trans (hAll.bytes x hx hData)
    by_contra hIn
    obtain ⟨hPointer, hNew⟩ := h.pointers x (by omega) (by omega)
    rcases hData with hPage | hOther
    · exact hNew hPage.held
    · exact hOther.notHeld h.space.heap hPointer.page.held
  · exact (hMaps.entries v hv hAligned).trans (hAll.entries v hv hAligned hSettled)
  · have hKeptByte : ∀ x, Shown k process.directory table x →
        (x < argv + 4 * done.length ∨ argv + 4 * done.length + 4 ≤ x) →
        storeWord s.mem (behind argv (4 * done.length)) q x = k.mem x := fun x hx hApart =>
      (hSame x (hx.lt h.space.heap) (hOld x (Or.inl hx.page)) hApart).trans
        (hKept.bytes x (hx.lt h.space.heap) (Or.inl hx.page))
    by_cases hBefore : i < done.length
    · rw [List.getElem?_append_left hBefore] at hOther
      exact (h.passed i other hOther).kept (fun x hx => hShown x (hx.kept h.space.heap hKept))
        (fun j hj => hKeptByte _ (h.pointers _ (by omega) (by omega)).1 (by omega))
        fun x hx hBeside _ => hKeptByte x hx (by omega)
    · obtain ⟨rfl, rfl⟩ : i = done.length ∧ other = node := by
        rw [List.getElem?_append_right (by omega)] at hOther
        obtain ⟨hIndex, hValue⟩ := List.getElem?_eq_some_iff.mp hOther
        rw [List.length_singleton] at hIndex
        refine ⟨by omega, ?_⟩
        rw [← hValue, List.getElem_singleton]
      have hInside := hCopied.inside
      refine ⟨q, m, _, by omega, by omega, fun j hj =>
        ⟨hShown _ (hPointers _ (by omega) (by omega)), ?_⟩, hCopied, fun j hj => ?_⟩
      · change storeWord s.mem (behind argv (4 * done.length)) q _ = _
        rw [hSlot]
        exact storeWord_at (by omega) hj
      have hBeside : q + j < argv ∨ argv + 4 * n ≤ q + j := by
        by_contra hIn
        exact hOut.new (q + j) (by omega) (by omega)
          (h.pointers (q + j) (by omega) (by omega)).1.page.held
      exact ⟨hShown _ (hOut.shown _ (by omega) (by omega)), hApart _ (by omega) (by omega), hBeside,
        fun hHeld => hOut.new (q + j) (by omega) (by omega) (h.kept.held _ hHeld)⟩

theorem HasFree.hasRun {size : Nat} {heap : Heap} (h : HasFree heap) (hSize : 1 ≤ size)
    (hPage : size ≤ 4096) : HasRun heap size := by
  obtain ⟨b, ⟨hLow, hHigh⟩, hFree⟩ := h
  have hOne : blocksOf size = 1 := by
    unfold blocksOf
    omega
  refine ⟨b, hLow, by omega, fun j hFrom hTo => ?_⟩
  rwa [show j = b by omega]

/-- The loop over the arguments that are left. -/
theorem Passing.loop (h : Passing start k process.directory table argv n done)
    (hList : ArgumentList start.mem current nodes)
    (hNodes : ∀ node ∈ nodes, ∀ j < 516, Lasting start process.directory table (behind node j))
    (hAll : done.length + nodes.length = n) {fuel : Nat}
    (hFuel : (freeSlots process).card < fuel) :
    ∃ res k' process', processInjectLoop argv fuel done.length current k process =
        .returned (res, k', process') ∧ process'.directory = process.directory ∧
      TaskSpace k' process.directory table ∧ Kept process.directory table start k' ∧
      (res = 0 ↔ nodes.length ≤ (freeSlots process).card ∧
        nodes.length ≤ (freeBlocks k.heap).card) ∧
      (res = -enomem ∨ res = 0 ∧
        Passing start k' process.directory table argv n (done ++ nodes)) := by
  obtain ⟨fuel, rfl⟩ := Nat.exists_eq_succ_of_ne_zero (Nat.ne_of_gt (Nat.zero_lt_of_lt hFuel))
  induction nodes generalizing current done k process fuel with
  | nil =>
      cases hList
      refine ⟨0, k, process, rfl, rfl, h.space, h.kept,
        iff_of_true rfl ⟨Nat.zero_le _, Nat.zero_le _⟩, Or.inr ⟨rfl, ?_⟩⟩
      rwa [List.append_nil]
  | cons node nodes ih =>
      obtain ⟨hNode, hRest⟩ : current = node ∧ current ≠ 0 ∧
          ArgumentList start.mem (commandArgumentNext start.mem current) nodes := by
        cases hList with
        | cons hNode hRest => exact ⟨rfl, hNode, hRest⟩
      subst hNode
      obtain ⟨hNode, hRest⟩ := hRest
      have hFirst := hNodes current List.mem_cons_self
      rw [List.length_cons] at hAll ⊢
      obtain ⟨q, k', process', hRequest, hRequested, hPassed⟩ := h.snoc hFirst (by omega)
      have hOne : blocksOf sizeOfArgument = 1 := by decide
      rw [processInjectLoop, if_neg hNode, hRequest]
      dsimp only
      by_cases hNull : q = 0
      · refine ⟨-enomem, k', process', by rw [if_pos hNull], hRequested.directory,
          hRequested.space, h.kept.trans hRequested.kept,
          iff_of_false (by decide) fun hRoom => ?_, Or.inl rfl⟩
        refine absurd hNull (hRequested.granted (by omega) ?_)
        exact (hasFree_of_card (by omega)).hasRun (by decide) (by decide)
      obtain ⟨s, hRun, hNext⟩ := hPassed hNull
      have hLink : commandArgumentNext (storeWord s.mem (behind argv (4 * done.length)) q) current =
          commandArgumentNext start.mem current := loadWord_congr fun j hj => by
        rw [behind_behind]
        exact hNext.kept.bytes _ (behind_lt _ _) (hFirst _ (by
          have hSize : sizeOfArgument = 512 := rfl
          omega))
      obtain ⟨_, _, hSlots, hBlocks⟩ := hRequested.answer.resolve_left hNull
      rw [← hRequested.directory] at hNext hNodes ⊢
      rw [if_neg hNull, hRun]
      dsimp only
      have hLength : (done ++ [current]).length = done.length + 1 := by
        rw [List.length_append, List.length_singleton]
      rw [hLink, ← hLength]
      obtain ⟨fuel, rfl⟩ := Nat.exists_eq_succ_of_ne_zero (show fuel ≠ 0 by omega)
      obtain ⟨res, fin, last, hLoop, hDirectory, hSpace, hKept, hEnough, hEnd⟩ := ih hNext hRest
        (fun other hOther => hNodes other (List.mem_cons_of_mem current hOther))
        (by omega) fuel (by omega)
      refine ⟨res, fin, last, hLoop, hDirectory, hSpace, hKept, hEnough.trans ?_, ?_⟩
      · change nodes.length ≤ (freeSlots process').card ∧ nodes.length ≤ (freeBlocks k'.heap).card ↔ _
        omega
      · rwa [List.append_assoc, List.singleton_append] at hEnd

theorem NodeHeld.lt (h : NodeHeld k directory table node) (hHeap : KernelHeap k.heap) {j : Nat}
    (hj : j < 516) : node + j < 0x07400000 := by
  have hPage := (h j hj).held.page hHeap
  omega

/-- The program asks for its arguments. -/
theorem Passing.found {p : ArgumentsProcess} {arguments x : Nat}
    (h : Passing start k p.process.directory table p.argv nodes.length nodes)
    (hNumber : p.argc = nodes.length) (hStart : TaskSpace start p.process.directory table)
    (hBuffer : TaskBuffer start p.process.directory table arguments x 8) :
    ArgumentsFound start.mem (isr80hCommand8GetProgramArguments k p arguments).mem
      p.process.directory arguments p.argv nodes := by
  obtain ⟨_, hEnd⟩ := h.address
  have hHere := hBuffer.kept h.kept hStart h.space
  have hInside := hBuffer.inside
  have hLast := (hHere.page 7 (by decide)).held.page h.space.heap
  have hPhysical : pagingGetPhysicalAddress k.mem p.process.directory arguments = x := by
    have hFirst := hHere.reached 0 (by decide)
    rw [behind_of_lt (by omega), Nat.add_zero, Nat.add_zero, pageTranslation] at hFirst
    split_ifs at hFirst
    exact Option.some.inj hFirst
  have hNumberWord : toWord (nodes.length : Int) = nodes.length := by
    unfold toWord
    omega
  have hMem : (isr80hCommand8GetProgramArguments k p arguments).mem =
      storeWord (storeWord k.mem x nodes.length) (x + 4) p.argv := by
    rw [isr80hCommand8GetProgramArguments, hPhysical, hNumber, hNumberWord, behind_of_lt (by omega)]
  obtain ⟨mem, hFinal⟩ : ∃ mem, mem = storeWord (storeWord k.mem x nodes.length) (x + 4) p.argv :=
    ⟨_, rfl⟩
  rw [hMem, ← hFinal]
  have hOutside : ∀ y, y < 4294967296 → y < x ∨ x + 8 ≤ y → mem y = k.mem y := fun y hy hApart => by
    rw [hFinal, storeWord_apart (by omega) hy (by omega), storeWord_apart (by omega) hy (by omega)]
  have hFirstWord : ∀ j < 4, mem (x + j) = wordByte nodes.length j := fun j hj => by
    rw [hFinal, storeWord_apart (by omega) (by omega) (by omega), storeWord_at (by omega) hj]
  have hSecondWord : ∀ j < 4, mem (x + (4 + j)) = wordByte p.argv j := fun j hj => by
    rw [hFinal, ← Nat.add_assoc, storeWord_at (by omega) hj]
  obtain ⟨hSpace, hMaps⟩ := h.space.stored fun y hy (hChanged : mem y ≠ k.mem y) => by
    by_cases hIn : x ≤ y ∧ y < x + 8
    · have hPage := hHere.page (y - x) (by omega)
      rwa [show x + (y - x) = y by omega] at hPage
    · exact absurd (hOutside y hy (by omega)) hChanged
  have hNew : ∀ y, y < 4294967296 → ¬ Held start.heap (y / 4096 * 4096) → mem y = k.mem y :=
    fun y hy hFresh => hOutside y hy <| by
      by_contra hIn
      have hPage := hBuffer.page (y - x) (by omega)
      rw [show x + (y - x) = y by omega] at hPage
      exact hFresh hPage.held
  have hRead : ∀ j < 8, taskByte mem p.process.directory arguments j = some (mem (x + j)) :=
    fun j hj => by
      rw [taskByte, Translation.load, hMaps.translation (behind_lt _ _), hHere.reached j hj]
      rfl
  have hKept : ∀ i node, nodes[i]? = some node → ArgumentPassed start { k with mem := mem }
      p.process.directory table p.argv nodes.length i node := fun i node hNode => by
    obtain ⟨hIndex, _⟩ := List.getElem?_eq_some_iff.mp hNode
    exact (h.passed i node hNode).kept (fun y hy => hy.stored h.space hMaps)
      (fun j hj => hNew _ (by omega) (h.pointers _ (by omega) (by omega)).2)
      fun y hy _ hFresh => hNew y (hy.lt h.space.heap) hFresh
  refine ⟨fun j hj => ?_, fun j hj => ?_, fun i node hNode => ?_⟩
  · rw [hRead j (by omega), hFirstWord j hj]
  · rw [hRead (4 + j) (by omega), hSecondWord j hj]
  · obtain ⟨hIndex, _⟩ := List.getElem?_eq_some_iff.mp hNode
    obtain ⟨q, m, out, hNull, hWrap, hWord, hCopied, hBytes⟩ := hKept i node hNode
    refine ⟨q, m, out, by omega, fun j hj => ?_, hCopied, fun j hj => ?_⟩
    · rw [taskByte, behind_of_lt (by omega), ← Nat.add_assoc]
      exact ((hWord j hj).1.load hSpace).trans (congrArg some (hWord j hj).2)
    · rw [taskByte, behind_of_lt (by omega)]
      exact ((hBytes j hj).1.load hSpace).trans (congrArg some (hBytes j hj).2.1)

/-- Without arguments the call is refused. -/
theorem processInjectArguments_none (k : KernelMemory) (p : ArgumentsProcess) :
    processInjectArguments k p 0 = .returned (-eio, k, p) := by
  rw [processInjectArguments, processCountCommandArguments, processCountLoop_list ArgumentList.nil 0
    (show 0 < _ by decide)]
  rfl

/-- A list that has a node is passed on as a whole, or there is no room for it. -/
theorem processInjectArguments_passing {p : ArgumentsProcess} {root : Nat}
    (hSpace : TaskSpace k p.process.directory table) (hList : ArgumentList k.mem root nodes)
    (hNodes : ∀ node ∈ nodes, ∀ j < 516, Lasting k p.process.directory table (behind node j))
    (hSome : nodes ≠ []) (hLength : 4 * nodes.length < 4294967296)
    (hFits : RequestFits k.heap.table (4 * nodes.length)) :
    ∃ res k' p', processInjectArguments k p root = .returned (res, k', p') ∧
      TaskSpace k' p.process.directory table ∧ Kept p.process.directory table k k' ∧
      (res = 0 ↔ RoomFor k p.process nodes.length) ∧
      (res = -enomem ∧ p'.argc = p.argc ∧ p'.argv = p.argv ∨
        res = 0 ∧ p'.process.directory = p.process.directory ∧ p'.argc = nodes.length ∧
          Passing k k' p.process.directory table p'.argv nodes.length nodes) := by
  have hPositive := List.length_pos_iff.mpr hSome
  have hCount : processCountCommandArguments k.mem root = .returned nodes.length := by
    rw [processCountCommandArguments, processCountLoop_list hList 0 (by omega), Nat.zero_add]
  have hSize : toWord (4 * (nodes.length : Int)) = 4 * nodes.length := by
    unfold toWord
    omega
  obtain ⟨argv, k', process', hRequest, hRequested⟩ := hSpace.processMalloc
    (show 1 ≤ 4 * nodes.length by omega) hLength hFits
  rw [processInjectArguments, hCount]
  change ∃ res fin p', (if nodes.length = 0 then _ else _) = Attempt.returned (res, fin, p') ∧ _
  rw [if_neg (by omega), hSize, hRequest]
  dsimp only
  by_cases hNull : argv = 0
  · rw [if_pos hNull]
    refine ⟨-enomem, k', _, rfl, hRequested.space, hRequested.kept,
      iff_of_false (by decide) fun hRoom => ?_, Or.inl ⟨rfl, rfl, rfl⟩⟩
    have hSlots := hRoom.slots
    exact absurd hNull (hRequested.granted (by omega) hRoom.pointers)
  obtain ⟨hOut, hRun, hSlots, hBlocks⟩ := hRequested.answer.resolve_left hNull
  obtain ⟨_, _, hEnd⟩ := hOut.address
  have hStart : Passing k k' process'.directory table argv nodes.length [] := by
    rw [hRequested.directory]
    exact
      { space := hRequested.space
        kept := hRequested.kept
        address := ⟨by omega, hEnd⟩
        pointers := fun y hFrom hTo => ⟨hOut.shown y hFrom hTo, hOut.new y hFrom hTo⟩
        passed := fun i node hNode => by simp at hNode }
  have hFuel : (freeSlots process').card < liebeOsMaxProgramAllocations + 1 := by
    have hSub := Finset.card_filter_le (Finset.range liebeOsMaxProgramAllocations)
      fun i => (process'.allocations i).ptr = 0
    rw [Finset.card_range] at hSub
    exact Nat.lt_succ_of_le hSub
  obtain ⟨res, fin, last, hLoop, hDirectory, hLast, hKept, hEnough, hResult⟩ := hStart.loop hList
    (fun node hNode j hj => by
      rw [hRequested.directory]
      exact hNodes node hNode j hj) (Nat.zero_add _) hFuel
  rw [hRequested.directory] at hDirectory hLast hKept hResult
  have hInjected : processInjectLoop argv (liebeOsMaxProgramAllocations + 1) 0 root k' process' =
      .returned (res, fin, last) := hLoop
  rw [if_neg hNull, hInjected]
  refine ⟨res, fin, _, rfl, hLast, hKept, hEnough.trans ⟨fun hRoom => ?_, fun hRoom => ?_⟩, ?_⟩
  · exact ⟨by omega, hRun, by omega⟩
  · have hFree := hRoom.slots
    have hRest := hRoom.blocks
    exact ⟨by omega, by omega⟩
  · rcases hResult with rfl | ⟨rfl, hPassing⟩
    · exact Or.inl ⟨rfl, rfl, rfl⟩
    · exact Or.inr ⟨rfl, hDirectory, rfl, hPassing⟩

/-- The new program is given all arguments of a list, or the call is refused: at once if there
are none, and else exactly when there is no room for them. When the program asks for its
arguments it finds the strings as they were in the caller's list, and nothing that was allocated
before has changed. -/
theorem processInjectArguments_passes {p : ArgumentsProcess} {root arguments x : Nat}
    (hSpace : TaskSpace k p.process.directory table) (hList : ArgumentList k.mem root nodes)
    (hNodes : ∀ node ∈ nodes, NodeHeld k p.process.directory table node)
    (hBuffer : TaskBuffer k p.process.directory table arguments x 8) :
    (nodes = [] → processInjectArguments k p root = .returned (-eio, k, p)) ∧
    (nodes ≠ [] → RequestFits k.heap.table (4 * nodes.length) →
      ∃ res k' p', processInjectArguments k p root = .returned (res, k', p') ∧
        TaskSpace k' p.process.directory table ∧ Kept p.process.directory table k k' ∧
        (res = 0 ↔ RoomFor k p.process nodes.length) ∧
        (res = -enomem ∧ p'.argc = p.argc ∧ p'.argv = p.argv ∨
          res = 0 ∧ p'.process.directory = p.process.directory ∧
            ArgumentsFound k.mem (isr80hCommand8GetProgramArguments k' p' arguments).mem
              p.process.directory arguments p'.argv nodes)) := by
  constructor
  · rintro rfl
    cases hList
    exact processInjectArguments_none k p
  intro hSome hFits
  have hHeap := hSpace.heap
  have hLength : nodes.length ≤ 0x07400000 := hList.length_le fun node hNode =>
    (hNodes node hNode).lt hHeap (show 0 < 516 by decide)
  obtain ⟨res, k', p', hCall, hSpace', hKept, hRoom, hEnd⟩ := processInjectArguments_passing hSpace
    hList (fun node hNode j hj => by
      have hLt := (hNodes node hNode).lt hHeap hj
      rw [behind_of_lt (by omega)]
      exact Or.inl (hNodes node hNode j hj)) hSome (by omega) hFits
  refine ⟨res, k', p', hCall, hSpace', hKept, hRoom, hEnd.imp id fun hPassed => ?_⟩
  obtain ⟨hRes, hDirectory, hNumber, hPassing⟩ := hPassed
  refine ⟨hRes, hDirectory, ?_⟩
  rw [← hDirectory] at hPassing hSpace hBuffer ⊢
  exact hPassing.found hNumber hSpace hBuffer

/-! ### One argument of one letter -/

/-- The first task with one more block, which has the list of one node with the text `a`. -/
def oneArgument : KernelMemory where
  heap := heapMarkBlocksTaken firstTask.heap 1025 1
  mem x := if x < 0x01401000 then firstTask.mem x else if x = 0x01401000 then 0x61 else 0

theorem oneArgument_free {b : Int} (hLow : 1026 ≤ b) :
    oneArgument.heap.table.entries b = 0 := by
  refine (heapMarkBlocksTaken_one firstTask.heap 1025 b).trans ?_
  rw [if_neg (by omega)]
  exact if_neg (by omega)

theorem oneArgument_data {x : Nat} (hLow : 0x01401000 ≤ x) (hHigh : x < 0x01402000) :
    DataPage oneArgument 0x01000000 (fun d => 0x01001000 + 4096 * d) (x / 4096 * 4096) := by
  have hFree : FreeBlocks firstTask.heap 1025 1 := ⟨by decide, fun j hFrom hTo => by
    have hEntry : firstTask.heap.table.entries j = 0 := if_neg (by omega)
    rw [hEntry]
    rfl⟩
  have hBlock : heapBlockToAddress firstTask.heap 1025 = 0x01401000 := by decide
  exact ⟨hFree.mark_held firstTask_space.heap (Nat.le_refl 1) (by omega) (by omega), by omega,
    fun d hd => by omega⟩

theorem oneArgument_space :
    TaskSpace oneArgument 0x01000000 fun d => 0x01001000 + 4096 * d := by
  have hFirst : TaskSpace firstTask 0x01000000 fun d => 0x01001000 + 4096 * d :=
    { toAddressSpace := firstTask_space
      present := fun d hd => by
        rw [firstTask_pointer hd]
        omega }
  obtain ⟨hTables, hPages⟩ := @PageTables.remapped firstTask.mem oneArgument.mem _ _
    firstTask_space.tables fun x _ hIn => by
      refine if_pos ?_
      rcases hIn with hDirectory | ⟨d, hd, hTable⟩
      · omega
      · dsimp only at hTable
        omega
  refine hFirst.changed rfl (heapMarkBlocksTaken_total ..) (fun b hb hFree => ?_)
    (fun q hq => hq.mark 1025 1) hTables hPages
  have hEntry := heapMarkBlocksTaken_one firstTask.heap 1025 b
  by_cases hSame : b = 1025
  · rw [if_pos hSame] at hEntry
    rw [show oneArgument.heap.table.entries b = onePageEntry from hEntry] at hFree
    exact absurd hFree (by decide)
  · rw [if_neg hSame] at hEntry
    rw [show oneArgument.heap.table.entries b = _ from hEntry] at hFree ⊢
    exact firstTask_space.clear b hb hFree

theorem processInjectArguments_passes_letter :
    ∃ k' p', processInjectArguments oneArgument ⟨⟨0x01000000, fun _ => ⟨0, 0⟩⟩, 0, 0⟩ 0x01401000 =
        .returned (0, k', p') ∧
      ArgumentsFound oneArgument.mem (isr80hCommand8GetProgramArguments k' p' 0x300).mem
        0x01000000 0x300 p'.argv [0x01401000] := by
  have hList : ArgumentList oneArgument.mem 0x01401000 [0x01401000] := by
    refine ArgumentList.cons (by decide) ?_
    rw [show commandArgumentNext oneArgument.mem 0x01401000 = 0 by decide]
    exact ArgumentList.nil
  have hBuffer : TaskBuffer oneArgument 0x01000000 (fun d => 0x01001000 + 4096 * d) 0x300
      0x01401300 8 :=
    { inside := by decide
      reached := by decide
      settled := fun j hj => by
        rw [behind_of_lt (by omega)]
        exact Or.inr (Or.inl (by omega))
      page := fun j hj => oneArgument_data (by omega) (by omega) }
  have hFree : HasFree oneArgument.heap :=
    ⟨1026, ⟨by decide, by decide⟩, by rw [oneArgument_free (Int.le_refl _)]; rfl⟩
  obtain ⟨_, hPasses⟩ := @processInjectArguments_passes oneArgument _ [0x01401000]
    ⟨⟨0x01000000, fun _ => ⟨0, 0⟩⟩, 0, 0⟩ 0x01401000 0x300 0x01401300 oneArgument_space hList
    (List.forall_mem_singleton.mpr fun j hj => oneArgument_data (by omega) (by omega)) hBuffer
  obtain ⟨res, k', p', hReturned, _, _, hEnough, hResult⟩ := hPasses (List.cons_ne_nil _ _)
    (requestFits_one oneArgument.heap (by decide) (by decide))
  obtain rfl : res = 0 := hEnough.mpr
    { slots := by
        have hAll : freeSlots ⟨0x01000000, fun _ => ⟨0, 0⟩⟩ = Finset.range 1024 :=
          Finset.filter_true_of_mem fun _ _ => rfl
        rw [hAll, Finset.card_range]
        decide
      pointers := hFree.hasRun (by decide) (by decide)
      blocks := by
        refine FreeRun.card (b := 1026) (by decide) (by decide) fun j hFrom _ => ?_
        rw [oneArgument_free hFrom]
        rfl }
  obtain ⟨hError, _⟩ | ⟨_, _, hFound⟩ := hResult
  · exact absurd hError (by decide)
  · exact ⟨k', p', hReturned, hFound⟩

end Copies

end LiebeOS
