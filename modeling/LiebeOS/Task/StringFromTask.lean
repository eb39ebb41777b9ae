import LiebeOS.Kernel.Strings
import LiebeOS.Memory.BlockRequest

/-! Strings of a task. `copy_string_from_task` maps a scratch page of the kernel
into the task, copies the string to it under the directory of the task, restores
the entry of the page and copies on from there. -/
namespace LiebeOS

open MachineInt Bytes

/-- The kernel's memory and the directory in `cr3`. `kernelDirectory` is the one
that `kernel_page` loads. -/
structure Machine where
  kernel : KernelMemory
  kernelDirectory : Nat
  loaded : Nat

def pageSwitch (m : Machine) (directory : Nat) : Machine := { m with loaded := directory }

def kernelPage (m : Machine) : Machine := pageSwitch m m.kernelDirectory

/-- An access under a directory: both the word of the directory and the entry of
its table have to be present. -/
def pageTranslation (directory : Nat) : Translation := fun mem virt =>
  if loadWord mem (directory + 4 * (virt / 4194304)) % 2 = 0 ∨
      pagingGet mem directory (pagingAlignToLowerPage virt) % 2 = 0 then none
  else some (pagingGetPhysicalAddress mem directory virt)

def copyStringFromTask (m : Machine) (directory virt physical : Nat) (max : Int) :
    Option (Int × Machine) :=
  if (pageSize : Int) ≤ max then some (-einvarg, m)
  else
    let (tmp, kernel) := kzalloc m.kernel (toWord max)
    if tmp = 0 then some (-enomem, { m with kernel := kernel })
    else
      let oldEntry := pagingGet kernel.mem directory tmp
      let (_, mem) := pagingMap kernel.mem directory tmp tmp
        (pagingIsWriteable ||| pagingIsPresent ||| pagingAccessFromAll)
      let m := pageSwitch { m with kernel := { kernel with mem := mem } } directory
      match kernelStrncpy (pageTranslation directory) tmp virt max ⟨m.kernel.mem, []⟩ with
      | none => none
      | some s =>
          let m := kernelPage { m with kernel := { m.kernel with mem := s.mem } }
          let (res, mem) := pagingSet m.kernel.mem directory tmp oldEntry
          if res < 0 then some (-eio, { m with kernel := kfree { m.kernel with mem := mem } tmp })
          else
            match kernelStrncpy identityTranslation physical tmp max ⟨mem, []⟩ with
            | none => none
            | some s => some (res, { m with kernel := kfree { m.kernel with mem := s.mem } tmp })

/-- The word at address `x` is one of the heap's table. -/
def InHeapTable (x : Nat) : Prop := 0x00007E00 ≤ x ∧ x < 0x00007E00 + 25600

/-- A buffer of the kernel: `count` bytes apart from the task's directory and
tables, and not in blocks that are free. -/
structure KernelBuffer (heap : Heap) (directory : Nat) (table : Nat → Nat) (p count : Nat) :
    Prop where
  inside : p + count ≤ 4294967296
  directory : ∀ i < count, (p + i) / 4096 * 4096 ≠ directory
  tables : ∀ i < count, ¬ InTables table (p + i)
  heapTable : ∀ i < count, ¬ InHeapTable (p + i)
  blocks : ∀ b, InHeap heap b → entryTaken (heap.table.entries b) = false →
    ∀ i < count, (p + i) / 4096 * 4096 ≠ heapBlockToAddress heap b

/-- The byte that the task sees `i` bytes behind `virt`. -/
def taskByte (mem : Memory) (directory virt i : Nat) : Option UInt8 :=
  (pageTranslation directory).load mem (behind virt i)

/-- A byte at `virt` is not reached through the page `scratch`, and it is neither
in the scratch block nor in the heap's table nor in a page table. -/
structure ByteApart (mem : Memory) (directory : Nat) (table : Nat → Nat) (scratch virt : Nat) :
    Prop where
  page : virt / 4096 * 4096 ≠ scratch
  block : pagingGetPhysicalAddress mem directory virt / 4096 * 4096 ≠ scratch
  heapTable : ¬ InHeapTable (pagingGetPhysicalAddress mem directory virt)
  tables : ¬ InTables table (pagingGetPhysicalAddress mem directory virt)

/-- The heap, the directory and the tables are as before, and the kernel's
directory is loaded. -/
structure Transparent (m : Machine) (directory : Nat) (m' : Machine) : Prop where
  saddr : m'.kernel.heap.saddr = m.kernel.heap.saddr
  total : m'.kernel.heap.table.total = m.kernel.heap.table.total
  entries : m'.kernel.heap.table.entries = m.kernel.heap.table.entries
  pages : Remapped m.kernel.mem m'.kernel.mem directory (pagingGet m.kernel.mem directory)
  kernelDirectory : m'.kernelDirectory = m.kernelDirectory
  loaded : m'.loaded = m.kernelDirectory

/-- The directory of a task, as `task_init` has it created: every table is
present. -/
structure TaskSpace (k : KernelMemory) (directory : Nat) (table : Nat → Nat) : Prop extends
    AddressSpace k directory table where
  present : ∀ d < 1024, loadWord k.mem (directory + 4 * d) % 2 = 1

/-- In `mem` the free page `p` has been mapped into the task for the kernel's
purposes. -/
structure ScratchMapped (k : KernelMemory) (directory : Nat) (table : Nat → Nat) (p : Nat)
    (mem : Memory) : Prop where
  page : p % 4096 = 0 ∧ p + 4096 ≤ 4294967296
  apart : p ≠ directory ∧ ∀ d < 1024, p ≠ table d
  maps : Maps mem directory table (Function.update (pagingGet k.mem directory) p
    (p ||| (pagingIsWriteable ||| pagingIsPresent ||| pagingAccessFromAll)))
  pointers : ∀ d < 1024, loadWord mem (directory + 4 * d) = loadWord k.mem (directory + 4 * d)
  others : ∀ x < 4294967296, ¬ InTables table x → x / 4096 * 4096 ≠ p → mem x = k.mem x

section Translations

variable {mem mem' : Memory} {directory virt : Nat}

/-- A directory that maps the same pages translates the same way. -/
theorem Remapped.translation (h : Remapped mem mem' directory (pagingGet mem directory))
    (hVirt : virt < 4294967296) :
    pageTranslation directory mem' virt = pageTranslation directory mem virt := by
  have hPointer := h.pointers (virt / 4194304) (by omega)
  have hPage := pagingAlignToLowerPage_aligned virt
  have hLe := pagingAlignToLowerPage_le virt
  have hEntry := h.entries (pagingAlignToLowerPage virt) (by omega) hPage
  simp only [pageTranslation, pagingGetPhysicalAddress, hPointer, hEntry]

end Translations

section Scratch

variable {k : KernelMemory} {directory p count : Nat} {table : Nat → Nat} {mem mem' : Memory}

/-- A page that was free does not belong to the directory or its tables. -/
theorem TablesHeld.apart {heap : Heap} {b : Int} (h : TablesHeld heap directory table)
    (hHeap : KernelHeap heap) (hBlocks : FreeBlocks heap b 1) :
    heapBlockToAddress heap b ≠ directory ∧ ∀ d < 1024, heapBlockToAddress heap b ≠ table d := by
  have hFree : ∀ q, Held heap q → heapBlockToAddress heap b ≠ q := by
    rintro q ⟨c, hc, rfl, hTaken⟩ hSame
    have hInside := hBlocks.inside
    have hEqual := hHeap.address_inj (show InHeap heap b from ⟨hInside.1, by omega⟩) hc hSame
    rw [← hEqual, hBlocks.free b (Int.le_refl b) (by omega)] at hTaken
    exact absurd hTaken (by simp)
  exact ⟨hFree _ h.1, fun d hd => hFree _ (h.2 d hd)⟩

theorem AddressSpace.mapScratch {b : Int} (h : AddressSpace k directory table)
    (hBlocks : FreeBlocks k.heap b 1) (hCount : count ≤ 4096) :
    ∃ mem, pagingMap (storeRange k.mem (heapBlockToAddress k.heap b) count fun _ => 0) directory
        (heapBlockToAddress k.heap b) (heapBlockToAddress k.heap b)
        (pagingIsWriteable ||| pagingIsPresent ||| pagingAccessFromAll) = (0, mem) ∧
      ScratchMapped k directory table (heapBlockToAddress k.heap b) mem := by
  obtain ⟨hPage, _, hEnd, _⟩ := hBlocks.address h.heap (Nat.le_refl 1)
  obtain ⟨hTables, hCleared⟩ := h.held.remapped h.heap h.tables hBlocks (Nat.le_refl 1)
    (by omega) fun _ => 0
  have hEntry := @or_flags _ (pagingIsWriteable ||| pagingIsPresent ||| pagingAccessFromAll) hPage
    (by decide)
  obtain ⟨mem, hSet, hMaps, hOnly⟩ := hTables.maps.set
    (show heapBlockToAddress k.heap b < 4294967296 by omega) hPage
    (show heapBlockToAddress k.heap b |||
      (pagingIsWriteable ||| pagingIsPresent ||| pagingAccessFromAll) < 4294967296 by
        rw [hEntry]
        exact lt_trans (Nat.add_lt_add_left (show _ < 4096 by decide) _) (by omega))
  refine ⟨mem, ?_, ⟨hPage, by omega⟩, h.held.apart h.heap hBlocks, ?_, fun d hd => ?_, ?_⟩
  · rw [pagingMap, if_neg (by unfold pageSize; omega)]
    exact hSet
  · refine { toPageTables := hMaps.toPageTables, entries := fun v hv hAligned => ?_ }
    rw [hMaps.entries v hv hAligned]
    by_cases hSame : v = heapBlockToAddress k.heap b
    · rw [hSame, Function.update_self, Function.update_self]
    · rw [Function.update_of_ne hSame, Function.update_of_ne hSame]
      exact hCleared.entries v hv hAligned
  · exact ((hMaps.remapped hTables hOnly).pointers d hd).trans (hCleared.pointers d hd)
  · intro x hx hOut hApart
    rw [hOnly x hx hOut]
    apply storeRange_outside
    unfold offsetFrom toWord
    omega

/-- Bytes of the scratch page are none of the directory or the tables. -/
theorem ScratchMapped.keeps (h : ScratchMapped k directory table p mem) (hCount : count ≤ 4096)
    (hSame : SameOutside p count mem mem') :
    PageTables mem' directory table ∧
      Remapped mem mem' directory (pagingGet mem directory) := by
  obtain ⟨hPage, _⟩ := h.page
  refine h.maps.toPageTables.remapped fun x hx hIn => hSame x ?_
  rcases hIn with hDirectory | ⟨d, hd, hTable⟩
  · have hApart := h.apart.1
    omega
  · have hApart := h.apart.2 d hd
    omega

/-- Under the directory of the task the scratch page is reached at its address. -/
theorem ScratchMapped.reaches (h : ScratchMapped k directory table p mem)
    (hPresent : ∀ d < 1024, loadWord k.mem (directory + 4 * d) % 2 = 1) (hCount : count ≤ 4096) :
    Reaches (pageTranslation directory) mem p p count := fun mem' hSame i hi => by
  obtain ⟨hPage, hEnd⟩ := h.page
  have hEntry := @or_flags p (pagingIsWriteable ||| pagingIsPresent ||| pagingAccessFromAll) hPage
    (by decide)
  have hLower : pagingAlignToLowerPage (p + i) = p := by
    rw [pagingAlignToLowerPage_eq]
    omega
  have hMapped := h.maps.entries p (by omega) hPage
  rw [Function.update_self] at hMapped
  rw [behind_of_lt (by omega), (h.keeps hCount hSame).2.translation (by omega), pageTranslation,
    hLower, hMapped, h.pointers _ (by omega), hPresent _ (by omega), hEntry, if_neg ?_]
  · refine congrArg some ?_
    rw [h.maps.translate (by omega) hPage (by omega)
      (show pagingIsWriteable ||| pagingIsPresent ||| pagingAccessFromAll < 4096 by decide)
      (by rw [show (p + i) / 4096 * 4096 = p by omega]; exact Function.update_self _ _ _)]
    omega
  · show ¬ (1 = 0 ∨ (p + 7) % 2 = 0)
    omega

/-- Bytes apart from the scratch page look to the task as they did before. -/
theorem ScratchMapped.byte (h : ScratchMapped k directory table p mem) (hCount : count ≤ 4096)
    {virt : Nat} (hVirt : virt < 4294967296) (hApart : ByteApart k.mem directory table p virt)
    (hSame : SameOutside p count mem mem') :
    (pageTranslation directory).load mem' virt = (pageTranslation directory).load k.mem virt := by
  obtain ⟨hPage, _⟩ := h.page
  have hLower := pagingAlignToLowerPage_aligned virt
  have hLe := pagingAlignToLowerPage_le virt
  have hEntry := h.maps.entries (pagingAlignToLowerPage virt) (by omega) hLower
  rw [Function.update_of_ne (by rw [pagingAlignToLowerPage_eq]; exact hApart.page)] at hEntry
  have hPhysical : pagingGetPhysicalAddress mem directory virt =
      pagingGetPhysicalAddress k.mem directory virt := by
    simp only [pagingGetPhysicalAddress, hEntry]
  have hSpace : pageTranslation directory mem virt = pageTranslation directory k.mem virt := by
    simp only [pageTranslation, h.pointers _ (show virt / 4194304 < 1024 by omega), hEntry,
      hPhysical]
  have hByte : mem' (pagingGetPhysicalAddress k.mem directory virt) =
      k.mem (pagingGetPhysicalAddress k.mem directory virt) := by
    have hBlock := hApart.block
    rw [hSame _ (by omega)]
    exact h.others _ (behind_lt _ _) hApart.tables hBlock
  rw [Translation.load, Translation.load, (h.keeps hCount hSame).2.translation hVirt, hSpace,
    pageTranslation]
  split
  · rfl
  · exact congrArg some hByte

/-- Restoring the entry of the scratch page leaves the task with the directory
that it had. -/
theorem ScratchMapped.restore (h : ScratchMapped k directory table p mem) (hCount : count ≤ 4096)
    (hSame : SameOutside p count mem mem') :
    ∃ fin, pagingSet mem' directory p (pagingGet k.mem directory p) = (0, fin) ∧
      PageTables fin directory table ∧ TablesOnly table mem' fin ∧
      Remapped k.mem fin directory (pagingGet k.mem directory) := by
  obtain ⟨hPage, hEnd⟩ := h.page
  obtain ⟨hTables, hKept⟩ := h.keeps hCount hSame
  have hOld : pagingGet k.mem directory p < 4294967296 := loadWord_lt _ _
  obtain ⟨fin, hSet, hMaps, hOnly⟩ := hTables.maps.set (show p < 4294967296 by omega) hPage hOld
  refine ⟨fin, hSet, hMaps.toPageTables, hOnly, fun d hd => ?_, fun v hv hAligned => ?_⟩
  · rw [(hMaps.remapped hTables hOnly).pointers d hd, hKept.pointers d hd]
    exact h.pointers d hd
  · rw [hMaps.entries v hv hAligned]
    by_cases hScratch : v = p
    · rw [hScratch, Function.update_self]
    · rw [Function.update_of_ne hScratch, hKept.entries v hv hAligned,
        h.maps.entries v hv hAligned, Function.update_of_ne hScratch]

end Scratch

section Copy

variable {m : Machine} {directory virt physical count : Nat} {table : Nat → Nat}

/-- What is written to the buffer leaves the directory and its tables alone. -/
theorem KernelBuffer.keeps {heap : Heap} {mem mem' : Memory} {x : Nat}
    (h : KernelBuffer heap directory table physical count)
    (hSame : SameOutside physical count mem mem')
    (hBelongs : x / 4096 * 4096 = directory ∨ InTables table x) : mem' x = mem x := by
  apply hSame
  by_contra hIn
  have hOffset : physical + (x - physical) = x := by omega
  have hDirectory := h.directory (x - physical) (by omega)
  have hTables := h.tables (x - physical) (by omega)
  rw [hOffset] at hDirectory hTables
  exact hBelongs.elim hDirectory hTables

/-- What a copy that succeeds leaves behind. -/
structure CopyDone (m : Machine) (directory : Nat) (table : Nat → Nat) (physical count : Nat)
    (m' : Machine) : Prop where
  transparent : Transparent m directory m'
  others : ∀ x < 4294967296, ¬ InTables table x →
    x / 4096 * 4096 ≠ (kzalloc m.kernel count).1 → x < physical ∨ physical + count ≤ x →
      m'.kernel.mem x = m.kernel.mem x

/-- The part of the function behind the first copy does its work whatever that
copy has left in the scratch page. -/
theorem ScratchMapped.finish {b : Int} {mapped mem : Memory}
    (hBlocks : FreeBlocks m.kernel.heap b 1)
    (hBuffer : KernelBuffer m.kernel.heap directory table physical count) (hLow : 1 ≤ count)
    (hHigh : count < 4096)
    (hMapped : ScratchMapped m.kernel directory table (heapBlockToAddress m.kernel.heap b) mapped)
    (hScratch : SameOutside (heapBlockToAddress m.kernel.heap b) count mapped mem) :
    ∃ restored fin n, pagingSet mem directory (heapBlockToAddress m.kernel.heap b)
        (pagingGet m.kernel.mem directory (heapBlockToAddress m.kernel.heap b)) = (0, restored) ∧
      kernelStrncpy identityTranslation physical (heapBlockToAddress m.kernel.heap b) count
        ⟨restored, []⟩ = some fin ∧
      Remapped m.kernel.mem fin.mem directory (pagingGet m.kernel.mem directory) ∧
      (∀ x < 4294967296, ¬ InTables table x →
        x / 4096 * 4096 ≠ heapBlockToAddress m.kernel.heap b →
        x < physical ∨ physical + count ≤ x → fin.mem x = m.kernel.mem x) ∧
      StringCopied (fun i => some (mem (heapBlockToAddress m.kernel.heap b + i))) count
        (fun i => fin.mem (physical + i)) n := by
  obtain ⟨hPage, hEnd⟩ := hMapped.page
  obtain ⟨restored, hSet, hTables, hOnly, hRestored⟩ := hMapped.restore (by omega) hScratch
  have hInside := hBlocks.inside
  have hFree := hBlocks.free b (Int.le_refl b) (by omega)
  have hAway := hBuffer.blocks b ⟨hInside.1, by omega⟩ hFree
  have hRoom := hBuffer.inside
  generalize heapBlockToAddress m.kernel.heap b = p at hMapped hScratch hPage hEnd hSet hAway ⊢
  have hDest : Reaches identityTranslation restored physical physical count :=
    reaches_identity restored hRoom
  have hSource : StableSource identityTranslation restored p physical count :=
    stableSource_identity restored fun i hi => by
      rw [behind_of_lt (by omega)]
      by_contra hIn
      have hFar := hAway (p + i - physical) (by omega)
      omega
  rcases @kernelStrncpy_copies _ ⟨restored, []⟩ _ _ _ _ _ hDest hSource rfl hLow with
    ⟨_, j, _, hMissing⟩ | ⟨fin, n, hCopy, hWrote, hString⟩
  · exact absurd hMissing (by simp [identityTranslation_load])
  · have hSame : SameOutside physical count restored fin.mem :=
      hWrote.outside.mono hString.inside
    have hKept := (hTables.remapped fun x _ hBelongs => hBuffer.keeps hSame hBelongs).2
    refine ⟨restored, fin, n, hSet, hCopy, hRestored.trans (hKept.congr hRestored.entries),
      fun x hx hOut hApart hBuf => ?_, hString.congr fun i hRead => ?_⟩
    · rw [hSame x hBuf, hOnly x hx hOut, hScratch x (by omega)]
      exact hMapped.others x hx hOut hApart
    · have hi := hRead.1
      rw [identityTranslation_load, behind_of_lt (by omega)]
      refine congrArg some (hOnly _ (by omega) ?_).symm
      rintro ⟨d, hd, hTable⟩
      have hApart := hMapped.apart.2 d hd
      omega
/-- Without room for the scratch page nothing is done. -/
theorem copyStringFromTask_refused (hHigh : count < 4096)
    (hRefused : kzalloc m.kernel count = (0, m.kernel)) :
    copyStringFromTask m directory virt physical count = some (-enomem, m) := by
  have hFits : ¬ (pageSize : Int) ≤ count := by
    unfold pageSize
    omega
  have hRequest : toWord (count : Int) = count := by
    unfold toWord
    omega
  rw [copyStringFromTask, if_neg hFits, hRequest, hRefused]
  rfl

/-- The first copy is the one from the task. -/
theorem ScratchMapped.copies {k : KernelMemory} {p : Nat} {mapped : Memory}
    (hMapped : ScratchMapped k directory table p mapped)
    (hPresent : ∀ d < 1024, loadWord k.mem (directory + 4 * d) % 2 = 1) (hLow : 1 ≤ count)
    (hHigh : count < 4096)
    (hApart : ∀ i, ByteRead (taskByte k.mem directory virt) count i →
      ByteApart k.mem directory table p (behind virt i)) :
    (kernelStrncpy (pageTranslation directory) p virt count ⟨mapped, []⟩ = none ∧
        ∃ j, ByteRead (taskByte k.mem directory virt) count j ∧
          taskByte k.mem directory virt j = none) ∨
      ∃ s n, kernelStrncpy (pageTranslation directory) p virt count ⟨mapped, []⟩ = some s ∧
        StringCopied (taskByte k.mem directory virt) count (fun i => s.mem (p + i)) n := by
  have hByte : ∀ i, ByteRead (taskByte k.mem directory virt) count i → ∀ mem',
      SameOutside p count mapped mem' →
        (pageTranslation directory).load mem' (behind virt i) = taskByte k.mem directory virt i :=
    fun i hRead _ hSame => hMapped.byte (by omega) (behind_lt _ _) (hApart i hRead) hSame
  have hFirst : ∀ i, ByteRead (taskByte k.mem directory virt) count i →
      (pageTranslation directory).load mapped (behind virt i) = taskByte k.mem directory virt i :=
    fun i hRead => hByte i hRead mapped fun _ _ => rfl
  have hSource : StableSource (pageTranslation directory) mapped virt p count :=
    fun i hRead mem' hSame => by
      have hBefore := ByteRead.congr hFirst hRead
      rw [hByte i hBefore mem' hSame, hFirst i hBefore]
  rcases @kernelStrncpy_copies _ ⟨mapped, []⟩ _ _ _ _ _
      (hMapped.reaches hPresent (show count ≤ 4096 by omega)) hSource rfl hLow with
    ⟨hFault, j, hRead, hMissing⟩ | ⟨s, n, hCopy, _, hString⟩
  · have hBefore := ByteRead.congr hFirst hRead
    exact Or.inl ⟨hFault, j, hBefore, (hFirst j hBefore).symm.trans hMissing⟩
  · exact Or.inr ⟨s, n, hCopy, hString.congr fun i hRead =>
      (hFirst i (ByteRead.congr hFirst hRead)).symm⟩

/-- A call with room for the scratch page: it is up to the first copy whether it
comes back, and then it does all that it has to. -/
theorem copyStringFromTask_granted (h : TaskSpace m.kernel directory table) {b : Int}
    (hBlocks : FreeBlocks m.kernel.heap b 1)
    (hGrant : kzalloc m.kernel count = (heapBlockToAddress m.kernel.heap b,
      ⟨heapMarkBlocksTaken m.kernel.heap b 1,
        storeRange m.kernel.mem (heapBlockToAddress m.kernel.heap b) count fun _ => 0⟩))
    (hLow : 1 ≤ count) (hHigh : count < 4096)
    (hBuffer : KernelBuffer m.kernel.heap directory table physical count) :
    ∃ mapped, ScratchMapped m.kernel directory table (heapBlockToAddress m.kernel.heap b) mapped ∧
      (kernelStrncpy (pageTranslation directory) (heapBlockToAddress m.kernel.heap b) virt count
          ⟨mapped, []⟩ = none → copyStringFromTask m directory virt physical count = none) ∧
      ∀ s, kernelStrncpy (pageTranslation directory) (heapBlockToAddress m.kernel.heap b) virt count
          ⟨mapped, []⟩ = some s →
        ∃ m' n, copyStringFromTask m directory virt physical count = some (0, m') ∧
          CopyDone m directory table physical count m' ∧
          StringCopied (fun i => some (s.mem (heapBlockToAddress m.kernel.heap b + i))) count
            (fun i => m'.kernel.mem (physical + i)) n := by
  obtain ⟨hPage, hStart, _, _⟩ := hBlocks.address h.heap (Nat.le_refl 1)
  have hNull : heapBlockToAddress m.kernel.heap b ≠ 0 := by omega
  have hFits : ¬ (pageSize : Int) ≤ count := by
    unfold pageSize
    omega
  have hRequest : toWord (count : Int) = count := by
    unfold toWord
    omega
  obtain ⟨mapped, hMap, hMapped⟩ := h.toAddressSpace.mapScratch hBlocks (show count ≤ 4096 by omega)
  have hOld : pagingGet (storeRange m.kernel.mem (heapBlockToAddress m.kernel.heap b) count
      fun _ => 0) directory (heapBlockToAddress m.kernel.heap b) =
        pagingGet m.kernel.mem directory (heapBlockToAddress m.kernel.heap b) :=
    (h.held.remapped h.heap h.tables hBlocks (Nat.le_refl 1) (by omega) fun _ => 0).2.entries _
      (by omega) hPage
  refine ⟨mapped, hMapped, fun hFault => ?_, fun s hCopy => ?_⟩
  · rw [copyStringFromTask, if_neg hFits, hRequest, hGrant]
    simp only [if_neg hNull, hMap, pageSwitch, hFault]
  · have hScratch := @kernelStrncpy_outside _ ⟨mapped, []⟩ _ _ _ _ _
      (hMapped.reaches h.present (show count ≤ 4096 by omega)) rfl hLow _ hCopy
    obtain ⟨restored, fin, n, hSet, hSecond, hPages, hOthers, hString⟩ :=
      ScratchMapped.finish hBlocks hBuffer hLow hHigh hMapped hScratch
    refine ⟨⟨kfree ⟨heapMarkBlocksTaken m.kernel.heap b 1, fin.mem⟩
      (heapBlockToAddress m.kernel.heap b), m.kernelDirectory, m.kernelDirectory⟩, n, ?_, ⟨?_, ?_⟩,
      hString⟩
    · rw [copyStringFromTask, if_neg hFits, hRequest, hGrant]
      simp only [if_neg hNull, hMap, pageSwitch, kernelPage, hCopy, hOld, hSet, hSecond]
      rfl
    · exact
        { saddr := rfl
          total := by rw [kfree, (heapFree_shape _ _).2, heapMarkBlocksTaken_total]
          entries := heapFree_of_run h.heap h.clear hBlocks (Nat.le_refl 1)
          pages := hPages
          kernelDirectory := rfl
          loaded := rfl }
    · rw [hGrant]
      exact hOthers

/-- A buffer of the kernel is not in the scratch page. -/
theorem KernelBuffer.scratch {p size : Nat} (h : KernelBuffer m.kernel.heap directory table p count)
    (hHeap : KernelHeap m.kernel.heap) (hLow : 1 ≤ size) (hHigh : size ≤ 4096)
    (hGranted : (kzalloc m.kernel size).1 ≠ 0) {i : Nat} (hi : i < count) :
    (p + i) / 4096 * 4096 ≠ (kzalloc m.kernel size).1 := by
  rcases kzalloc_block m.kernel hHeap hLow hHigh with hRefused | ⟨b, hBlocks, hGrant⟩
  · rw [hRefused] at hGranted
    exact absurd rfl hGranted
  · rw [hGrant]
    have hInside := hBlocks.inside
    exact h.blocks b ⟨hInside.1, by omega⟩ (hBlocks.free b (Int.le_refl b) (by omega)) i hi

/-- With room for the scratch page, and with all of the string there, it is
fetched. -/
theorem copyStringFromTask_fetches (h : TaskSpace m.kernel directory table)
    (hGranted : (kzalloc m.kernel count).1 ≠ 0) (hLow : 1 ≤ count) (hHigh : count < 4096)
    (hBuffer : KernelBuffer m.kernel.heap directory table physical count)
    (hBytes : ∀ i, ByteRead (taskByte m.kernel.mem directory virt) count i →
      ByteApart m.kernel.mem directory table (kzalloc m.kernel count).1 (behind virt i) ∧
        taskByte m.kernel.mem directory virt i ≠ none) :
    ∃ m' n, copyStringFromTask m directory virt physical count = some (0, m') ∧
      CopyDone m directory table physical count m' ∧
      StringCopied (taskByte m.kernel.mem directory virt) count
        (fun i => m'.kernel.mem (physical + i)) n := by
  rcases kzalloc_block m.kernel h.heap hLow (show count ≤ 4096 by omega) with
    hRefused | ⟨b, hBlocks, hGrant⟩
  · rw [hRefused] at hGranted
    exact absurd rfl hGranted
  · obtain ⟨mapped, hMapped, _, hDone⟩ :=
      @copyStringFromTask_granted m directory virt physical count table h b hBlocks hGrant hLow hHigh
        hBuffer
    rw [hGrant] at hBytes
    rcases hMapped.copies h.present hLow hHigh fun i hRead => (hBytes i hRead).1 with
      ⟨_, j, hRead, hMissing⟩ | ⟨s, n, hCopy, hFirst⟩
    · exact absurd hMissing (hBytes j hRead).2
    · obtain ⟨m', _, hCode, hEffect, hSecond⟩ := hDone s hCopy
      exact ⟨m', n, hCode, hEffect, hFirst.trans hSecond⟩

/-- A call returns unless a byte of the string is missing. Whatever it returns, it
has been transparent, and what it has copied is the string of the task. -/
theorem copyStringFromTask_transparent (h : TaskSpace m.kernel directory table)
    (hLoaded : m.loaded = m.kernelDirectory) (hLow : 1 ≤ count) (hHigh : count < 4096)
    (hBuffer : KernelBuffer m.kernel.heap directory table physical count) (virt : Nat) :
    (∀ res m', copyStringFromTask m directory virt physical count = some (res, m') →
      Transparent m directory m' ∧
        (res = 0 →
          (∀ i, ByteRead (taskByte m.kernel.mem directory virt) count i →
            ByteApart m.kernel.mem directory table (kzalloc m.kernel count).1 (behind virt i)) →
          ∃ n, StringCopied (taskByte m.kernel.mem directory virt) count
            (fun i => m'.kernel.mem (physical + i)) n)) ∧
    ((∀ i, ByteRead (taskByte m.kernel.mem directory virt) count i →
        ByteApart m.kernel.mem directory table (kzalloc m.kernel count).1 (behind virt i) ∧
          taskByte m.kernel.mem directory virt i ≠ none) →
      ∃ res m', copyStringFromTask m directory virt physical count = some (res, m') ∧
        (res ≠ 0 → (kzalloc m.kernel count).1 = 0)) := by
  constructor
  · intro res m' hReturned
    rcases kzalloc_block m.kernel h.heap hLow (show count ≤ 4096 by omega) with
      hRefused | ⟨b, hBlocks, hGrant⟩
    · rw [copyStringFromTask_refused hHigh hRefused, Option.some.injEq, Prod.mk.injEq] at hReturned
      obtain ⟨rfl, rfl⟩ := hReturned
      refine ⟨⟨rfl, rfl, rfl, ⟨fun _ _ => rfl, fun _ _ _ => rfl⟩, rfl, hLoaded⟩, fun hOk => ?_⟩
      exact absurd hOk (by decide)
    · obtain ⟨mapped, hMapped, hFault, hDone⟩ :=
        @copyStringFromTask_granted m directory virt physical count table h b hBlocks hGrant hLow hHigh
        hBuffer
      rw [hGrant]
      cases hCopy : kernelStrncpy (pageTranslation directory)
          (heapBlockToAddress m.kernel.heap b) virt count ⟨mapped, []⟩ with
      | none =>
          rw [hFault hCopy] at hReturned
          exact absurd hReturned (by simp)
      | some s =>
          obtain ⟨m₁, n, hCode, hEffect, hSecond⟩ := hDone s hCopy
          rw [hCode, Option.some.injEq, Prod.mk.injEq] at hReturned
          obtain ⟨rfl, rfl⟩ := hReturned
          refine ⟨hEffect.transparent, fun _ hApart => ?_⟩
          rcases hMapped.copies h.present hLow hHigh hApart with
            ⟨hNone, _⟩ | ⟨s', n', hCopy', hFirst⟩
          · rw [hCopy] at hNone
            exact absurd hNone (by simp)
          · rw [hCopy, Option.some.injEq] at hCopy'
            subst hCopy'
            exact ⟨n', hFirst.trans hSecond⟩
  · intro hBytes
    by_cases hGranted : (kzalloc m.kernel count).1 = 0
    · rcases kzalloc_block m.kernel h.heap hLow (show count ≤ 4096 by omega) with
        hRefused | ⟨b, hBlocks, hGrant⟩
      · exact ⟨_, _, copyStringFromTask_refused hHigh hRefused, fun _ => hGranted⟩
      · have hAddress := hBlocks.address h.heap (Nat.le_refl 1)
        rw [hGrant] at hGranted
        dsimp only at hGranted
        omega
    · obtain ⟨m', n, hCode, _, _⟩ :=
        copyStringFromTask_fetches h hGranted hLow hHigh hBuffer hBytes
      exact ⟨0, m', hCode, fun hFailed => absurd rfl hFailed⟩

/-! ### A task to try it with -/

/-- A buffer between the heap's table and the heap. -/
theorem firstTask_buffer {p n : Nat} (hLow : 0x00010000 ≤ p) (hHigh : p + n ≤ 0x01000000) :
    KernelBuffer firstTask.heap 0x01000000 (fun d => 0x01001000 + 4096 * d) p n := by
  refine ⟨by omega, fun i hi => by omega, fun i hi => ?_, fun i hi => ?_, fun b hb _ i hi => ?_⟩
  · rintro ⟨d, hd, hTable⟩
    dsimp only at hTable
    omega
  · rintro ⟨_, hEnd⟩
    omega
  · have hPage := firstTask_space.heap.address_page hb
    omega

/-- What lies behind the heap is apart from all that the kernel uses. -/
theorem firstTask_apart {mem : Memory} {k : KernelMemory} {virt : Nat}
    (hHeap : k.heap = firstTask.heap) (hVirt : 0x07400000 ≤ virt)
    (hPhysical : 0x07400000 ≤ pagingGetPhysicalAddress mem 0x01000000 virt) :
    ByteApart mem 0x01000000 (fun d => 0x01001000 + 4096 * d) (kzalloc k 108).1 virt := by
  have hKernel : KernelHeap k.heap := by
    rw [hHeap]
    exact firstTask_space.heap
  have hScratch : (kzalloc k 108).1 + 4096 ≤ 0x07400000 := by
    rcases kzalloc_block k hKernel (show 1 ≤ 108 by decide) (by decide) with
      hRefused | ⟨b, hBlocks, hGrant⟩
    · rw [hRefused]
      exact show 0 + 4096 ≤ 0x07400000 by decide
    · have hAddress := hBlocks.address hKernel (Nat.le_refl 1)
      rw [hGrant]
      dsimp only
      omega
  refine ⟨by omega, by omega, fun hIn => ?_, fun ⟨d, hd, hTable⟩ => ?_⟩
  · have hEnd := hIn.2
    omega
  · dsimp only at hTable
    omega

/-- There is room for a scratch page. -/
theorem firstTask_granted {k : KernelMemory} (hHeap : k.heap = firstTask.heap) :
    (kzalloc k 108).1 ≠ 0 := by
  have hKernel : KernelHeap k.heap := by
    rw [hHeap]
    exact firstTask_space.heap
  have hRun : HasRun k.heap 108 := by
    rw [hHeap]
    exact firstTask_hasRun (by decide)
  obtain ⟨b, hBlocks, hGrant⟩ := kzalloc_of_run hKernel (show 1 ≤ 108 by decide) hRun
  have hAddress := hBlocks.address hKernel (blocksOf_pos 108)
  rw [hGrant]
  dsimp only
  omega

/-- A string of one character, from the first task to a buffer in front of the
heap. -/
theorem copyStringFromTask_transparent_character :
    ∃ m' n, copyStringFromTask ⟨firstTask, 0x2000, 0x2000⟩ 0x01000000 0x0C00003C 0x00100000
        ((108 : Nat) : Int) = some (0, m') ∧
      Transparent ⟨firstTask, 0x2000, 0x2000⟩ 0x01000000 m' ∧
      StringCopied (taskByte firstTask.mem 0x01000000 0x0C00003C) 108
        (fun i => m'.kernel.mem (0x00100000 + i)) n := by
  have hSpace : TaskSpace firstTask 0x01000000 fun d => 0x01001000 + 4096 * d :=
    { toAddressSpace := firstTask_space
      present := fun d hd => by
        rw [firstTask_pointer hd]
        omega }
  have hBytes : ∀ i, ByteRead (taskByte firstTask.mem 0x01000000 0x0C00003C) 108 i →
      ByteApart firstTask.mem 0x01000000 (fun d => 0x01001000 + 4096 * d) (kzalloc firstTask 108).1
        (behind 0x0C00003C i) ∧ taskByte firstTask.mem 0x01000000 0x0C00003C i ≠ none := by
    intro i hRead
    have hShort : i = 0 ∨ i = 1 := by
      by_contra hLong
      exact hRead.2 1 (by omega) (by decide)
    rcases hShort with rfl | rfl
    · exact ⟨firstTask_apart rfl (by decide) (by decide), by decide⟩
    · exact ⟨firstTask_apart rfl (by decide) (by decide), by decide⟩
  obtain ⟨hReturned, hReturns⟩ := copyStringFromTask_transparent (m := ⟨firstTask, 0x2000, 0x2000⟩)
    hSpace rfl (show 1 ≤ 108 by decide) (by decide) (firstTask_buffer (p := 0x00100000) (by decide)
      (by decide)) 0x0C00003C
  obtain ⟨res, m', hCode, hFailed⟩ := hReturns hBytes
  have hOk : res = 0 := by
    by_contra hNonzero
    exact firstTask_granted rfl (hFailed hNonzero)
  subst hOk
  obtain ⟨hTransparent, hString⟩ := hReturned 0 m' hCode
  obtain ⟨n, hCopied⟩ := hString rfl fun i hRead => (hBytes i hRead).1
  exact ⟨m', n, hCode, hTransparent, hCopied⟩

end Copy

end LiebeOS
