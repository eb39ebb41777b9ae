import LiebeOS.Lib.Run
import LiebeOS.Memory.Paging
import LiebeOS.Memory.TakenPages

/-! Building and releasing page directories: the part of `paging.c` that uses
the heap. A directory, its 1024 page tables and the record that points to it
are 1026 separate allocations. -/
namespace LiebeOS

open MachineInt Bytes

/-- The inner loop of `create_new_page_directory` at entry `b`. -/
def pageTableLoop (table offset flags : Nat) : Nat → Nat → Memory → Memory
  | 0, _, mem => mem
  | left + 1, b, mem =>
      pageTableLoop table offset flags left (b + 1)
        (storeWord mem (table + 4 * b) (behind offset (b * pageSize) ||| flags))

/-- The stores of one round of the outer loop: a whole table, then its entry in
the directory. -/
def pageDirectoryEntry (directory flags i offset table : Nat) (mem : Memory) : Memory :=
  storeWord (pageTableLoop table offset flags tableEntriesCount 0 mem) (directory + 4 * i)
    (table ||| flags ||| pagingIsWriteable)

/-- The outer loop at directory entry `i`. No result of `kzalloc` is checked. -/
def pageDirectoryLoop (directory flags : Nat) : Nat → Nat → Nat → KernelMemory → KernelMemory
  | 0, _, _, k => k
  | left + 1, i, offset, k =>
      let (table, k) := kzalloc k (4 * tableEntriesCount)
      let k := { k with mem := pageDirectoryEntry directory flags i offset table k.mem }
      pageDirectoryLoop directory flags left (i + 1)
        (behind offset (tableEntriesCount * pageSize)) k

/-- The address of the record, which holds the address of the directory. -/
def createNewPageDirectory (k : KernelMemory) (flags : Nat) : Nat × KernelMemory :=
  let (directory, k) := kzalloc k (4 * tableEntriesCount)
  let k := pageDirectoryLoop directory flags tableEntriesCount 0 0 k
  let (chunk, k) := kzalloc k 4
  (chunk, { k with mem := storeWord k.mem chunk directory })

/-- The loop of `paging_free_4gb` at directory entry `i`. -/
def pagingFreeLoop (directory : Nat) : Nat → Nat → KernelMemory → KernelMemory
  | 0, _, k => k
  | left + 1, i, k =>
      let entry := loadWord k.mem (directory + 4 * i)
      pagingFreeLoop directory left (i + 1) (kfree k (entryAddress entry))

def pagingFree4gb (k : KernelMemory) (chunk : Nat) : KernelMemory :=
  let directory := loadWord k.mem chunk
  let k := pagingFreeLoop directory tableEntriesCount 0 k
  kfree (kfree k directory) chunk

/-! ### Filling one page table -/

section Pages

variable {mem mem' : Memory} {p q i j v : Nat}

/-- The words of another page are as before. -/
theorem PageOnly.word (h : PageOnly p mem mem') (hq : q % 4096 = 0) (hqLt : q < 4294967296)
    (hne : q ≠ p) (hi : i < 1024) : loadWord mem' (q + 4 * i) = loadWord mem (q + 4 * i) :=
  loadWord_congr fun j hj => by
    rw [behind_of_lt (by omega)]
    exact h _ (by omega) (by omega)

theorem storeWord_pageOnly (mem : Memory) (v : Nat) (hp : p % 4096 = 0) (hpLt : p < 4294967296) (hi : i < 1024) :
    PageOnly p mem (storeWord mem (p + 4 * i) v) := by
  intro x hx hOut
  apply storeRange_outside
  unfold offsetFrom toWord
  omega

/-- A word of a page is not touched by a store to another word of it. -/
theorem loadWord_storeWord_ne (hi : i < 1024) (hj : j < 1024) (hne : j ≠ i) :
    loadWord (storeWord mem (p + 4 * i) v) (p + 4 * j) = loadWord mem (p + 4 * j) := by
  apply loadWord_storeRange_apart
  intro b hb
  unfold offsetFrom toWord behind
  omega

end Pages

/-- From entry `b` on, each entry maps the next page behind `offset`. -/
theorem pageTableLoop_words {table offset flags : Nat} (hTable : table % 4096 = 0)
    (hTableLt : table < 4294967296) (hOffset : offset % 4096 = 0) (hFlags : flags < 4096)
    (left b : Nat) (hRoom : b + left ≤ 1024) (mem : Memory) :
    PageOnly table mem (pageTableLoop table offset flags left b mem) ∧
      (∀ c < b, loadWord (pageTableLoop table offset flags left b mem) (table + 4 * c) =
        loadWord mem (table + 4 * c)) ∧
      (∀ c, b ≤ c → c < b + left →
        loadWord (pageTableLoop table offset flags left b mem) (table + 4 * c) =
          behind offset (c * pageSize) ||| flags) := by
  induction left generalizing b mem with
  | zero => exact ⟨PageOnly.refl table mem, fun _ _ => rfl, fun c _ _ => by omega⟩
  | succ left ih =>
      obtain ⟨hOnly, hBefore, hBehind⟩ := ih (b + 1) (by omega)
        (storeWord mem (table + 4 * b) (behind offset (b * pageSize) ||| flags))
      have hStore := storeWord_pageOnly mem (behind offset (b * pageSize) ||| flags)
        hTable hTableLt (show b < 1024 by omega)
      rw [pageTableLoop]
      refine ⟨hStore.trans hOnly, fun c hc => ?_, fun c hLow hHigh => ?_⟩
      · rw [hBefore c (by omega)]
        exact loadWord_storeWord_ne (by omega) (by omega) (by omega)
      · by_cases hSame : c = b
        · have hPage : behind offset (b * pageSize) % 4096 = 0 := by
            unfold behind pageSize
            omega
          have hLt := behind_lt offset (b * pageSize)
          rw [hSame, hBefore b (Nat.lt_succ_self b)]
          apply loadWord_storeWord
          rw [or_flags hPage hFlags]
          omega
        · exact hBehind c (by omega) (by omega)

/-! ### Building the directory -/

/-- Of a directory that is built on top of the state `start`, the first `i`
tables are in place. -/
structure DirectoryBuilt (start k : KernelMemory) (directory flags i : Nat) (table : Nat → Nat) :
    Prop where
  grows : Grows start k
  page : Held k.heap directory ∧ ¬ Held start.heap directory
  tables : ∀ d < i, Held k.heap (table d) ∧ ¬ Held start.heap (table d) ∧ table d ≠ directory
  distinct : ∀ d < i, ∀ e < i, table d = table e → d = e
  entry : ∀ d < i, loadWord k.mem (directory + 4 * d) = table d ||| flags ||| pagingIsWriteable
  words : ∀ d < i, ∀ c < 1024,
    loadWord k.mem (table d + 4 * c) = (4194304 * d + 4096 * c) ||| flags

theorem pagingIsWriteable_or {p flags : Nat} (hp : p % 4096 = 0) (hFlags : flags < 256) :
    ∃ low < 256, p ||| flags ||| pagingIsWriteable = p + low := by
  have hLow : flags ||| pagingIsWriteable < 2 ^ 8 :=
    Nat.or_lt_two_pow (by omega) (show pagingIsWriteable < 2 ^ 8 by decide)
  refine ⟨flags ||| pagingIsWriteable, by omega, ?_⟩
  rw [Nat.or_assoc, or_flags hp (by omega)]

section Built

variable {start k k' : KernelMemory} {directory flags i p : Nat} {table : Nat → Nat}

/-- What has been built stays when one more page is taken and nothing but this
page is written. -/
theorem DirectoryBuilt.keep (h : DirectoryBuilt start k directory flags i table) (hi : i ≤ 1024)
    (hGrows : Grows k k') : DirectoryBuilt start k' directory flags i table := by
  have hWord : ∀ q, Held k.heap q → ∀ c < 1024,
      loadWord k'.mem (q + 4 * c) = loadWord k.mem (q + 4 * c) := fun q hq c hc =>
    loadWord_congr fun j hj => by
      obtain ⟨hAligned, _, hHigh⟩ := hq.page h.grows.heap
      have hPage : (q + 4 * c + j) / 4096 * 4096 = q := by omega
      rw [behind_of_lt (by omega)]
      apply hGrows.held (by omega)
      rw [hPage]
      exact hq
  obtain ⟨hHeld, hFresh⟩ := h.page
  refine ⟨h.grows.trans hGrows, ⟨hGrows.keeps _ hHeld, hFresh⟩, fun d hd => ?_, h.distinct,
    fun d hd => ?_, fun d hd c hc => ?_⟩
  · obtain ⟨hTable, hRest⟩ := h.tables d hd
    exact ⟨hGrows.keeps _ hTable, hRest⟩
  · rw [hWord directory hHeld d (by omega)]
    exact h.entry d hd
  · rw [hWord (table d) (h.tables d hd).1 c hc]
    exact h.words d hd c hc

/-- One more table: the new page is neither the directory nor one of the
tables that are already there. -/
theorem DirectoryBuilt.round (h : DirectoryBuilt start k directory flags i table)
    (hFlags : flags < 256) (hi : i < 1024) (hGrant : GrantsPage k p k') :
    DirectoryBuilt start
      { k' with mem := pageDirectoryEntry directory flags i (4194304 * i) p k'.mem }
      directory flags (i + 1) (Function.update table i p) := by
  have hKeep := h.keep (by omega) hGrant.grows
  obtain ⟨hp, hpLow, hpHigh⟩ := hGrant.held.page hGrant.heap
  obtain ⟨hd, hdLow, hdHigh⟩ := h.page.1.page h.grows.heap
  have hDirectory : directory ≠ p := fun hSame => hGrant.fresh (hSame ▸ h.page.1)
  have hOld : ∀ d < i, table d ≠ p := fun d hd hSame => hGrant.fresh (hSame ▸ (h.tables d hd).1)
  have hNewFresh : ¬ Held start.heap p := fun hHeld => hGrant.fresh (h.grows.keeps p hHeld)
  have hTable : ∀ d < i, Function.update table i p d = table d := fun d hd =>
    Function.update_of_ne (by omega) ..
  obtain ⟨hOnly, _, hWords⟩ := pageTableLoop_words hp (by omega)
    (show 4194304 * i % 4096 = 0 by omega) (show flags < 4096 by omega) tableEntriesCount 0 (by decide) k'.mem
  have hStore := storeWord_pageOnly
    (pageTableLoop p (4194304 * i) flags tableEntriesCount 0 k'.mem)
    (p ||| flags ||| pagingIsWriteable) hd (by omega) hi
  have hLast : ∀ d, d < i + 1 → ¬ d < i → d = i := fun d _ _ => by omega
  refine ⟨?_, hKeep.page, fun d hdi => ?_, fun d hdi e hei => ?_, fun d hdi => ?_,
    fun d hdi c hc => ?_⟩
  · have hTableWritten := hKeep.grows.write hGrant.held hNewFresh hOnly
    have hEntry : PageOnly directory (pageTableLoop p (4194304 * i) flags tableEntriesCount 0 k'.mem)
        (pageDirectoryEntry directory flags i (4194304 * i) p k'.mem) := hStore
    exact hTableWritten.write hKeep.page.1 h.page.2 hEntry
  · by_cases hNew : d < i
    · rw [hTable d hNew]
      exact hKeep.tables d hNew
    · rw [hLast d hdi hNew, Function.update_self]
      exact ⟨hGrant.held, hNewFresh, hDirectory.symm⟩
  · by_cases hNewD : d < i
    · rw [hTable d hNewD]
      by_cases hNewE : e < i
      · rw [hTable e hNewE]
        exact h.distinct d hNewD e hNewE
      · rw [hLast e hei hNewE, Function.update_self]
        exact fun hSame => absurd hSame (hOld d hNewD)
    · rw [hLast d hdi hNewD, Function.update_self]
      by_cases hNewE : e < i
      · rw [hTable e hNewE]
        exact fun hSame => absurd hSame.symm (hOld e hNewE)
      · exact fun _ => (hLast e hei hNewE).symm
  · dsimp only [pageDirectoryEntry]
    by_cases hNew : d < i
    · rw [hTable d hNew, loadWord_storeWord_ne hi (by omega) (by omega)]
      exact (hOnly.word hd (by omega) hDirectory (by omega)).trans (hKeep.entry d hNew)
    · obtain ⟨low, hLow, hEntry⟩ := pagingIsWriteable_or hp hFlags
      rw [hLast d hdi hNew, Function.update_self]
      exact loadWord_storeWord (by omega)
  · dsimp only [pageDirectoryEntry]
    by_cases hNew : d < i
    · obtain ⟨ht, _, htHigh⟩ := (h.tables d hNew).1.page h.grows.heap
      rw [hTable d hNew]
      refine (hStore.word ht (by omega) (h.tables d hNew).2.2 hc).trans ?_
      exact (hOnly.word ht (by omega) (hOld d hNew) hc).trans (hKeep.words d hNew c hc)
    · rw [hLast d hdi hNew, Function.update_self]
      refine (hStore.word hp (by omega) hDirectory.symm hc).trans ?_
      rw [hWords c (Nat.zero_le c) (by unfold tableEntriesCount; omega), behind_of_lt (by unfold pageSize; omega)]
      unfold pageSize
      rw [Nat.mul_comm c 4096]

end Built

/-- Requests are all the loop does to the heap. -/
theorem pageDirectoryLoop_hasFree (directory flags left i offset : Nat) (k : KernelMemory)
    (h : HasFree (pageDirectoryLoop directory flags left i offset k).heap) : HasFree k.heap := by
  induction left generalizing i offset k with
  | zero => exact h
  | succ left ih =>
      have hHeap := kzalloc_heap k (4 * tableEntriesCount)
      rw [pageDirectoryLoop] at h
      generalize kzalloc k (4 * tableEntriesCount) = r at h hHeap
      obtain ⟨table, k'⟩ := r
      have hNext : HasFree k'.heap :=
        ih (i + 1) _ { k' with mem := pageDirectoryEntry directory flags i offset table k'.mem } h
      rw [show k'.heap = _ from hHeap] at hNext
      exact hNext.of_malloc

theorem pageDirectoryLoop_kernel (directory flags left i offset : Nat) (k : KernelMemory)
    (h : KernelHeap k.heap) : KernelHeap (pageDirectoryLoop directory flags left i offset k).heap := by
  induction left generalizing i offset k with
  | zero => exact h
  | succ left ih =>
      have hHeap := h.malloc (4 * tableEntriesCount)
      rw [← kzalloc_heap] at hHeap
      rw [pageDirectoryLoop]
      generalize kzalloc k (4 * tableEntriesCount) = r at hHeap ⊢
      obtain ⟨table, k'⟩ := r
      exact ih (i + 1) _ { k' with mem := pageDirectoryEntry directory flags i offset table k'.mem }
        hHeap

/-- The pages of the first `i` tables, and of the directory. -/
def directoryPages (directory i : Nat) (table : Nat → Nat) : List Nat :=
  (List.range i).map table ++ [directory]

theorem directoryPages_succ (directory i p : Nat) (table : Nat → Nat) :
    (p :: directoryPages directory i table).Perm
      (directoryPages directory (i + 1) (Function.update table i p)) := by
  have hOld : (List.range i).map (Function.update table i p) = (List.range i).map table :=
    List.map_congr_left fun d hd => Function.update_of_ne (Nat.ne_of_lt (List.mem_range.mp hd)) _ _
  unfold directoryPages
  rw [List.range_succ, List.map_append, hOld, List.map_singleton, Function.update_self,
    List.append_assoc]
  exact List.perm_middle.symm

/-- As long as the heap does not run out, the loop builds the tables that are
still missing. -/
theorem pageDirectoryLoop_built {start : KernelMemory} {directory flags : Nat}
    (hFlags : flags < 256) (left i offset : Nat) (hRoom : i + left = 1024)
    (hOffset : offset = 4194304 * i % 4294967296) (k : KernelMemory) {table : Nat → Nat}
    (h : DirectoryBuilt start k directory flags i table)
    (hTakes : Takes start.heap k.heap (directoryPages directory i table))
    (hFree : HasFree (pageDirectoryLoop directory flags left i offset k).heap) :
    ∃ table', DirectoryBuilt start (pageDirectoryLoop directory flags left i offset k) directory
        flags 1024 table' ∧
      Takes start.heap (pageDirectoryLoop directory flags left i offset k).heap
        (directoryPages directory 1024 table') := by
  induction left generalizing i offset k table with
  | zero =>
      obtain rfl : i = 1024 := by omega
      exact ⟨table, h, hTakes⟩
  | succ left ih =>
      have hHas := pageDirectoryLoop_hasFree _ _ _ _ _ _ hFree
      rcases kzalloc_page k (4 * tableEntriesCount) h.grows.heap (by decide)
        (by decide) with ⟨hFull, _⟩ | ⟨p, k', hGrant, _, hPage⟩
      · exact absurd hHas hFull
      · obtain rfl : offset = 4194304 * i := by omega
        have hNext : behind (4194304 * i) (tableEntriesCount * pageSize) =
            4194304 * (i + 1) % 4294967296 := by
          unfold behind tableEntriesCount pageSize
          omega
        have hTakes' := hTakes.kzalloc (by decide) (by decide) hHas hGrant
        rw [pageDirectoryLoop, hGrant] at hFree ⊢
        exact ih (i + 1) _ (by omega) hNext _ (h.round hFlags (by omega) hPage)
          (hTakes'.perm (directoryPages_succ directory i p table)) hFree

/-- All that `create_new_page_directory` leaves behind when it does not return
null: the directory with its tables, and the record that points to it. -/
structure DirectoryRecord (start k : KernelMemory) (chunk directory flags : Nat)
    (table : Nat → Nat) : Prop where
  built : DirectoryBuilt start k directory flags 1024 table
  record : Held k.heap chunk ∧ ¬ Held start.heap chunk
  recordApart : chunk ≠ directory ∧ ∀ d < 1024, chunk ≠ table d
  points : loadWord k.mem chunk = directory

/-- The record is a page of its own. -/
theorem DirectoryBuilt.record {start k k' : KernelMemory} {directory flags chunk : Nat}
    {table : Nat → Nat} (h : DirectoryBuilt start k directory flags 1024 table)
    (hGrant : GrantsPage k chunk k') :
    DirectoryRecord start { k' with mem := storeWord k'.mem chunk directory } chunk directory flags
      table := by
  obtain ⟨hAligned, _, hHigh⟩ := hGrant.held.page hGrant.heap
  obtain ⟨hDirectory, _, hDirectoryHigh⟩ := h.page.1.page h.grows.heap
  have hStore : PageOnly chunk k'.mem (storeWord k'.mem chunk directory) :=
    storeWord_pageOnly (i := 0) _ _ hAligned (by omega) (by decide)
  have hGrows : Grows k ⟨k'.heap, storeWord k'.mem chunk directory⟩ :=
    hGrant.grows.write hGrant.held hGrant.fresh hStore
  exact
    { built := h.keep (Nat.le_refl 1024) hGrows
      record := ⟨hGrant.held, fun hOld => hGrant.fresh (h.grows.keeps _ hOld)⟩
      recordApart := ⟨fun hSame => hGrant.fresh (hSame ▸ h.page.1),
        fun d hd hSame => hGrant.fresh (hSame ▸ (h.tables d hd).1)⟩
      points := loadWord_storeWord (by omega) }

/-- A record means that all the requests before it were granted as well. -/
theorem createNewPageDirectory_takes {k : KernelMemory} {flags : Nat} (hHeap : KernelHeap k.heap)
    (hFlags : flags < 256) (hChunk : (createNewPageDirectory k flags).1 ≠ 0) :
    ∃ directory table, DirectoryRecord k (createNewPageDirectory k flags).2
        (createNewPageDirectory k flags).1 directory flags table ∧
      Takes k.heap (createNewPageDirectory k flags).2.heap
        ((createNewPageDirectory k flags).1 :: directoryPages directory 1024 table) := by
  have hFirst := kzalloc_page k (4 * tableEntriesCount) hHeap (by decide) (by decide)
  revert hChunk
  rw [createNewPageDirectory]
  generalize hPair : kzalloc k (4 * tableEntriesCount) = r at hFirst
  obtain ⟨directory, k₁⟩ := r
  dsimp only
  generalize hLoop : pageDirectoryLoop directory flags tableEntriesCount 0 0 k₁ = k₂
  intro hChunk
  have hFree : HasFree k₂.heap := HasFree.of_kzalloc (by decide) (by decide) hChunk
  have hFree₁ : HasFree k₁.heap :=
    pageDirectoryLoop_hasFree directory flags tableEntriesCount 0 0 k₁ (by rw [hLoop]; exact hFree)
  rcases hFirst with ⟨hFull, hNone⟩ | ⟨p, k', hGrant, _, hPage⟩
  · obtain ⟨rfl, rfl⟩ := Prod.mk.inj hNone
    exact absurd hFree₁ hFull
  · obtain ⟨rfl, rfl⟩ := Prod.mk.inj hGrant
    have hNew : DirectoryBuilt k k₁ directory flags 0 fun _ => 0 :=
      { grows := hPage.grows
        page := ⟨hPage.held, hPage.fresh⟩
        tables := fun d hd => absurd hd (Nat.not_lt_zero d)
        distinct := fun d hd => absurd hd (Nat.not_lt_zero d)
        entry := fun d hd => absurd hd (Nat.not_lt_zero d)
        words := fun d hd => absurd hd (Nat.not_lt_zero d) }
    have hFirstPage := (Takes.refl hHeap).kzalloc (by decide) (by decide)
      (hFree₁.before_kzalloc hPair) hPair
    obtain ⟨table, hBuilt, hTakes⟩ := pageDirectoryLoop_built hFlags tableEntriesCount 0 0 (by decide)
      (by decide) k₁ hNew hFirstPage (by rw [hLoop]; exact hFree)
    rw [hLoop] at hBuilt hTakes
    rcases kzalloc_page k₂ 4 hBuilt.grows.heap (by decide) (by decide)
      with ⟨hFull, _⟩ | ⟨chunk, k₃, hRecord, _, hRecordPage⟩
    · exact absurd hFree hFull
    · rw [hRecord]
      exact ⟨directory, table, hBuilt.record hRecordPage,
        hTakes.kzalloc (by decide) (by decide) hFree hRecord⟩

theorem createNewPageDirectory_built {k : KernelMemory} {flags : Nat} (hHeap : KernelHeap k.heap)
    (hFlags : flags < 256) (hChunk : (createNewPageDirectory k flags).1 ≠ 0) :
    ∃ directory table, DirectoryRecord k (createNewPageDirectory k flags).2
      (createNewPageDirectory k flags).1 directory flags table := by
  obtain ⟨directory, table, hRecord, _⟩ := createNewPageDirectory_takes hHeap hFlags hChunk
  exact ⟨directory, table, hRecord⟩

/-- One request of the loop for each table takes one block. -/
theorem pageDirectoryLoop_card (directory flags left i offset : Nat) (k : KernelMemory) :
    (freeBlocks k.heap).card ≤
      (freeBlocks (pageDirectoryLoop directory flags left i offset k).heap).card + left := by
  induction left generalizing i offset k with
  | zero => exact Nat.le_refl _
  | succ left ih =>
      have hHeap := kzalloc_heap k (4 * tableEntriesCount)
      have hOne := @freeBlocks_malloc k.heap (4 * tableEntriesCount) (by decide) (by decide)
      rw [pageDirectoryLoop]
      generalize kzalloc k (4 * tableEntriesCount) = r at hHeap ⊢
      obtain ⟨table, k'⟩ := r
      have hRest := ih (i + 1) (behind offset (tableEntriesCount * pageSize))
        { k' with mem := pageDirectoryEntry directory flags i offset table k'.mem }
      dsimp only at hHeap hRest ⊢
      rw [← hHeap] at hOne
      omega

/-- A directory takes 1026 blocks at most. -/
theorem createNewPageDirectory_card (flags : Nat) (k : KernelMemory) :
    (freeBlocks k.heap).card ≤ (freeBlocks (createNewPageDirectory k flags).2.heap).card + 1026 := by
  have hFirst := @freeBlocks_malloc k.heap (4 * tableEntriesCount) (by decide) (by decide)
  rw [← kzalloc_heap] at hFirst
  rw [createNewPageDirectory]
  generalize kzalloc k (4 * tableEntriesCount) = r at hFirst ⊢
  obtain ⟨directory, k₁⟩ := r
  dsimp only at hFirst ⊢
  have hLoop := pageDirectoryLoop_card directory flags tableEntriesCount 0 0 k₁
  generalize pageDirectoryLoop directory flags tableEntriesCount 0 0 k₁ = k₂ at hLoop ⊢
  have hRecord := @freeBlocks_malloc k₂.heap 4 (by decide) (by decide)
  rw [← kzalloc_heap] at hRecord
  generalize kzalloc k₂ 4 = r at hRecord ⊢
  obtain ⟨chunk, k₃⟩ := r
  dsimp only at hRecord ⊢
  unfold tableEntriesCount at hLoop
  omega

/-- 1026 free blocks, wherever they are, are enough for a directory. -/
theorem createNewPageDirectory_room {k : KernelMemory} (flags : Nat) (hHeap : KernelHeap k.heap)
    (hRoom : 1026 ≤ (freeBlocks k.heap).card) : (createNewPageDirectory k flags).1 ≠ 0 := by
  have hKernel := hHeap.malloc (4 * tableEntriesCount)
  have hFirst := @freeBlocks_malloc k.heap (4 * tableEntriesCount) (by decide) (by decide)
  rw [← kzalloc_heap] at hKernel hFirst
  rw [createNewPageDirectory]
  generalize kzalloc k (4 * tableEntriesCount) = r at hKernel hFirst ⊢
  obtain ⟨directory, k₁⟩ := r
  dsimp only at hKernel hFirst ⊢
  have hLoop := pageDirectoryLoop_card directory flags tableEntriesCount 0 0 k₁
  have hLoopHeap := pageDirectoryLoop_kernel directory flags tableEntriesCount 0 0 k₁ hKernel
  generalize pageDirectoryLoop directory flags tableEntriesCount 0 0 k₁ = k₂ at hLoop hLoopHeap ⊢
  have hFree : HasFree k₂.heap := hasFree_of_card (by unfold tableEntriesCount at hLoop; omega)
  rcases kzalloc_page k₂ 4 hLoopHeap (by decide) (by decide)
    with ⟨hFull, _⟩ | ⟨chunk, k₃, hRecord, hNull, _⟩
  · exact absurd hFree hFull
  · rw [hRecord]
    exact hNull

/-- A run of 1026 free blocks in particular. -/
theorem createNewPageDirectory_granted {k : KernelMemory} {b : Int} (hHeap : KernelHeap k.heap)
    (flags : Nat) (hb : 0 ≤ b) (hEnd : b + (1026 : Nat) ≤ 25600)
    (h : FreeRun k.heap.table.entries b 1026) : (createNewPageDirectory k flags).1 ≠ 0 :=
  createNewPageDirectory_room flags hHeap (h.card hb (by rw [hHeap.total_eq]; exact hEnd))

/-- A new directory maps every page to itself. -/
theorem DirectoryBuilt.maps {start k : KernelMemory} {directory flags : Nat} {table : Nat → Nat}
    (h : DirectoryBuilt start k directory flags 1024 table) (hFlags : flags < 256) :
    Maps k.mem directory table fun v => v ||| flags := by
  obtain ⟨hAligned, _, hHigh⟩ := h.page.1.page h.grows.heap
  have hTables : PageTables k.mem directory table :=
    { aligned := hAligned
      lt := by omega
      entry := fun d hd => by
        obtain ⟨hTable, _, hTableHigh⟩ := (h.tables d hd).1.page h.grows.heap
        obtain ⟨low, hLow, hEntry⟩ := pagingIsWriteable_or hTable hFlags
        rw [h.entry d hd, hEntry, entryAddress_eq (by omega)]
        omega
      apart := fun d hd => (h.tables d hd).2.2
      distinct := h.distinct }
  refine { toPageTables := hTables, entries := fun v hv hvAligned => ?_ }
  rw [hTables.get hv hvAligned, entryPointer, h.words _ (by omega) _ (by omega)]
  congr 1
  omega

/-! ### Remapping -/

def getPageDirectoryEntry (mem : Memory) (chunk : Nat) : Nat := loadWord mem chunk

/-- The tables that the words of a directory point to. -/
def directoryTables (mem : Memory) (directory d : Nat) : Nat :=
  entryAddress (loadWord mem (directory + 4 * d))

/-- What happens to memory while a directory is in use: its entries are changed
through the functions of `paging.c`, or something else is written. -/
inductive RemapEvent where
  | mapTo (virt phys physEnd flags : Nat)
  | set (virt val : Nat)
  | other (mem : Memory)

/-- Other writes leave the directory and its tables alone. -/
inductive RemapStep (directory : Nat) : Memory → RemapEvent → Memory → Prop where
  | mapTo (mem : Memory) (virt phys physEnd flags : Nat) (hVirt : virt < 4294967296) :
      RemapStep directory mem (.mapTo virt phys physEnd flags)
        (pagingMapTo mem directory virt phys physEnd flags).2
  | set (mem : Memory) (virt val : Nat) (hVirt : virt < 4294967296) :
      RemapStep directory mem (.set virt val) (pagingSet mem directory virt val).2
  | other (mem mem' : Memory)
      (hApart : ∀ x < 4294967296,
        x / 4096 * 4096 = directory ∨ InTables (directoryTables mem directory) x →
          mem' x = mem x) :
      RemapStep directory mem (.other mem') mem'

/-- What `paging_map_to` promises for one call. Entries are looked up by the
number of the virtual page. -/
structure MapToCorrect (mem : Memory) (directory virt phys physEnd flags : Nat) : Prop where
  accepted : (pagingMapTo mem directory virt phys physEnd flags).1 = 0 ↔
    virt % 4096 = 0 ∧ phys % 4096 = 0 ∧ physEnd % 4096 = 0 ∧ phys ≤ physEnd
  mapped : (pagingMapTo mem directory virt phys physEnd flags).1 = 0 →
    ∀ i < (physEnd - phys) / 4096,
      pagingGet (pagingMapTo mem directory virt phys physEnd flags).2 directory
        ((virt / 4096 + i) % 1048576 * 4096) = (phys + 4096 * i) ||| flags
  translated : (pagingMapTo mem directory virt phys physEnd flags).1 = 0 →
    ∀ v < 4294967296, virt ≤ v → v < virt + (physEnd - phys) →
      pagingGetPhysicalAddress (pagingMapTo mem directory virt phys physEnd flags).2 directory v =
        phys + (v - virt)
  others : (pagingMapTo mem directory virt phys physEnd flags).1 = 0 →
    ∀ page < 1048576, (∀ i < (physEnd - phys) / 4096, page ≠ (virt / 4096 + i) % 1048576) →
      pagingGet (pagingMapTo mem directory virt phys physEnd flags).2 directory (page * 4096) =
        pagingGet mem directory (page * 4096)
  directoryEntries : ∀ d < 1024,
    loadWord (pagingMapTo mem directory virt phys physEnd flags).2 (directory + 4 * d) =
      loadWord mem (directory + 4 * d)
  refused : (pagingMapTo mem directory virt phys physEnd flags).1 ≠ 0 →
    (pagingMapTo mem directory virt phys physEnd flags).2 = mem

section Remap

variable {mem mem' : Memory} {directory : Nat} {table : Nat → Nat}

theorem PageTables.set_tablesOnly (h : PageTables mem directory table) {virt : Nat} (val : Nat)
    (hVirt : virt < 4294967296) : TablesOnly table mem (pagingSet mem directory virt val).2 := by
  by_cases hAligned : virt % 4096 = 0
  · rw [h.set val hVirt hAligned]
    intro x hx hOut
    apply storeRange_outside
    by_contra hInside
    exact hOut (h.entryPointer_inTables hVirt hx (by omega))
  · have hPage : isPageAligned virt = false := by simpa [isPageAligned, pageSize] using hAligned
    rw [pagingSet, hPage]
    exact TablesOnly.refl table mem

theorem PageTables.mapRange_tablesOnly (h : PageTables mem directory table) (flags count : Nat)
    {virt phys : Nat} (hVirt : virt < 4294967296) :
    TablesOnly table mem (pagingMapRange directory flags count mem virt phys).2 := by
  induction count generalizing mem virt phys with
  | zero => exact TablesOnly.refl table mem
  | succ count ih =>
      have hMap : TablesOnly table mem (pagingMap mem directory virt phys flags).2 := by
        rw [pagingMap]
        split_ifs
        · exact TablesOnly.refl table mem
        · exact h.set_tablesOnly _ hVirt
      rw [pagingMapRange]
      dsimp only
      split_ifs
      · exact hMap
      · exact hMap.trans (ih (h.of_tablesOnly hMap) (behind_lt _ _))

theorem PageTables.mapTo_tablesOnly (h : PageTables mem directory table)
    {virt : Nat} (phys physEnd flags : Nat) (hVirt : virt < 4294967296) :
    TablesOnly table mem (pagingMapTo mem directory virt phys physEnd flags).2 := by
  rw [pagingMapTo]
  split_ifs
  · exact TablesOnly.refl table mem
  · exact TablesOnly.refl table mem
  · exact TablesOnly.refl table mem
  · exact TablesOnly.refl table mem
  · exact h.mapRange_tablesOnly flags _ hVirt

theorem PageTables.step (h : PageTables mem directory table) {e : RemapEvent}
    (hStep : RemapStep directory mem e mem') : PageTables mem' directory table := by
  cases hStep with
  | mapTo virt phys physEnd flags hVirt =>
      exact h.of_tablesOnly (h.mapTo_tablesOnly phys physEnd flags hVirt)
  | set virt val hVirt => exact h.of_tablesOnly (h.set_tablesOnly val hVirt)
  | other mem' hApart => exact h.congr fun x hx hPage => hApart x hx (Or.inl hPage)

theorem pagingMapTo_refused (mem : Memory) (directory flags : Nat) {virt phys physEnd : Nat}
    (hBad : ¬ (virt % 4096 = 0 ∧ phys % 4096 = 0 ∧ physEnd % 4096 = 0 ∧ phys ≤ physEnd)) :
    pagingMapTo mem directory virt phys physEnd flags = (-einvarg, mem) := by
  rw [pagingMapTo]
  split_ifs with hVirt hPhys hEnd hOrder
  · rfl
  · rfl
  · rfl
  · rfl
  · unfold pageSize at hVirt hPhys hEnd
    exact absurd ⟨by omega, by omega, by omega, by omega⟩ hBad

/-- Behind every word of the directory there is a table, and no two tables are
the same: this is all that the mapping of a range relies on. -/
theorem PageTables.mapToCorrect (h : PageTables mem directory table)
    {virt phys physEnd flags : Nat} (hVirt : virt < 4294967296) (hPhys : phys < 4294967296)
    (hEnd : physEnd < 4294967296) (hFlags : flags < 4096) :
    MapToCorrect mem directory virt phys physEnd flags := by
  have hMaps := h.maps
  have hOnly := h.mapTo_tablesOnly phys physEnd flags hVirt
  have hDirectory : ∀ d < 1024,
      loadWord (pagingMapTo mem directory virt phys physEnd flags).2 (directory + 4 * d) =
        loadWord mem (directory + 4 * d) := fun _ hd =>
    h.pointer (fun _ hx hPage => h.directory_same hOnly hx hPage) hd
  by_cases hGood : virt % 4096 = 0 ∧ phys % 4096 = 0 ∧ physEnd % 4096 = 0 ∧ phys ≤ physEnd
  · obtain ⟨hVirtPage, hPhysPage, hEndPage, hOrder⟩ := hGood
    rcases hMaps.mapTo hFlags hVirtPage hVirt hPhysPage hPhys hEndPage with
      ⟨hWrong, _⟩ | ⟨_, mem', hMapped, hMaps', _⟩
    · omega
    · have hEntry : ∀ v < 4294967296, v % 4096 = 0 → pagingGet mem' directory v =
          if offsetFrom virt v < 4096 * ((physEnd - phys) / 4096) then
            behind phys (offsetFrom virt v) ||| flags
          else pagingGet mem directory v := fun v hv hvPage =>
        (hMaps'.entries v hv hvPage).trans
          (mapRange_eq _ (by omega) hVirtPage hVirt hPhys hv hvPage)
      rw [hMapped] at hDirectory
      refine
        { accepted := ?_
          mapped := fun _ i hi => ?_
          translated := fun _ v hv hLow hHigh => ?_
          others := fun _ page hPage hOut => ?_
          directoryEntries := ?_
          refused := fun hFail => ?_ }
      · rw [hMapped]
        exact ⟨fun _ => ⟨hVirtPage, hPhysPage, hEndPage, hOrder⟩, fun _ => rfl⟩
      · have hOffset : offsetFrom virt ((virt / 4096 + i) % 1048576 * 4096) = 4096 * i := by
          unfold offsetFrom toWord
          omega
        rw [hMapped, hEntry _ (by omega) (by omega), hOffset, if_pos (by omega),
          behind_of_lt (by omega)]
      · have hOffset : offsetFrom virt (v / 4096 * 4096) = v / 4096 * 4096 - virt := by
          unfold offsetFrom toWord
          omega
        have hPage := hMaps'.entries (v / 4096 * 4096) (by omega) (by omega)
        rw [hEntry _ (by omega) (by omega), hOffset, if_pos (by omega),
          behind_of_lt (by omega)] at hPage
        rw [hMapped, hMaps'.translate hv (by omega) (by omega) hFlags hPage.symm]
        omega
      · have hFar : ¬ offsetFrom virt (page * 4096) < 4096 * ((physEnd - phys) / 4096) := by
          intro hNear
          refine hOut (offsetFrom virt (page * 4096) / 4096) (by omega) ?_
          unfold offsetFrom toWord
          omega
        rw [hMapped, hEntry _ (by omega) (by omega), if_neg hFar]
      · rw [hMapped]
        exact hDirectory
      · rw [hMapped] at hFail
        exact absurd rfl hFail
  · have hRefused := pagingMapTo_refused mem directory flags hGood
    have hCode : (pagingMapTo mem directory virt phys physEnd flags).1 ≠ 0 := by
      rw [hRefused]
      exact show -einvarg ≠ 0 by decide
    exact
      { accepted := ⟨fun hZero => absurd hZero hCode, fun hAligned => absurd hAligned hGood⟩
        mapped := fun hZero => absurd hZero hCode
        translated := fun hZero => absurd hZero hCode
        others := fun hZero => absurd hZero hCode
        directoryEntries := hDirectory
        refused := fun _ => by rw [hRefused] }

/-- On a directory that `create_new_page_directory` has built, however it was
remapped since, `paging_map_to` does what it promises. -/
theorem pagingMapTo_correct {k : KernelMemory} {built : Nat} (hHeap : KernelHeap k.heap)
    (hBuilt : built < 256) (hChunk : (createNewPageDirectory k built).1 ≠ 0)
    {events : List RemapEvent}
    (run : Transition.Run (RemapStep (getPageDirectoryEntry (createNewPageDirectory k built).2.mem
        (createNewPageDirectory k built).1))
      (createNewPageDirectory k built).2.mem events mem)
    {virt phys physEnd flags : Nat} (hVirt : virt < 4294967296) (hPhys : phys < 4294967296)
    (hEnd : physEnd < 4294967296) (hFlags : flags < 4096) :
    MapToCorrect mem (getPageDirectoryEntry (createNewPageDirectory k built).2.mem
      (createNewPageDirectory k built).1) virt phys physEnd flags := by
  obtain ⟨directory, table, hRecord⟩ := createNewPageDirectory_built hHeap hBuilt hChunk
  generalize createNewPageDirectory k built = r at hRecord run ⊢
  rw [getPageDirectoryEntry, hRecord.points] at run ⊢
  have hKeep : ∀ s e t, PageTables s directory table → RemapStep directory s e t →
      PageTables t directory table := fun _ _ _ hInv hStep => hInv.step hStep
  have hTables := run.invariant (hRecord.built.maps hBuilt).toPageTables hKeep
  exact hTables.mapToCorrect hVirt hPhys hEnd hFlags

/-- A new directory on an empty heap: a range across a 4 MB boundary is mapped. -/
theorem pagingMapTo_correct_empty :
    let k : KernelMemory := ⟨⟨⟨fun _ => 0, 25600, []⟩, 0x01000000⟩, fun _ => 0⟩
    let r := createNewPageDirectory k 5
    MapToCorrect r.2.mem (getPageDirectoryEntry r.2.mem r.1) 0x3FF000 0x01000000 0x01003000 7 := by
  have hGranted := createNewPageDirectory_granted
    (k := ⟨⟨⟨fun _ => 0, 25600, []⟩, 0x01000000⟩, fun _ => 0⟩) (b := 0) ⟨rfl, rfl⟩ 5
    (Int.le_refl 0) (by decide) fun _ _ _ => show entryTaken 0 = false by decide
  exact pagingMapTo_correct ⟨rfl, rfl⟩ (by decide) hGranted (Transition.Run.nil _) (by decide)
    (by decide) (by decide) (by decide)

end Remap

end LiebeOS
