import LiebeOS.Fs.PathLeak

/-! What an open file holds on the heap. Opening and closing release only what
no chain of blocks leads into, so the heap stays in order whatever is opened. -/
namespace LiebeOS

open Attempts MachineInt Bytes

/-- A heap of the kernel whose chains lead to blocks in use. -/
structure HeapInOrder (heap : Heap) : Prop where
  kernel : KernelHeap heap
  chained : Chained heap

section HeapInOrder

variable {heap : Heap}

theorem HeapInOrder.malloc (h : HeapInOrder heap) (size : Nat) :
    HeapInOrder (heapMalloc heap size).2 :=
  ⟨h.kernel.malloc size, h.chained.malloc size⟩

theorem HeapInOrder.free (h : HeapInOrder heap) {ptr : Nat} (hPtr : Unchained heap ptr) :
    HeapInOrder (heapFree heap ptr) :=
  ⟨h.kernel.free ptr, h.chained.free h.kernel hPtr⟩

end HeapInOrder

/-! ### The records of an item -/

/-- The entries of a directory are an allocation when there are any. -/
structure FatDirectoryRecord.Sound (heap : Heap) (d : FatDirectoryRecord) : Prop where
  directory : Owned heap d.directory
  entries : Unchained heap d.items
  owned : 0 < d.total → Owned heap d.items

def FatItem.Sound (heap : Heap) : FatItem → Prop
  | .file fatItem item _ => Owned heap fatItem ∧ Owned heap item
  | .directory fatItem record => Owned heap fatItem ∧ ∀ d, record = some d → d.Sound heap

/-- No chain leads into a record of the item. -/
def FatItem.Releasable (heap : Heap) : FatItem → Prop
  | .file fatItem item _ => Unchained heap fatItem ∧ Unchained heap item
  | .directory fatItem record =>
      Unchained heap fatItem ∧
        ∀ d, record = some d → Unchained heap d.directory ∧ Unchained heap d.items

/-- No record of the item was in use in `heap`. -/
def FatItem.Fresh (heap : Heap) (item : FatItem) : Prop :=
  ∀ r, Protected heap r →
    match item with
    | .file fatItem copy _ => blockOf fatItem ≠ r ∧ blockOf copy ≠ r
    | .directory fatItem record =>
        blockOf fatItem ≠ r ∧
          ∀ d, record = some d → blockOf d.directory ≠ r ∧ blockOf d.items ≠ r

/-- Requests have been made since `heap`: nothing that was in use has been
released. -/
structure TakenSince (heap heap' : Heap) : Prop where
  inOrder : HeapInOrder heap'
  keeps : ∀ r, Protected heap r → Protected heap' r

section TakenSince

variable {heap heap' heap'' : Heap} {ptr : Nat} {item : FatItem}

theorem TakenSince.refl (h : HeapInOrder heap) : TakenSince heap heap := ⟨h, fun _ hr => hr⟩

theorem TakenSince.trans (hFirst : TakenSince heap heap') (hSecond : TakenSince heap' heap'') :
    TakenSince heap heap'' :=
  ⟨hSecond.inOrder, fun r hr => hSecond.keeps r (hFirst.keeps r hr)⟩

theorem TakenSince.malloc (h : HeapInOrder heap) (size : Nat) : TakenSince heap (heapMalloc heap size).2 :=
  ⟨h.malloc size, fun _ hr => hr.malloc size⟩

theorem TakenSince.owned (h : TakenSince heap heap') (hPtr : Owned heap ptr) : Owned heap' ptr :=
  hPtr.imp id fun hStart => h.keeps _ hStart

theorem TakenSince.fresh (h : TakenSince heap heap') (hItem : item.Fresh heap') : item.Fresh heap :=
  fun r hr => hItem r (h.keeps r hr)

theorem HeapInOrder.malloc_fresh (h : HeapInOrder heap) (size : Nat) {r : Int}
    (hr : Protected heap r) : blockOf (heapMalloc heap size).1 ≠ r := by
  rw [← h.kernel.block]
  exact hr.malloc_apart h.kernel size

theorem FatItem.Sound.releasable (h : item.Sound heap) : item.Releasable heap := by
  cases item with
  | file fatItem copy entry => exact ⟨h.1.unchained, h.2.unchained⟩
  | directory fatItem record =>
      exact ⟨h.1.unchained, fun d hd => ⟨(h.2 d hd).directory.unchained, (h.2 d hd).entries⟩⟩

theorem FatItem.Releasable.free (h : item.Releasable heap) (hHeap : HeapInOrder heap) (q : Nat) :
    item.Releasable (heapFree heap q) := by
  cases item with
  | file fatItem copy entry => exact ⟨h.1.free hHeap.kernel q, h.2.free hHeap.kernel q⟩
  | directory fatItem record =>
      exact ⟨h.1.free hHeap.kernel q,
        fun d hd => ⟨(h.2 d hd).1.free hHeap.kernel q, (h.2 d hd).2.free hHeap.kernel q⟩⟩

theorem FatItem.Releasable.malloc_one (h : item.Releasable heap) {size : Nat}
    (hPage : size ≤ 4096) : item.Releasable (heapMalloc heap size).2 := by
  cases item with
  | file fatItem copy entry => exact ⟨h.1.malloc_one hPage, h.2.malloc_one hPage⟩
  | directory fatItem record =>
      exact ⟨h.1.malloc_one hPage,
        fun d hd => ⟨(h.2 d hd).1.malloc_one hPage, (h.2 d hd).2.malloc_one hPage⟩⟩

end TakenSince

/-! ### Requests while a path is walked -/

section Walk

variable {heap : Heap}

theorem createPathNodes_taken (left : Nat) (path : List UInt8) (h : HeapInOrder heap) :
    (createPathNodes left heap path).Ensures fun res => TakenSince heap res.2 := by
  induction left generalizing heap path with
  | zero => exact Attempt.ensures_returned (TakenSince.refl h)
  | succ left ih =>
      rw [createPathNodes]
      split_ifs
      · exact Attempt.ensures_returned (TakenSince.refl h)
      · exact Attempt.ensures_undefined
      · have hStr := TakenSince.malloc h liebeOsMaxPathLen
        have hNode := hStr.trans (TakenSince.malloc hStr.inOrder 8)
        exact Attempt.ensures_bind (ih (pathRest path) hNode.inOrder) fun res hRes =>
          Attempt.ensures_returned (hNode.trans hRes)

theorem pathparserParse_taken (path : List UInt8) (h : HeapInOrder heap) :
    (pathparserParse heap path).Ensures fun res => TakenSince heap res.2 := by
  rw [pathparserParse]
  split_ifs
  · exact Attempt.ensures_returned (TakenSince.refl h)
  · have hRoot := TakenSince.malloc h 8
    exact Attempt.ensures_bind (createPathNodes_taken _ _ hRoot.inOrder) fun res hRes =>
      Attempt.ensures_returned (hRoot.trans hRes)

theorem fat16LoadFatDirectory_sound (v : FatVolume) (entry : FatDirectoryItem)
    (h : HeapInOrder heap) :
    (fat16LoadFatDirectory v heap entry).Ensures fun res =>
      TakenSince heap res.2 ∧ ∀ d, res.1 = some d → d.Sound res.2 ∧
        ∀ r, Protected heap r → blockOf d.directory ≠ r ∧ blockOf d.items ≠ r := by
  have hDirectory := TakenSince.malloc h 16
  have hOwned : Owned (heapMalloc heap 16).2 (heapMalloc heap 16).1 :=
    h.chained.malloc_owned h.kernel (by decide) (by decide)
  rw [fat16LoadFatDirectory]
  dsimp only
  split_ifs
  · exact Attempt.ensures_returned ⟨hDirectory, fun d hd => by cases hd⟩
  · cases v.subdirectory entry.firstCluster with
    | none => exact Attempt.ensures_endless
    | some answer =>
        have hItems := hDirectory.trans
          (TakenSince.malloc hDirectory.inOrder (toWord (answer.1 * 32)))
        have hFree := hDirectory.inOrder.chained.malloc_unchained hDirectory.inOrder.kernel
          (toWord (answer.1 * 32))
        dsimp only
        split_ifs with hWrong
        · exact Attempt.ensures_undefined
        · refine Attempt.ensures_returned ⟨hItems, fun d hd => ?_⟩
          cases hd
          refine ⟨⟨hOwned.malloc _, hFree, fun hSome => ?_⟩, fun r hr => ⟨h.malloc_fresh 16 hr,
            hDirectory.inOrder.malloc_fresh _ (hDirectory.keeps r hr)⟩⟩
          rw [not_or, not_and] at hWrong
          by_cases hNull : (heapMalloc (heapMalloc heap 16).2 (toWord (answer.1 * 32))).1 = 0
          · exact Or.inl hNull
          · have hSmall := hWrong.1 hNull
            have hWord : (toWord (answer.1 * 32) : Int) = answer.1 * 32 :=
              toWord_of_range (by dsimp only at hSome; omega) (by omega)
            exact hDirectory.inOrder.chained.malloc_owned hDirectory.inOrder.kernel
              (by dsimp only at hSome; omega) (by omega)

theorem fat16NewFatItem_sound (v : FatVolume) (entry : FatDirectoryItem) (h : HeapInOrder heap) :
    (fat16NewFatItemForDirectoryItem v heap entry).Ensures fun res =>
      TakenSince heap res.2 ∧ ∀ item, res.1 = some item → item.Sound res.2 ∧ item.Fresh heap := by
  have hItem := TakenSince.malloc h 8
  have hOwned : Owned (heapMalloc heap 8).2 (heapMalloc heap 8).1 :=
    h.chained.malloc_owned h.kernel (by decide) (by decide)
  rw [fat16NewFatItemForDirectoryItem]
  dsimp only
  split_ifs
  · exact Attempt.ensures_returned ⟨hItem, fun item hNone => by cases hNone⟩
  · refine Attempt.ensures_bind (fat16LoadFatDirectory_sound v entry hItem.inOrder)
      fun res hRes => Attempt.ensures_returned ⟨hItem.trans hRes.1, fun item hSome => ?_⟩
    cases hSome
    exact ⟨⟨hRes.1.owned hOwned, fun d hd => (hRes.2 d hd).1⟩,
      fun r hr => ⟨h.malloc_fresh 8 hr, fun d hd => (hRes.2 d hd).2 r (hItem.keeps r hr)⟩⟩
  · have hCopy := TakenSince.malloc hItem.inOrder 32
    refine Attempt.ensures_returned ⟨hItem.trans hCopy, fun item hSome => ?_⟩
    cases hSome
    exact ⟨⟨hCopy.owned hOwned, hItem.inOrder.chained.malloc_owned hItem.inOrder.kernel
        (by decide) (by decide)⟩,
      fun r hr => ⟨h.malloc_fresh 8 hr, hItem.inOrder.malloc_fresh 32 (hItem.keeps r hr)⟩⟩

theorem findItemLoop_sound (v : FatVolume) (directory : FatDirectoryRecord) (name : List UInt8)
    (left i : Nat) {start : Heap} {tmpItem : Option FatItem} (hTakenSince : TakenSince start heap)
    (hTmp : ∀ item, tmpItem = some item → item.Sound heap ∧ item.Fresh start) :
    (findItemLoop v directory name left i tmpItem heap).Ensures fun res =>
      TakenSince start res.2 ∧ ∀ item, res.1 = some item → item.Sound res.2 ∧ item.Fresh start := by
  induction left generalizing i tmpItem heap with
  | zero => exact Attempt.ensures_returned ⟨hTakenSince, hTmp⟩
  | succ left ih =>
      rw [findItemLoop]
      split_ifs
      · refine Attempt.ensures_bind
          (fat16NewFatItem_sound v (directory.item i) hTakenSince.inOrder) fun res hRes => ?_
        exact ih (i + 1) (hTakenSince.trans hRes.1) fun item hSome =>
          ⟨(hRes.2 item hSome).1, hTakenSince.fresh (hRes.2 item hSome).2⟩
      · exact ih (i + 1) hTakenSince hTmp

/-- Looking through an empty directory requests nothing. -/
theorem fat16FindItem_sound (v : FatVolume) (directory : FatDirectoryRecord) (name : List UInt8)
    (h : HeapInOrder heap) :
    (fat16FindItemInDirectory v heap (some directory) name).Ensures fun res =>
      TakenSince heap res.2 ∧ (∀ item, res.1 = some item → item.Sound res.2 ∧ item.Fresh heap) ∧
        (directory.total ≤ 0 → res = (none, heap)) := by
  rw [fat16FindItemInDirectory]
  split_ifs
  · exact Attempt.ensures_undefined
  · by_cases hEmpty : directory.total ≤ 0
    · rw [show directory.total.toNat = 0 by omega]
      refine Attempt.ensures_returned ⟨TakenSince.refl h, ?_, fun _ => rfl⟩
      intro item hNone
      cases hNone
    · have hNone : ∀ item, (none : Option FatItem) = some item → item.Sound heap ∧ item.Fresh heap := by
        intro item hSome
        cases hSome
      have hLoop := findItemLoop_sound v directory name directory.total.toNat 0 (TakenSince.refl h)
        hNone
      exact hLoop.imp fun res hRes => ⟨hRes.1, hRes.2, fun hZero => absurd hZero hEmpty⟩

end Walk

/-! ### Releasing an item -/

section Release

variable {heap : Heap} {item : FatItem}

theorem fat16FatItemFree_inOrder (h : HeapInOrder heap) (hItem : item.Releasable heap) :
    HeapInOrder (fat16FatItemFree heap item) := by
  cases item with
  | file fatItem copy entry =>
      have hCopy := h.free hItem.2
      exact hCopy.free (hItem.1.free h.kernel copy)
  | directory fatItem record =>
      cases record with
      | none => exact h.free hItem.1
      | some d =>
          obtain ⟨hDirectory, hItems⟩ := hItem.2 d rfl
          have hFirst : HeapInOrder (if d.items ≠ 0 then heapFree heap d.items else heap) ∧
              Unchained (if d.items ≠ 0 then heapFree heap d.items else heap) d.directory ∧
              Unchained (if d.items ≠ 0 then heapFree heap d.items else heap) fatItem := by
            split_ifs
            · exact ⟨h.free hItems, hDirectory.free h.kernel _, hItem.1.free h.kernel _⟩
            · exact ⟨h, hDirectory, hItem.1⟩
          have hSecond := hFirst.1.free hFirst.2.1
          exact hSecond.free (hFirst.2.2.free hFirst.1.kernel _)

/-- What survives every release survives that of an item. -/
theorem fat16FatItemFree_survives {P : Heap → Prop}
    (hFree : ∀ heap' q, P heap' → P (heapFree heap' q)) (h : P heap) :
    P (fat16FatItemFree heap item) := by
  cases item with
  | file fatItem copy entry => exact hFree _ _ (hFree _ _ h)
  | directory fatItem record =>
      cases record with
      | none => exact hFree _ _ h
      | some d =>
          have hFirst : P (if d.items ≠ 0 then heapFree heap d.items else heap) := by
            split_ifs
            · exact hFree _ _ h
            · exact h
          exact hFree _ _ (hFree _ _ hFirst)

theorem fat16FatItemFree_unchained {p : Nat} (hHeap : KernelHeap heap) (hp : Unchained heap p) :
    Unchained (fat16FatItemFree heap item) p :=
  (fat16FatItemFree_survives (P := fun heap' => KernelHeap heap' ∧ Unchained heap' p)
    (fun _ q h => ⟨h.1.free q, h.2.free h.1 q⟩) ⟨hHeap, hp⟩).2

/-- What survives the release of any pointer that was in use in `start`, or
null, survives the release of an item of that time. -/
theorem fat16FatItemFree_preserves {start : Heap} {P : Heap → Prop} (hItem : item.Sound start)
    (hFree : ∀ heap' q, P heap' → Owned start q → P (heapFree heap' q))
    (hSome : ∀ fatItem d, item = .directory fatItem (some d) → 0 < d.total) (h : P heap) :
    P (fat16FatItemFree heap item) := by
  cases item with
  | file fatItem copy entry => exact hFree _ _ (hFree _ _ h hItem.2) hItem.1
  | directory fatItem record =>
      cases record with
      | none => exact hFree _ _ h hItem.1
      | some d =>
          have hSound := hItem.2 d rfl
          have hFirst : P (if d.items ≠ 0 then heapFree heap d.items else heap) := by
            split_ifs
            · exact hFree _ _ h (hSound.owned (hSome fatItem d rfl))
            · exact h
          exact hFree _ _ (hFree _ _ hFirst hSound.directory) hItem.1

/-- Records that are new since `start` are not released with what was in use
then. -/
theorem FatItem.Sound.free {start : Heap} {q : Nat} (h : item.Sound heap)
    (hHeap : KernelHeap heap) (hFresh : item.Fresh start) (hq : Owned start q) :
    item.Sound (heapFree heap q) := by
  have hApart : ∀ {ptr : Nat}, (∀ r, Protected start r → blockOf ptr ≠ r) →
      q = 0 ∨ blockOf q ≠ blockOf ptr := fun {ptr} hNew =>
    hq.imp id fun hStart hSame => hNew _ hStart hSame.symm
  cases item with
  | file fatItem copy entry =>
      exact ⟨h.1.free hHeap (hApart fun r hr => (hFresh r hr).1),
        h.2.free hHeap (hApart fun r hr => (hFresh r hr).2)⟩
  | directory fatItem record =>
      refine ⟨h.1.free hHeap (hApart fun r hr => (hFresh r hr).1), fun d hd => ?_⟩
      have hSound := h.2 d hd
      exact ⟨hSound.directory.free hHeap (hApart fun r hr => ((hFresh r hr).2 d hd).1),
        hSound.entries.free hHeap q,
        fun hSome => (hSound.owned hSome).free hHeap (hApart fun r hr => ((hFresh r hr).2 d hd).2)⟩

theorem directoryEntryLoop_sound (v : FatVolume) (path : List PathPart) {item : Option FatItem}
    (h : HeapInOrder heap) (hItem : ∀ it, item = some it → it.Sound heap) :
    (directoryEntryLoop v path item heap).Ensures fun res =>
      HeapInOrder res.2 ∧ ∀ it, res.1 = some it → it.Sound res.2 := by
  induction path generalizing item heap with
  | nil => exact Attempt.ensures_returned ⟨h, hItem⟩
  | cons part rest ih =>
      cases item with
      | none => exact Attempt.ensures_undefined
      | some current =>
          cases current with
          | file fatItem copy entry =>
              refine Attempt.ensures_returned ⟨h, ?_⟩
              intro it hNone
              cases hNone
          | directory fatItem record =>
              cases record with
              | none => exact Attempt.ensures_undefined
              | some d =>
                  have hCurrent := hItem _ rfl
                  refine Attempt.ensures_bind (fat16FindItem_sound v d part.part h)
                    fun res hRes => ?_
                  obtain ⟨hTakenSince, hFound, hEmpty⟩ := hRes
                  have hReleasable : FatItem.Releasable res.2 (.directory fatItem (some d)) := by
                    by_cases hZero : d.total ≤ 0
                    · rw [hEmpty hZero]
                      exact hCurrent.releasable
                    · refine ⟨(hTakenSince.owned hCurrent.1).unchained, fun d' hd' => ?_⟩
                      cases hd'
                      exact ⟨(hTakenSince.owned (hCurrent.2 d rfl).directory).unchained,
                        (hTakenSince.owned ((hCurrent.2 d rfl).owned (by omega))).unchained⟩
                  refine ih (fat16FatItemFree_inOrder hTakenSince.inOrder hReleasable)
                    fun it hSome => ?_
                  have hTotal : 0 < d.total := by
                    by_contra hZero
                    rw [hEmpty (by omega)] at hSome
                    cases hSome
                  obtain ⟨hSound, hFresh⟩ := hFound it hSome
                  refine (fat16FatItemFree_preserves
                    (P := fun heap' => KernelHeap heap' ∧ it.Sound heap') hCurrent ?_ ?_
                    ⟨hTakenSince.inOrder.kernel, hSound⟩).2
                  · exact fun heap' q hHeap' hq =>
                      ⟨hHeap'.1.free q, hHeap'.2.free hHeap'.1 hFresh hq⟩
                  · intro f d' hSame
                    cases hSame
                    exact hTotal

end Release

/-! ### Opening -/

/-- A request of one block that is granted is an allocation from then on. -/
theorem HeapInOrder.malloc_keeps {heap : Heap} (h : HeapInOrder heap) {size : Nat} (hSize : 1 ≤ size)
    (hPage : size ≤ 4096) (hNull : (heapMalloc heap size).1 ≠ 0) :
    Keeps (blockOf (heapMalloc heap size).1) 1 (heapMalloc heap size).2 := by
  have hFree : HasFree heap := by
    rcases heapMalloc_one heap hSize hPage with ⟨_, hNone⟩ | ⟨b, hb, hEntry, _⟩
    · rw [hNone] at hNull
      exact absurd rfl hNull
    · exact ⟨b, hb, hEntry⟩
  obtain ⟨c, _, hAllotted, hAddress⟩ :=
    heapMalloc_allotted h.chained h.kernel hSize hPage hFree
  have hInside := hAllotted.inside
  rw [(heapMalloc_shape heap size).2] at hInside
  have hBlock : blockOf (heapMalloc heap size).1 = c := by
    rw [hAddress]
    exact h.kernel.blockOf_address ⟨hInside.1, by omega⟩
  rw [hBlock]
  exact ⟨h.kernel.malloc size, hAllotted⟩

/-- The records behind an open descriptor. Those of a file are allocations. -/
structure RecordsHeld (heap : Heap) (desc pvt : Nat) (item : FatItem) : Prop where
  desc : Owned heap desc
  pvt : Owned heap pvt
  releasable : item.Releasable heap
  file : ∀ fatItem copy entry, item = .file fatItem copy entry →
    Owned heap fatItem ∧ Owned heap copy

/-- They do not lie in the `n` blocks from block `r` on. -/
structure RecordsBeside (r : Int) (n desc pvt : Nat) (item : FatItem) : Prop where
  desc : Beside r n desc
  pvt : Beside r n pvt
  elsewhere : item.Elsewhere r n

theorem fat16GetDirectoryEntry_sound (v : FatVolume) (path : List PathPart) {heap : Heap}
    (h : HeapInOrder heap) : (fat16GetDirectoryEntry v heap path).Ensures fun res =>
      HeapInOrder res.2 ∧ ∀ it, res.1 = some it → it.Sound res.2 := by
  cases path with
  | nil => exact Attempt.ensures_undefined
  | cons first rest =>
      refine Attempt.ensures_bind (fat16FindItem_sound v v.rootDirectory first.part h)
        fun res hRes => ?_
      obtain ⟨item, heap'⟩ := res
      cases item with
      | none =>
          refine Attempt.ensures_returned ⟨hRes.1.inOrder, ?_⟩
          intro it hNone
          cases hNone
      | some item =>
          exact directoryEntryLoop_sound v rest hRes.1.inOrder
            fun it hSome => (hRes.2.1 it hSome).1

theorem fat16GetDirectoryEntry_keeps (v : FatVolume) (path : List PathPart) {r : Int} {n : Nat}
    {heap : Heap} (h : Keeps r n heap) : (fat16GetDirectoryEntry v heap path).Ensures fun res =>
      Keeps r n res.2 ∧ ∀ it, res.1 = some it → it.Elsewhere r n := by
  cases path with
  | nil => exact Attempt.ensures_undefined
  | cons first rest =>
      refine Attempt.ensures_bind (fat16FindItem_keeps v (some v.rootDirectory) first.part h)
        fun res hRes => ?_
      obtain ⟨item, heap'⟩ := res
      cases item with
      | none =>
          refine Attempt.ensures_returned ⟨hRes.1, ?_⟩
          intro it hNone
          cases hNone
      | some item => exact directoryEntryLoop_keeps v rest hRes.1 hRes.2

/-- Without a record the address is an error. -/
theorem fat16Open_refused (v : FatVolume) (heap : Heap) (path : List PathPart) (mode : FileMode) :
    (fat16Open v heap path mode).Ensures fun res => res.2.1 = none → signed res.1 < 0 := by
  have hRefused : ∀ {code : Nat} {heap : Heap}, signed code < 0 → Attempt.Ensures
      (.returned (code, (none : Option FatFileDescriptor), heap)) fun res =>
      res.2.1 = none → signed res.1 < 0 :=
    fun hCode => Attempt.ensures_returned fun _ => hCode
  have hMemory : signed (toWord (-enomem)) < 0 := by decide
  have hMissing : signed (toWord (-eio)) < 0 := by decide
  have hReadOnly : signed (toWord (-erdonly)) < 0 := by decide
  cases mode with
  | write => exact hRefused hReadOnly
  | append => exact hRefused hReadOnly
  | invalid => exact hRefused hReadOnly
  | read =>
      rw [fat16Open]
      dsimp only
      split_ifs
      · exact hRefused hMemory
      · refine Attempt.ensures_bind (P := fun _ => True) (fun _ _ => trivial) fun res _ => ?_
        obtain ⟨item, heap'⟩ := res
        cases item with
        | none => exact hRefused hMissing
        | some item => exact Attempt.ensures_returned fun hNone => by cases hNone

theorem fat16Open_sound (v : FatVolume) (path : List PathPart) (mode : FileMode) {heap : Heap}
    (h : HeapInOrder heap) : (fat16Open v heap path mode).Ensures fun res =>
      HeapInOrder res.2.2 ∧
        ∀ record, res.2.1 = some record → Owned res.2.2 res.1 ∧ record.item.Sound res.2.2 := by
  have hRefused : ∀ (code : Nat) {heap : Heap}, HeapInOrder heap → Attempt.Ensures
      (.returned (code, (none : Option FatFileDescriptor), heap)) fun res =>
      HeapInOrder res.2.2 ∧
        ∀ record, res.2.1 = some record → Owned res.2.2 res.1 ∧ record.item.Sound res.2.2 :=
    fun code heap hHeap => Attempt.ensures_returned ⟨hHeap, fun record hNone => by cases hNone⟩
  cases mode with
  | write => exact hRefused _ h
  | append => exact hRefused _ h
  | invalid => exact hRefused _ h
  | read =>
      rw [fat16Open]
      dsimp only
      have hDescriptor := h.malloc 8
      split_ifs with hNull
      · exact hRefused _ hDescriptor
      · have hKeeps := @HeapInOrder.malloc_keeps heap h 8 (by decide) (by decide) hNull
        have hBoth : (fat16GetDirectoryEntry v (heapMalloc heap 8).2 path).Ensures fun res =>
            (HeapInOrder res.2 ∧ ∀ it, res.1 = some it → it.Sound res.2) ∧
              Owned res.2 (heapMalloc heap 8).1 := fun res hRes =>
          ⟨fat16GetDirectoryEntry_sound v path hDescriptor res hRes,
            Or.inr (fat16GetDirectoryEntry_keeps v path hKeeps res hRes).1.block.protected⟩
        refine Attempt.ensures_bind hBoth fun res hRes => ?_
        obtain ⟨item, heap'⟩ := res
        cases item with
        | none => exact hRefused _ hRes.1.1
        | some item =>
            refine Attempt.ensures_returned ⟨hRes.1.1, fun record hSome => ?_⟩
            cases hSome
            exact ⟨hRes.2, hRes.1.2 item rfl⟩

theorem fat16Open_beside (v : FatVolume) (path : List PathPart) (mode : FileMode) {r : Int}
    {n : Nat} {heap : Heap} (h : Keeps r n heap) :
    (fat16Open v heap path mode).Ensures fun res =>
      Keeps r n res.2.2 ∧ ∀ record, res.2.1 = some record →
        Beside r n res.1 ∧ record.item.Elsewhere r n := by
  have hRefused : ∀ code : Nat, Attempt.Ensures
      (.returned (code, (none : Option FatFileDescriptor), heap)) fun res =>
      Keeps r n res.2.2 ∧ ∀ record, res.2.1 = some record →
        Beside r n res.1 ∧ record.item.Elsewhere r n :=
    fun code => Attempt.ensures_returned ⟨h, fun record hNone => by cases hNone⟩
  cases mode with
  | write => exact hRefused _
  | append => exact hRefused _
  | invalid => exact hRefused _
  | read =>
      obtain ⟨hDescriptor, hBeside⟩ := h.malloc 8
      rw [fat16Open]
      dsimp only
      split_ifs
      · exact Attempt.ensures_returned ⟨hDescriptor, fun record hNone => by cases hNone⟩
      · refine Attempt.ensures_bind (fat16GetDirectoryEntry_keeps v path hDescriptor)
          fun res hRes => ?_
        obtain ⟨item, heap'⟩ := res
        cases item with
        | none => exact Attempt.ensures_returned ⟨hRes.1, fun record hNone => by cases hNone⟩
        | some item =>
            refine Attempt.ensures_returned ⟨hRes.1, fun record hSome => ?_⟩
            cases hSome
            exact ⟨hBeside, hRes.2 item rfl⟩

/-! ### The descriptor that `fopen` returns -/

section Fopen

variable {d : MountedDisk} {s : FileSystem} {filename : List UInt8} {modeStr : List Char}

/-- What is known of the heap, and of the records behind the descriptor if there
is going to be one. -/
structure Answered (Inv : Heap → Prop) (Rec : Heap → Nat → Nat → FatItem → Prop)
    (s : FileSystem) (modeStr : List Char) (res : FopenAnswers × FileSystem) : Prop where
  heap : Inv res.2.heap
  table : res.2.table = s.table
  records : res.1.Opens modeStr → fileFreeSlot s.table ≠ none →
    Rec res.2.heap res.1.desc res.1.pvt (res.2.pvts res.1.pvt).item

variable {Inv : Heap → Prop} {Rec : Heap → Nat → Nat → FatItem → Prop}

theorem descriptorAnswers_answered {a : FopenAnswers} {heap : Heap}
    {record : Option FatFileDescriptor} (hHeap : Inv heap)
    (hRefused : record = none → signed a.pvt < 0)
    (hOpened : ∀ rec, record = some rec → Inv (heapMalloc heap 16).2 ∧
      Rec (heapMalloc heap 16).2 (heapMalloc heap 16).1 a.pvt rec.item) :
    Answered Inv Rec s modeStr (descriptorAnswers s a heap record) := by
  cases record with
  | none =>
      refine ⟨hHeap, rfl, fun hOpens => ?_⟩
      have hPvt := hOpens.2.2.2.2.2
      have hNegative := hRefused rfl
      exact absurd hPvt (by dsimp only [descriptorAnswers]; omega)
  | some rec =>
      obtain ⟨hInv, hRec⟩ := hOpened rec rfl
      rw [descriptorAnswers]
      dsimp only
      split_ifs with hFull
      · exact ⟨hHeap, rfl, fun _ hSlot => absurd hFull hSlot⟩
      · refine ⟨hInv, rfl, fun _ _ => ?_⟩
        dsimp only
        rw [Function.update_self]
        exact hRec

theorem pathAnswers_answered (root : PathRoot) {heap : Heap} (hHeap : Inv heap)
    (hOpen : ∀ mode, (fat16Open d.volume heap root.first mode).Ensures fun res =>
      Inv res.2.2 ∧ ∀ rec, res.2.1 = some rec →
        Inv (heapMalloc res.2.2 16).2 ∧
          Rec (heapMalloc res.2.2 16).2 (heapMalloc res.2.2 16).1 res.1 rec.item) :
    (pathAnswers d s root heap (fileGetModeByString modeStr)).Ensures
      (Answered Inv Rec s modeStr) := by
  unfold pathAnswers
  dsimp only
  generalize (if root.driveNo = 0 then d.disk else 0) = disk
  generalize (root.first.map PathPart.node).headD 0 = first
  have hCall : ∀ mode, (fat16Open d.volume heap root.first mode >>= fun res =>
      Attempt.returned (descriptorAnswers s ⟨root.root, first, disk, d.filesystem, res.1, 0⟩ res.2.2
        res.2.1)).Ensures (Answered Inv Rec s modeStr) := fun mode =>
    Attempt.ensures_bind (fun res hRes => (⟨hOpen mode res hRes,
      fat16Open_refused d.volume heap root.first mode res hRes⟩ : _ ∧ _)) fun res hRes =>
      Attempt.ensures_returned (descriptorAnswers_answered hRes.1.1 hRes.2 hRes.1.2)
  split_ifs with hMissing
  · refine Attempt.ensures_returned ⟨hHeap, rfl, fun hOpens => ?_⟩
    obtain ⟨hRoot, hFirst, hDisk, hFilesystem, _⟩ := hOpens
    rcases hMissing with h | h | h | h
    · exact absurd h hRoot
    · exact absurd h hFirst
    · exact absurd h hDisk
    · exact absurd h hFilesystem
  · cases hMode : fileGetModeByString modeStr with
    | invalid =>
        refine Attempt.ensures_returned ⟨hHeap, rfl, fun hOpens => ?_⟩
        exact absurd hMode hOpens.2.2.2.2.1
    | read => exact hCall .read
    | write => exact hCall .write
    | append => exact hCall .append

/-- The item that stands behind a descriptor. -/
def descriptorItem (s : FileSystem) (desc : Nat) : FatItem :=
  (s.pvts (s.table.records desc).file.pvt).item

/-- `fd` is not open, or its records are as `Rec` says. -/
def Described (Rec : Heap → Nat → Nat → FatItem → Prop) (s : FileSystem) (fd : Int) : Prop :=
  fileGetDescriptor s.table fd ≠ 0 →
    Rec s.heap (fileGetDescriptor s.table fd)
      (s.table.records (fileGetDescriptor s.table fd)).file.pvt
      (descriptorItem s (fileGetDescriptor s.table fd))

/-- A descriptor that is returned stands for the answers that were met. -/
theorem Answered.described {a : FopenAnswers} {s' : FileSystem}
    (h : Answered Inv Rec s modeStr (a, s')) :
    Described Rec { s' with table := (fopen s'.table a modeStr).2 } (fopen s'.table a modeStr).1 := by
  have hTable : s'.table = s.table := h.table
  intro hOpen
  unfold descriptorItem
  rw [hTable] at hOpen ⊢
  rcases fopen_cases s.table a modeStr with ⟨_, hNone⟩ | ⟨_, hNone⟩ | ⟨hOpens, i, hSlot, hFd⟩
  · rw [hNone] at hOpen
    exact absurd rfl hOpen
  · rw [hNone] at hOpen
    exact absurd rfl hOpen
  · have hSome : fileFreeSlot s.table ≠ none := by
      rw [hSlot]
      exact Option.some_ne_none i
    have hRec := h.records hOpens hSome
    rw [hFd] at hOpen ⊢
    dsimp only at hOpen hRec ⊢
    by_cases hLast : i < 511
    · rw [fileGetDescriptor_at _ hLast]
      dsimp only
      rw [Function.update_self, Function.update_self]
      exact hRec
    · rw [fileGetDescriptor_outside _ (by omega)] at hOpen
      exact absurd rfl hOpen

theorem fopenFile_described
    (hAnswers : (fopenAnswers d s filename modeStr).Ensures (Answered Inv Rec s modeStr)) :
    (fopenFile d s filename modeStr).Ensures fun res =>
      Inv res.2.heap ∧ Described Rec res.2 res.1 :=
  Attempt.ensures_bind hAnswers fun _ hRes => Attempt.ensures_returned ⟨hRes.heap, hRes.described⟩

/-- Opening keeps the heap in order. -/
theorem fopenFile_inOrder (h : HeapInOrder s.heap) :
    (fopenFile d s filename modeStr).Ensures fun res =>
      HeapInOrder res.2.heap ∧ Described RecordsHeld res.2 res.1 := by
  refine fopenFile_described (Attempt.ensures_bind (pathparserParse_taken filename h)
    fun res hRes => pathAnswers_answered res.1 hRes.inOrder fun mode => ?_)
  refine (fat16Open_sound d.volume res.1.first mode hRes.inOrder).imp fun opened hOpened => ?_
  obtain ⟨hHeap, hRecord⟩ := hOpened
  refine ⟨hHeap, fun rec hSome => ⟨hHeap.malloc 16, ?_⟩⟩
  obtain ⟨hPvt, hItem⟩ := hRecord rec hSome
  refine ⟨hHeap.chained.malloc_owned hHeap.kernel (by decide) (by decide), hPvt.malloc 16,
    hItem.releasable.malloc_one (by decide), fun fatItem copy entry hFile => ?_⟩
  rw [hFile] at hItem
  exact ⟨hItem.1.malloc 16, hItem.2.malloc 16⟩

/-- It takes no block of an allocation. -/
theorem fopenFile_beside {r : Int} {n : Nat} (h : Keeps r n s.heap) :
    (fopenFile d s filename modeStr).Ensures fun res =>
      Keeps r n res.2.heap ∧ Described (fun _ => RecordsBeside r n) res.2 res.1 := by
  have hParse : (pathparserParse s.heap filename).Ensures fun res => Keeps r n res.2 := by
    rw [pathparserParse]
    split_ifs
    · exact Attempt.ensures_returned h
    · exact Attempt.ensures_bind
        (createPathNodes_keeps filename.length (filename.drop 3) (h.malloc 8).1) fun res hRes =>
          Attempt.ensures_returned hRes
  refine fopenFile_described (Attempt.ensures_bind hParse fun res hRes =>
    pathAnswers_answered res.1 hRes fun mode => ?_)
  refine (fat16Open_beside d.volume res.1.first mode hRes).imp fun opened hOpened => ?_
  obtain ⟨hHeap, hRecord⟩ := hOpened
  refine ⟨hHeap, fun rec hSome => ⟨(hHeap.malloc 16).1, ?_⟩⟩
  obtain ⟨hPvt, hItem⟩ := hRecord rec hSome
  exact ⟨(hHeap.malloc 16).2, hPvt, hItem⟩

end Fopen

/-! ### Closing -/

section Fclose

variable {s : FileSystem} {fd : Int}

/-- Closing takes no block of an allocation that the descriptor does not hold. -/
theorem fcloseFile_keeps {r : Int} {n : Nat} (h : Keeps r n s.heap)
    (hRecords : Described (fun _ => RecordsBeside r n) s fd) : Keeps r n (fcloseFile s fd).2.heap := by
  rw [fcloseFile]
  dsimp only
  by_cases hClosed : fileGetDescriptor s.table fd = 0
  · rw [if_pos hClosed]
    exact h
  · obtain ⟨hDesc, hPvt, hItem⟩ := hRecords hClosed
    rw [if_neg hClosed]
    exact ((fat16FatItemFree_keeps h hItem).free hPvt).free hDesc

/-- Closing what is open releases what no chain leads into. -/
theorem fcloseFile_inOrder (h : HeapInOrder s.heap) (hRecords : Described RecordsHeld s fd) :
    HeapInOrder (fcloseFile s fd).2.heap := by
  rw [fcloseFile]
  dsimp only
  by_cases hClosed : fileGetDescriptor s.table fd = 0
  · rw [if_pos hClosed]
    exact h
  · obtain ⟨hDesc, hPvt, hItem, _⟩ := hRecords hClosed
    rw [if_neg hClosed]
    have hFreed := fat16FatItemFree_inOrder h hItem
    have hClose := hFreed.free (fat16FatItemFree_unchained h.kernel hPvt.unchained)
    exact hClose.free ((fat16FatItemFree_unchained h.kernel hDesc.unchained).free hFreed.kernel _)

end Fclose

end LiebeOS
