import LiebeOS.Fs.Fat16Open
import LiebeOS.Lib.Run

/-! The records of a parsed path are never given back: `fopen` does not call
`pathparser_free`. What `fopen` and `fclose` do free are records of their own,
so a block that was taken before stays in use through all of these calls. -/
namespace LiebeOS

open Attempts MachineInt Transition

/-! ### An allocation that stays -/

/-- The kernel's heap, in which the `n` blocks from block `r` on are allotted. -/
structure Keeps (r : Int) (n : Nat) (heap : Heap) : Prop where
  kernel : KernelHeap heap
  block : Allotted heap r n

section Keeps

variable {r : Int} {n : Nat} {heap : Heap}

theorem Keeps.malloc (h : Keeps r n heap) (size : Nat) :
    Keeps r n (heapMalloc heap size).2 ∧ Beside r n (heapMalloc heap size).1 :=
  ⟨⟨h.kernel.malloc size, h.block.malloc size⟩, h.block.malloc_beside h.kernel size⟩

theorem Keeps.free (h : Keeps r n heap) {ptr : Nat} (hBeside : Beside r n ptr) :
    Keeps r n (heapFree heap ptr) :=
  ⟨h.kernel.free ptr, h.block.free h.kernel hBeside⟩

end Keeps

def FatDirectoryRecord.Elsewhere (r : Int) (n : Nat) (d : FatDirectoryRecord) : Prop :=
  Beside r n d.directory ∧ Beside r n d.items

/-- No record of the item lies in the `n` blocks from block `r` on. -/
def FatItem.Elsewhere (r : Int) (n : Nat) : FatItem → Prop
  | .file fatItem item _ => Beside r n fatItem ∧ Beside r n item
  | .directory fatItem record =>
      Beside r n fatItem ∧ ∀ d, record = some d → d.Elsewhere r n

section Open

variable {r : Int} {n : Nat} {heap : Heap}

theorem createPathNodes_keeps (left : Nat) (path : List UInt8) (h : Keeps r n heap) :
    (createPathNodes left heap path).Ensures fun res => Keeps r n res.2 := by
  induction left generalizing heap path with
  | zero => exact Attempt.ensures_returned h
  | succ left ih =>
      rw [createPathNodes]
      split_ifs
      · exact Attempt.ensures_returned h
      · exact Attempt.ensures_undefined
      · have hStr := (h.malloc liebeOsMaxPathLen).1
        have hNode := (hStr.malloc 8).1
        exact Attempt.ensures_bind (ih (pathRest path) hNode) fun res hRes =>
          Attempt.ensures_returned hRes

theorem fat16LoadFatDirectory_keeps (v : FatVolume) (entry : FatDirectoryItem) (h : Keeps r n heap) :
    (fat16LoadFatDirectory v heap entry).Ensures fun res =>
      Keeps r n res.2 ∧ ∀ d, res.1 = some d → d.Elsewhere r n := by
  obtain ⟨hDirectory, hApart⟩ := h.malloc 16
  rw [fat16LoadFatDirectory]
  dsimp only
  split_ifs
  · exact Attempt.ensures_returned ⟨hDirectory, fun d hd => nomatch hd⟩
  · cases v.subdirectory entry.firstCluster with
    | none => exact Attempt.ensures_endless
    | some answer =>
        obtain ⟨hItems, hItemsApart⟩ := hDirectory.malloc (toWord (answer.1 * 32))
        dsimp only
        split_ifs
        · exact Attempt.ensures_undefined
        · refine Attempt.ensures_returned ⟨hItems, fun d hd => ?_⟩
          cases hd
          exact ⟨hApart, hItemsApart⟩

theorem fat16NewFatItem_keeps (v : FatVolume) (entry : FatDirectoryItem) (h : Keeps r n heap) :
    (fat16NewFatItemForDirectoryItem v heap entry).Ensures fun res =>
      Keeps r n res.2 ∧ ∀ item, res.1 = some item → item.Elsewhere r n := by
  obtain ⟨hItem, hApart⟩ := h.malloc 8
  rw [fat16NewFatItemForDirectoryItem]
  dsimp only
  split_ifs
  · exact Attempt.ensures_returned ⟨hItem, fun item hNone => nomatch hNone⟩
  · refine Attempt.ensures_bind (fat16LoadFatDirectory_keeps v entry hItem) fun res hRes => ?_
    refine Attempt.ensures_returned ⟨hRes.1, fun item hSome => ?_⟩
    cases hSome
    exact ⟨hApart, hRes.2⟩
  · obtain ⟨hCopy, hCopyApart⟩ := hItem.malloc 32
    refine Attempt.ensures_returned ⟨hCopy, fun item hSome => ?_⟩
    cases hSome
    exact ⟨hApart, hCopyApart⟩

theorem findItemLoop_keeps (v : FatVolume) (directory : FatDirectoryRecord) (name : List UInt8)
    (left i : Nat) {tmpItem : Option FatItem} (h : Keeps r n heap)
    (hTmp : ∀ item, tmpItem = some item → item.Elsewhere r n) :
    (findItemLoop v directory name left i tmpItem heap).Ensures fun res =>
      Keeps r n res.2 ∧ ∀ item, res.1 = some item → item.Elsewhere r n := by
  induction left generalizing i tmpItem heap with
  | zero => exact Attempt.ensures_returned ⟨h, hTmp⟩
  | succ left ih =>
      rw [findItemLoop]
      split_ifs
      · exact Attempt.ensures_bind (fat16NewFatItem_keeps v (directory.item i) h) fun res hRes =>
          ih (i + 1) hRes.1 hRes.2
      · exact ih (i + 1) h hTmp

theorem fat16FindItem_keeps (v : FatVolume) (directory : Option FatDirectoryRecord)
    (name : List UInt8) (h : Keeps r n heap) :
    (fat16FindItemInDirectory v heap directory name).Ensures fun res =>
      Keeps r n res.2 ∧ ∀ item, res.1 = some item → item.Elsewhere r n := by
  cases directory with
  | none => exact Attempt.ensures_undefined
  | some directory =>
      rw [fat16FindItemInDirectory]
      split_ifs
      · exact Attempt.ensures_undefined
      · exact findItemLoop_keeps v directory name _ _ h fun item hNone => nomatch hNone

theorem fat16FatItemFree_keeps {item : FatItem} (h : Keeps r n heap) (hItem : item.Elsewhere r n) :
    Keeps r n (fat16FatItemFree heap item) := by
  cases item with
  | file fatItem copy entry => exact (h.free hItem.2).free hItem.1
  | directory fatItem directory =>
      cases directory with
      | none => exact h.free hItem.1
      | some directory =>
          obtain ⟨hDirectory, hItems⟩ := hItem.2 directory rfl
          have hFreed : Keeps r n (if directory.items ≠ 0 then heapFree heap directory.items
              else heap) := by
            split_ifs
            · exact h.free hItems
            · exact h
          exact (hFreed.free hDirectory).free hItem.1

theorem directoryEntryLoop_keeps (v : FatVolume) (path : List PathPart) {item : Option FatItem}
    (h : Keeps r n heap) (hItem : ∀ it, item = some it → it.Elsewhere r n) :
    (directoryEntryLoop v path item heap).Ensures fun res =>
      Keeps r n res.2 ∧ ∀ it, res.1 = some it → it.Elsewhere r n := by
  induction path generalizing item heap with
  | nil => exact Attempt.ensures_returned ⟨h, hItem⟩
  | cons part rest ih =>
      cases item with
      | none => exact Attempt.ensures_undefined
      | some current =>
          cases current with
          | file fatItem copy entry =>
              exact Attempt.ensures_returned ⟨h, fun it hNone => nomatch hNone⟩
          | directory fatItem directory =>
              exact Attempt.ensures_bind (fat16FindItem_keeps v directory part.part h)
                fun res hRes => ih (fat16FatItemFree_keeps hRes.1 (hItem _ rfl)) hRes.2

theorem fat16Open_keeps (v : FatVolume) (path : List PathPart) (mode : FileMode)
    (h : Keeps r n heap) :
    (fat16Open v heap path mode).Ensures fun res => Keeps r n res.2.2 := by
  cases mode with
  | write => exact Attempt.ensures_returned h
  | append => exact Attempt.ensures_returned h
  | invalid => exact Attempt.ensures_returned h
  | read =>
      have hDescriptor := (h.malloc 8).1
      rw [fat16Open]
      dsimp only
      split_ifs
      · exact Attempt.ensures_returned hDescriptor
      · have hEntry : (fat16GetDirectoryEntry v (heapMalloc heap 8).2 path).Ensures fun res =>
            Keeps r n res.2 := by
          cases path with
          | nil => exact Attempt.ensures_undefined
          | cons first rest =>
              refine Attempt.ensures_bind (fat16FindItem_keeps v _ first.part hDescriptor)
                fun res hRes => ?_
              obtain ⟨item, heap'⟩ := res
              cases item with
              | none => exact Attempt.ensures_returned hRes.1
              | some item =>
                  exact (directoryEntryLoop_keeps v rest hRes.1 hRes.2).imp fun _ hAll => hAll.1
        refine Attempt.ensures_bind hEntry fun res hRes => ?_
        obtain ⟨item, heap'⟩ := res
        cases item with
        | none => exact Attempt.ensures_returned hRes
        | some item => exact Attempt.ensures_returned hRes

end Open

/-! ### One call of `fopen` -/

/-- Every component of the path fits into a block. -/
def partsFit : Nat → List UInt8 → Bool
  | 0, _ => true
  | left + 1, path =>
      path = [] ||
        ((pathComponent path).length < liebeOsHeapBlockSize && partsFit left (pathRest path))

/-- The call takes no record for a path: the path is refused by the parser, or
the heap has no block left. -/
def TakesNoPath (heap : Heap) (filename : List UInt8) : Prop :=
  isValidPath filename = false ∨
    (¬ HasFree heap ∧ partsFit filename.length (filename.drop 3) = true)

section Fopen

variable {d : MountedDisk} {s : FileSystem} {filename : List UInt8} {modeStr : List Char}

theorem descriptorAnswers_keeps {r : Int} {n : Nat} {heap : Heap} (a : FopenAnswers)
    (record : Option FatFileDescriptor) (h : Keeps r n heap) :
    Keeps r n (descriptorAnswers s a heap record).2.heap := by
  cases record with
  | none => exact h
  | some record =>
      rw [descriptorAnswers]
      dsimp only
      split_ifs
      · exact h
      · exact (h.malloc 16).1

theorem pathAnswers_keeps {r : Int} {n : Nat} {heap : Heap} (root : PathRoot) (mode : FileMode)
    (h : Keeps r n heap) : (pathAnswers d s root heap mode).Ensures fun res => Keeps r n res.2.heap := by
  unfold pathAnswers
  dsimp only
  generalize (if root.driveNo = 0 then d.disk else 0) = disk
  generalize (root.first.map PathPart.node).headD 0 = first
  have hOpen : ∀ mode, (fat16Open d.volume heap root.first mode >>= fun res =>
      Attempt.returned (descriptorAnswers s ⟨root.root, first, disk, d.filesystem, res.1, 0⟩ res.2.2
        res.2.1)).Ensures fun res => Keeps r n res.2.heap :=
    fun mode => Attempt.ensures_bind (fat16Open_keeps d.volume root.first mode h) fun res hRes =>
      Attempt.ensures_returned (descriptorAnswers_keeps _ _ hRes)
  split_ifs
  · exact Attempt.ensures_returned h
  · cases mode with
    | invalid => exact Attempt.ensures_returned h
    | read => exact hOpen .read
    | write => exact hOpen .write
    | append => exact hOpen .append

/-- The root of the path is taken before anything else, and it stays. -/
theorem fopenFile_keeps (hHeap : KernelHeap s.heap) (hChained : Chained s.heap)
    (hValid : isValidPath filename = true) (hFree : HasFree s.heap) :
    (fopenFile d s filename modeStr).Ensures fun res =>
      ∃ r, entryTaken (s.heap.table.entries r) = false ∧ Keeps r 1 res.2.heap := by
  obtain ⟨r, hEntry, hAllotted, _⟩ :=
    @heapMalloc_allotted s.heap hChained hHeap 8 (by decide) (by decide) hFree
  have hRoot : Keeps r 1 (heapMalloc s.heap 8).2 := ⟨hHeap.malloc 8, hAllotted⟩
  have hParse : (pathparserParse s.heap filename).Ensures fun res => Keeps r 1 res.2 := by
    rw [pathparserParse, hValid]
    exact Attempt.ensures_bind (createPathNodes_keeps filename.length (filename.drop 3) hRoot)
      fun res hRes => Attempt.ensures_returned hRes
  have hAnswers : (fopenAnswers d s filename modeStr).Ensures fun res => Keeps r 1 res.2.heap :=
    Attempt.ensures_bind hParse fun res hRes =>
      pathAnswers_keeps res.1 (fileGetModeByString modeStr) hRes
  exact Attempt.ensures_bind hAnswers fun res hRes =>
    Attempt.ensures_returned ⟨r, hEntry, hRes⟩

/-! ### Calls that take nothing -/

theorem createPathNodes_full {heap : Heap} (left : Nat) (path : List UInt8)
    (hFull : ¬ HasFree heap) (hFit : partsFit left path = true) :
    ∃ parts, createPathNodes left heap path = .returned (parts, heap) := by
  have hNone : ∀ size, 1 ≤ size → size ≤ 4096 → heapMalloc heap size = (0, heap) :=
    fun size hSize hPage => by
      rcases heapMalloc_one heap hSize hPage with ⟨_, hNone⟩ | ⟨b, hb, hFree, _⟩
      · exact hNone
      · exact absurd ⟨b, hb, hFree⟩ hFull
  induction left generalizing path with
  | zero => exact ⟨[], rfl⟩
  | succ left ih =>
      rw [createPathNodes, hNone liebeOsMaxPathLen (by decide) (by decide)]
      dsimp only
      rw [hNone 8 (by decide) (by decide)]
      by_cases hEnd : path = []
      · rw [if_pos hEnd]
        exact ⟨[], rfl⟩
      · rw [partsFit, Bool.or_eq_true, Bool.and_eq_true, decide_eq_true_eq, decide_eq_true_eq] at hFit
        obtain ⟨hShort, hRest⟩ := hFit.resolve_left hEnd
        obtain ⟨parts, hNodes⟩ := ih (pathRest path) hRest
        rw [if_neg hEnd, if_neg (by omega), hNodes]
        exact ⟨[], rfl⟩

/-- A component that does not fit is not survived. -/
theorem partsFit_of_returned {heap : Heap} (left : Nat) (path : List UInt8) :
    (createPathNodes left heap path).Ensures fun _ => partsFit left path = true := by
  induction left generalizing heap path with
  | zero => exact Attempt.ensures_returned rfl
  | succ left ih =>
      rw [createPathNodes, partsFit, Bool.or_eq_true, Bool.and_eq_true, decide_eq_true_eq,
        decide_eq_true_eq]
      by_cases hEnd : path = []
      · rw [if_pos hEnd]
        exact Attempt.ensures_returned (Or.inl hEnd)
      · rw [if_neg hEnd]
        by_cases hLong : liebeOsHeapBlockSize ≤ (pathComponent path).length
        · rw [if_pos hLong]
          exact Attempt.ensures_undefined
        · rw [if_neg hLong]
          exact Attempt.ensures_bind (ih (pathRest path)) fun _ hRest =>
            Attempt.ensures_returned (Or.inr ⟨by omega, hRest⟩)

theorem fopenFile_unchanged (hTakes : TakesNoPath s.heap filename) :
    fopenFile d s filename modeStr = .returned (0, s) := by
  have hParse : ∃ root, root.root = 0 ∧
      pathparserParse s.heap filename = .returned (root, s.heap) := by
    rw [pathparserParse]
    by_cases hValid : isValidPath filename = true
    · obtain ⟨hFull, hFit⟩ := hTakes.resolve_left (by rw [hValid]; decide)
      obtain ⟨parts, hNodes⟩ := createPathNodes_full filename.length (filename.drop 3) hFull hFit
      rcases @heapMalloc_one s.heap 8 (by decide) (by decide) with
        ⟨_, hNone⟩ | ⟨b, hb, hFree, _⟩
      · rw [hValid, hNone]
        dsimp only
        rw [hNodes]
        exact ⟨_, rfl, rfl⟩
      · exact absurd ⟨b, hb, hFree⟩ hFull
    · rw [Bool.not_eq_true] at hValid
      rw [hValid]
      exact ⟨_, rfl, rfl⟩
  obtain ⟨root, hRoot, hParse⟩ := hParse
  have hAnswers : ∃ a, a.root = 0 ∧
      pathAnswers d s root s.heap (fileGetModeByString modeStr) = .returned (a, s) := by
    unfold pathAnswers
    dsimp only
    rw [if_pos (Or.inl hRoot)]
    exact ⟨_, hRoot, rfl⟩
  obtain ⟨a, hNoRoot, hAnswers⟩ := hAnswers
  have hFopen : fopen s.table a modeStr = (0, s.table) := by
    rw [fopen, fopenResult, if_pos hNoRoot]
    exact if_pos (show -einvarg < 0 by decide)
  rw [fopenFile, fopenAnswers, hParse]
  change (pathAnswers d s root s.heap (fileGetModeByString modeStr) >>= _) = _
  rw [hAnswers]
  change Attempt.returned ((fopen s.table a modeStr).1,
    { s with table := (fopen s.table a modeStr).2 }) = _
  rw [hFopen]

/-- A call that returns leaves everything as it was exactly when it takes no
path, whatever its result. -/
theorem fopenFile_unchanged_iff (hHeap : KernelHeap s.heap) (hChained : Chained s.heap)
    {res : Int} {s' : FileSystem} (hCall : fopenFile d s filename modeStr = .returned (res, s')) :
    (s'.heap.table.entries = s.heap.table.entries ∧ s'.table = s.table) ↔
      TakesNoPath s.heap filename := by
  constructor
  · rintro ⟨hEntries, _⟩
    by_cases hValid : isValidPath filename = true
    · have hFull : ¬ HasFree s.heap := fun hFree => by
        obtain ⟨r, hEntry, hKeeps⟩ := fopenFile_keeps hHeap hChained hValid hFree (res, s') hCall
        have hTaken := hKeeps.block.protected.taken
        dsimp only at hTaken
        rw [hEntries, hEntry] at hTaken
        cases hTaken
      have hParse : (pathparserParse s.heap filename).Ensures fun _ =>
          partsFit filename.length (filename.drop 3) = true := by
        rw [pathparserParse, hValid]
        exact Attempt.ensures_bind (partsFit_of_returned _ _) fun _ hRest =>
          Attempt.ensures_returned hRest
      have hFit : (fopenFile d s filename modeStr).Ensures fun _ =>
          partsFit filename.length (filename.drop 3) = true :=
        Attempt.ensures_bind
          (Attempt.ensures_bind hParse fun _ hRest => fun _ _ => hRest) fun _ hRest =>
            Attempt.ensures_returned hRest
      exact Or.inr ⟨hFull, hFit _ hCall⟩
    · exact Or.inl (by simpa using hValid)
  · intro hTakes
    rw [fopenFile_unchanged hTakes] at hCall
    cases hCall
    exact ⟨rfl, rfl⟩

end Fopen

/-! ### Sequences of calls -/

/-- The file system together with the descriptors that the sequence has opened
and not closed yet. -/
structure FilesRun where
  files : FileSystem
  opened : Int → Bool

/-- `access` stands for `fread`, `fseek` and `fstat`. -/
inductive FilesEvent where
  | fopen (filename : List UInt8) (modeStr : List Char)
  | access (fd : Int)
  | fclose (fd : Int)

/-- Between opening and closing only positions change. A caller closes what it
has opened; any other number that it passes is not open. Anything can follow a
call that goes through a pointer that leads nowhere. -/
inductive FilesStep (d : MountedDisk) : FilesRun → FilesEvent → FilesRun → Prop where
  | fopen (s : FilesRun) (filename : List UInt8) (modeStr : List Char) (res : Int)
      (files : FileSystem) (hCall : fopenFile d s.files filename modeStr = .returned (res, files)) :
      FilesStep d s (.fopen filename modeStr)
        ⟨files, if 0 < res then Function.update s.opened res true else s.opened⟩
  | lost (s t : FilesRun) (filename : List UInt8) (modeStr : List Char)
      (hCall : fopenFile d s.files filename modeStr = .undefined) :
      FilesStep d s (.fopen filename modeStr) t
  | access (s : FilesRun) (fd : Int) (pvts : Nat → FatFileDescriptor)
      (hItems : ∀ p, (pvts p).item = (s.files.pvts p).item) :
      FilesStep d s (.access fd) ⟨{ s.files with pvts := pvts }, s.opened⟩
  | fclose (s : FilesRun) (fd : Int)
      (hOwn : s.opened fd = true ∨ fileGetDescriptor s.files.table fd = 0) :
      FilesStep d s (.fclose fd)
        ⟨(fcloseFile s.files fd).2,
          if (fcloseFile s.files fd).1 = 0 then Function.update s.opened fd false else s.opened⟩

/-- Every `fopen` of the sequence takes no path. -/
def FilesEventFree (s : FilesRun) : FilesEvent → Prop
  | .fopen filename _ => TakesNoPath s.files.heap filename
  | _ => True

/-- Nothing has been opened, and heap and table are those of the start. -/
structure NothingTaken (start : FileSystem) (s : FilesRun) : Prop where
  heap : s.files.heap = start.heap
  table : s.files.table = start.table
  opened : s.opened = fun _ => false

theorem NothingTaken.step {d : MountedDisk} {start : FileSystem} {s t : FilesRun} {e : FilesEvent}
    (h : NothingTaken start s) (hStep : Guarded (FilesStep d) FilesEventFree s e t) :
    NothingTaken start t := by
  obtain ⟨hFree, hStep⟩ := hStep
  cases hStep with
  | fopen filename modeStr res files hCall =>
      rw [fopenFile_unchanged hFree] at hCall
      cases hCall
      exact ⟨h.heap, h.table, h.opened⟩
  | lost t filename modeStr hCall =>
      rw [fopenFile_unchanged hFree] at hCall
      cases hCall
  | access fd pvts hItems => exact ⟨h.heap, h.table, h.opened⟩
  | fclose fd hOwn =>
      have hClosed : fileGetDescriptor s.files.table fd = 0 := by
        rcases hOwn with hOpen | hClosed
        · rw [h.opened] at hOpen
          cases hOpen
        · exact hClosed
      have hCall : fclose s.files.table fd 0 = (-eio, s.files.table) := by
        rw [fclose, fcloseCall, fileCall, hClosed]
        rfl
      have hFile : fcloseFile s.files fd = (-eio, s.files) := by
        rw [fcloseFile]
        dsimp only
        rw [if_pos hClosed, hCall]
      rw [hFile]
      exact ⟨h.heap, h.table, h.opened⟩

/-- A call of `fopen` leaves heap and descriptors alone exactly when it takes no
path, and a sequence whose calls all take none ends with the heap it began with. -/
theorem fileOperations_unchanged (d : MountedDisk) :
    (∀ (s : FileSystem) (filename : List UInt8) (modeStr : List Char) (s' : FileSystem),
      KernelHeap s.heap → Chained s.heap →
      fopenFile d s filename modeStr = .returned (0, s') →
        ((s'.heap.table.entries = s.heap.table.entries ∧ s'.table = s.table) ↔
          TakesNoPath s.heap filename)) ∧
    (∀ (start : FileSystem) (events : List FilesEvent) (s : FilesRun),
      Run (Guarded (FilesStep d) FilesEventFree) ⟨start, fun _ => false⟩ events s →
        (∀ fd, s.opened fd = false) → s.files.heap = start.heap) := by
  constructor
  · intro s filename modeStr s' hHeap hChained hCall
    exact fopenFile_unchanged_iff hHeap hChained hCall
  · intro start events s run _
    have hStart : NothingTaken start ⟨start, fun _ => false⟩ := ⟨rfl, rfl, rfl⟩
    have hKeep : ∀ s e t, NothingTaken start s → Guarded (FilesStep d) FilesEventFree s e t →
        NothingTaken start t := fun _ _ _ hInv hStep => hInv.step hStep
    exact (run.invariant hStart hKeep).heap

/-- A disk without files, and a heap of which nothing is in use. -/
def emptyDisk : MountedDisk :=
  ⟨⟨⟨0x01000000, 0x01001000, 0, fun _ => ⟨[], 0, 0, 0⟩⟩, fun _ => none⟩, 1, 1⟩

def freshFiles : FileSystem :=
  ⟨⟨⟨fun _ => 0, 25600, []⟩, 0x01000000⟩, noFiles.table, fun _ => ⟨.file 0 0 ⟨[], 0, 0, 0⟩, 0⟩⟩

theorem freshFiles_heap : KernelHeap freshFiles.heap ∧ Chained freshFiles.heap :=
  ⟨⟨rfl, rfl⟩, fun j _ _ hNext => absurd hNext (show ¬ entryHasNext 0 = true by decide)⟩

/-- `0:/x` -/
def missingFile : List UInt8 := [0x30, colon, slash, 0x78]

theorem missingFile_fails :
    ∃ s', fopenFile emptyDisk freshFiles missingFile ['r'] = .returned (0, s') := by
  have hFails : (match fopenFile emptyDisk freshFiles missingFile ['r'] with
      | .returned (res, _) => res == 0
      | _ => false) = true := by decide +kernel
  generalize fopenFile emptyDisk freshFiles missingFile ['r'] = call at hFails
  cases call with
  | returned r =>
      obtain ⟨res, s'⟩ := r
      obtain rfl : res = 0 := by simpa using hFails
      exact ⟨s', rfl⟩
  | endless => cases hFails
  | undefined => cases hFails

/-- A path without a drive is refused at no cost, alone and in a sequence. -/
theorem fileOperations_unchanged_refused :
    (∃ s', fopenFile emptyDisk freshFiles [0x78] ['r'] = .returned (0, s') ∧
      s'.heap.table.entries = freshFiles.heap.table.entries ∧ s'.table = freshFiles.table) ∧
    ∃ s, Run (Guarded (FilesStep emptyDisk) FilesEventFree) ⟨freshFiles, fun _ => false⟩
        [.fopen [0x78] ['r']] s ∧ s.files.heap = freshFiles.heap := by
  have hTakes : TakesNoPath freshFiles.heap [0x78] := Or.inl (by decide)
  have hCall := @fopenFile_unchanged emptyDisk freshFiles [0x78] ['r'] hTakes
  obtain ⟨hOne, hSequence⟩ := fileOperations_unchanged emptyDisk
  have hSame := (hOne freshFiles [0x78] ['r'] freshFiles freshFiles_heap.1 freshFiles_heap.2 hCall).mpr
    hTakes
  have run : Run (Guarded (FilesStep emptyDisk) FilesEventFree) ⟨freshFiles, fun _ => false⟩
      [.fopen [0x78] ['r']] _ := Run.single ⟨hTakes, FilesStep.fopen _ _ _ 0 freshFiles hCall⟩
  exact ⟨⟨freshFiles, hCall, hSame⟩, _, run, hSequence freshFiles _ _ run fun _ => rfl⟩

/-- Asking for a file that does not exist costs the records of the path. -/
theorem fopenFile_leaks :
    ¬ ∀ (d : MountedDisk) (s : FileSystem) (filename : List UInt8) (modeStr : List Char)
      (s' : FileSystem), KernelHeap s.heap → Chained s.heap →
      fopenFile d s filename modeStr = .returned (0, s') →
        s'.heap.table.entries = s.heap.table.entries ∧ s'.table = s.table := by
  intro hClaim
  obtain ⟨s', hCall⟩ := missingFile_fails
  have hSame := hClaim emptyDisk freshFiles missingFile ['r'] s' freshFiles_heap.1 freshFiles_heap.2
    hCall
  have hFree : HasFree freshFiles.heap :=
    ⟨0, ⟨Int.le_refl 0, by decide⟩, show entryTaken 0 = false by decide⟩
  obtain ⟨r, hEntry, hKeeps⟩ := fopenFile_keeps freshFiles_heap.1 freshFiles_heap.2 (by decide)
    hFree (0, s') hCall
  have hTaken := hKeeps.block.protected.taken
  dsimp only at hTaken
  rw [hSame.1, hEntry] at hTaken
  cases hTaken

end LiebeOS
