import LiebeOS.Fs.OpenedFile
import LiebeOS.Memory.TakenPages

/-! What holds of a heap whatever is requested and given back holds of it behind each call
that opens or closes a file. -/
namespace LiebeOS

open Attempts

/-- Every request and every release preserves `P`. -/
structure HeapLaw (P : Heap → Prop) : Prop where
  malloc : ∀ heap size, P heap → P (heapMalloc heap size).2
  free : ∀ heap ptr, P heap → P (heapFree heap ptr)

theorem freeClear_law : HeapLaw FreeClear :=
  ⟨fun _ size h => h.malloc size, fun _ ptr h => h.free ptr⟩

section Law

variable {P : Heap → Prop} {heap : Heap}

theorem HeapLaw.createPathNodes (law : HeapLaw P) (left : Nat) (path : List UInt8) (h : P heap) :
    (createPathNodes left heap path).Ensures fun res => P res.2 := by
  induction left generalizing heap path with
  | zero => exact Attempt.ensures_returned h
  | succ left ih =>
      rw [LiebeOS.createPathNodes]
      split_ifs
      · exact Attempt.ensures_returned h
      · exact Attempt.ensures_undefined
      · have hNode := law.malloc _ 8 (law.malloc _ liebeOsMaxPathLen h)
        exact Attempt.ensures_bind (ih (pathRest path) hNode) fun res hRes =>
          Attempt.ensures_returned hRes

theorem HeapLaw.pathparserParse (law : HeapLaw P) (path : List UInt8) (h : P heap) :
    (pathparserParse heap path).Ensures fun res => P res.2 := by
  rw [LiebeOS.pathparserParse]
  split_ifs
  · exact Attempt.ensures_returned h
  · exact Attempt.ensures_bind (law.createPathNodes _ _ (law.malloc _ 8 h)) fun res hRes =>
      Attempt.ensures_returned hRes

theorem HeapLaw.fat16LoadFatDirectory (law : HeapLaw P) (v : FatVolume) (entry : FatDirectoryItem)
    (h : P heap) : (fat16LoadFatDirectory v heap entry).Ensures fun res => P res.2 := by
  have hDirectory := law.malloc _ 16 h
  rw [LiebeOS.fat16LoadFatDirectory]
  dsimp only
  split_ifs
  · exact Attempt.ensures_returned hDirectory
  · cases v.subdirectory entry.firstCluster with
    | none => exact Attempt.ensures_endless
    | some answer =>
        dsimp only
        split_ifs
        · exact Attempt.ensures_undefined
        · exact Attempt.ensures_returned (law.malloc _ _ hDirectory)

theorem HeapLaw.fat16NewFatItem (law : HeapLaw P) (v : FatVolume) (entry : FatDirectoryItem)
    (h : P heap) : (fat16NewFatItemForDirectoryItem v heap entry).Ensures fun res => P res.2 := by
  have hItem := law.malloc _ 8 h
  rw [fat16NewFatItemForDirectoryItem]
  dsimp only
  split_ifs
  · exact Attempt.ensures_returned hItem
  · exact Attempt.ensures_bind (law.fat16LoadFatDirectory v entry hItem) fun res hRes =>
      Attempt.ensures_returned hRes
  · exact Attempt.ensures_returned (law.malloc _ 32 hItem)

theorem HeapLaw.findItemLoop (law : HeapLaw P) (v : FatVolume) (directory : FatDirectoryRecord)
    (name : List UInt8) (left i : Nat) (tmpItem : Option FatItem) (h : P heap) :
    (findItemLoop v directory name left i tmpItem heap).Ensures fun res => P res.2 := by
  induction left generalizing i tmpItem heap with
  | zero => exact Attempt.ensures_returned h
  | succ left ih =>
      rw [LiebeOS.findItemLoop]
      split_ifs
      · exact Attempt.ensures_bind (law.fat16NewFatItem v (directory.item i) h) fun res hRes =>
          ih (i + 1) _ hRes
      · exact ih (i + 1) _ h

theorem HeapLaw.fat16FindItem (law : HeapLaw P) (v : FatVolume)
    (directory : Option FatDirectoryRecord) (name : List UInt8) (h : P heap) :
    (fat16FindItemInDirectory v heap directory name).Ensures fun res => P res.2 := by
  cases directory with
  | none => exact Attempt.ensures_undefined
  | some directory =>
      rw [fat16FindItemInDirectory]
      split_ifs
      · exact Attempt.ensures_undefined
      · exact law.findItemLoop v directory name _ _ _ h

theorem HeapLaw.directoryEntryLoop (law : HeapLaw P) (v : FatVolume) (path : List PathPart)
    (item : Option FatItem) (h : P heap) :
    (directoryEntryLoop v path item heap).Ensures fun res => P res.2 := by
  induction path generalizing item heap with
  | nil => exact Attempt.ensures_returned h
  | cons part rest ih =>
      cases item with
      | none => exact Attempt.ensures_undefined
      | some current =>
          cases current with
          | file fatItem copy entry => exact Attempt.ensures_returned h
          | directory fatItem directory =>
              exact Attempt.ensures_bind (law.fat16FindItem v directory part.part h) fun res hRes =>
                ih _ (fat16FatItemFree_survives law.free hRes)

theorem HeapLaw.fat16GetDirectoryEntry (law : HeapLaw P) (v : FatVolume) (path : List PathPart)
    (h : P heap) : (fat16GetDirectoryEntry v heap path).Ensures fun res => P res.2 := by
  cases path with
  | nil => exact Attempt.ensures_undefined
  | cons first rest =>
      refine Attempt.ensures_bind (law.fat16FindItem v _ first.part h) fun res hRes => ?_
      obtain ⟨item, heap'⟩ := res
      cases item with
      | none => exact Attempt.ensures_returned hRes
      | some item => exact law.directoryEntryLoop v rest _ hRes

theorem HeapLaw.fat16Open (law : HeapLaw P) (v : FatVolume) (path : List PathPart)
    (mode : FileMode) (h : P heap) :
    (fat16Open v heap path mode).Ensures fun res => P res.2.2 := by
  cases mode with
  | write => exact Attempt.ensures_returned h
  | append => exact Attempt.ensures_returned h
  | invalid => exact Attempt.ensures_returned h
  | read =>
      have hDescriptor := law.malloc _ 8 h
      rw [LiebeOS.fat16Open]
      dsimp only
      split_ifs
      · exact Attempt.ensures_returned hDescriptor
      · refine Attempt.ensures_bind (law.fat16GetDirectoryEntry v path hDescriptor)
          fun res hRes => ?_
        obtain ⟨item, heap'⟩ := res
        cases item with
        | none => exact Attempt.ensures_returned hRes
        | some item => exact Attempt.ensures_returned hRes

theorem HeapLaw.fopenFile (law : HeapLaw P) {d : MountedDisk} {s : FileSystem}
    {filename : List UInt8} {modeStr : List Char} (h : P s.heap) :
    (fopenFile d s filename modeStr).Ensures fun res => P res.2.heap := by
  have hAnswers : (fopenAnswers d s filename modeStr).Ensures
      (Answered P (fun _ _ _ _ => True) s modeStr) :=
    Attempt.ensures_bind (law.pathparserParse filename h) fun res hRes =>
      pathAnswers_answered res.1 hRes fun mode =>
        (law.fat16Open d.volume res.1.first mode hRes).imp fun _ hOpened =>
          ⟨hOpened, fun _ _ => ⟨law.malloc _ 16 hOpened, trivial⟩⟩
  exact (fopenFile_described hAnswers).imp fun _ hRes => hRes.1

theorem HeapLaw.fcloseFile (law : HeapLaw P) {s : FileSystem} (h : P s.heap) (fd : Int) :
    P (fcloseFile s fd).2.heap := by
  rw [LiebeOS.fcloseFile]
  dsimp only
  split_ifs
  · exact h
  · exact law.free _ _ (law.free _ _ (fat16FatItemFree_survives law.free h))

end Law

end LiebeOS
