import Mathlib.Data.List.Find
import Mathlib.Logic.Function.Basic
import LiebeOS.Status
import LiebeOS.Lib.Words
import LiebeOS.Lib.Run
import LiebeOS.Lib.Slots

/-! The descriptor table of `file.c`. The layers below it, from the path parser
to the functions of the filesystem, are met through their answers. -/
namespace LiebeOS

open Bytes Transition

def liebeOsMaxFileDescriptors : Nat := 512

/-- What a descriptor stands for: the private data of one opened file. -/
structure OpenFile where
  filesystem : Nat
  pvt : Nat
  disk : Nat

structure FileDescriptor where
  index : Int
  file : OpenFile

/-- The slots hold addresses of records. A released record keeps its contents. -/
structure FileTable where
  fileDescriptors : Nat → Nat
  records : Nat → FileDescriptor

/-- The answers met by one `fopen`: the parsed path and its first part, the
disk and its filesystem, the result of the filesystem's own `open`, and the
memory for the descriptor. -/
structure FopenAnswers where
  root : Nat
  first : Nat
  disk : Nat
  filesystem : Nat
  pvt : Nat
  desc : Nat

inductive FileMode where
  | read
  | write
  | append
  | invalid

/-- How an operation on a descriptor ends: with an error of its own, or in the
function of the filesystem, called for the file of this descriptor. -/
inductive FileCall where
  | error (res : Int)
  | served (desc : FileDescriptor)

/-- The first free slot. -/
def fileFreeSlot (t : FileTable) : Option Nat :=
  (List.range liebeOsMaxFileDescriptors).find? fun i => t.fileDescriptors i = 0

/-- The record that `kzalloc` hands out is clear; at the null pointer there is
what was there before. -/
def fileClearRecord (t : FileTable) (desc : Nat) : FileDescriptor :=
  if desc = 0 then t.records 0 else ⟨0, ⟨0, 0, 0⟩⟩

/-- The result of `kzalloc` is not checked. -/
def fileNewDescriptor (t : FileTable) (desc : Nat) : Int × Nat × FileTable :=
  match fileFreeSlot t with
  | none => (-enomem, 0, t)
  | some i =>
      let record := { fileClearRecord t desc with index := (i : Int) + 1 }
      (0, desc,
        { fileDescriptors := Function.update t.fileDescriptors i desc
          records := Function.update t.records desc record })

def fileFreeDescriptor (t : FileTable) (desc : Nat) : FileTable :=
  { t with fileDescriptors :=
      Function.update t.fileDescriptors ((t.records desc).index - 1).toNat 0 }

/-- The address of the record, or null. -/
def fileGetDescriptor (t : FileTable) (fd : Int) : Nat :=
  if fd ≤ 0 ∨ liebeOsMaxFileDescriptors ≤ fd then 0 else t.fileDescriptors (fd - 1).toNat

/-- `strncmp(str, c, 1) == 0` for a string of one character -/
def startsWith (str : List Char) (c : Char) : Bool := str.head? == some c

def fileGetModeByString (str : List Char) : FileMode :=
  let mode := FileMode.invalid
  let mode := if startsWith str 'r' then .read else mode
  let mode := if startsWith str 'w' then .write else mode
  if startsWith str 'a' then .append else mode

/-- The end of `fopen`, when the filesystem has opened the file. -/
def fopenDescriptor (t : FileTable) (a : FopenAnswers) : Int × FileTable :=
  let (res, desc, t) := fileNewDescriptor t a.desc
  if res < 0 then (-eio, t)
  else
    let record := { t.records desc with file := ⟨a.filesystem, a.pvt, a.disk⟩ }
    (record.index, { t with records := Function.update t.records desc record })

/-- `fopen` up to its exit, where errors are turned into 0. -/
def fopenResult (t : FileTable) (a : FopenAnswers) (modeStr : List Char) : Int × FileTable :=
  if a.root = 0 then (-einvarg, t)
  else if a.first = 0 then (-einvarg, t)
  else if a.disk = 0 then (-eio, t)
  else if a.filesystem = 0 then (-eio, t)
  else
    match fileGetModeByString modeStr with
    | .invalid => (-einvarg, t)
    | _ => if signed a.pvt < 0 then (signed a.pvt, t) else fopenDescriptor t a

def fopen (t : FileTable) (a : FopenAnswers) (modeStr : List Char) : Int × FileTable :=
  let (res, t) := fopenResult t a modeStr
  if res < 0 then (0, t) else (res, t)

/-- The part that `fseek`, `fstat` and `fclose` share. -/
def fileCall (t : FileTable) (fd : Int) : FileCall :=
  let desc := fileGetDescriptor t fd
  if desc = 0 then .error (-eio) else .served (t.records desc)

def freadCall (t : FileTable) (size nmemb : Nat) (fd : Int) : FileCall :=
  if size = 0 ∨ nmemb = 0 ∨ fd < 1 then .error (-einvarg) else fileCall t fd

def fseekCall (t : FileTable) (fd : Int) : FileCall := fileCall t fd

def fstatCall (t : FileTable) (fd : Int) : FileCall := fileCall t fd

def fcloseCall (t : FileTable) (fd : Int) : FileCall := fileCall t fd

/-- `closed` is the answer of the filesystem. The descriptor is given up when
the answer is OK. -/
def fclose (t : FileTable) (fd : Int) (closed : Int) : Int × FileTable :=
  match fcloseCall t fd with
  | .error res => (res, t)
  | .served _ =>
      if closed = 0 then (closed, fileFreeDescriptor t (fileGetDescriptor t fd)) else (closed, t)

/-! ### Histories of opens and closes -/

/-- The table together with what the callers were told: which descriptors are
open, and for which file. -/
structure FileRun where
  table : FileTable
  opened : Int → Option OpenFile

inductive FileEvent where
  | fopen (a : FopenAnswers) (modeStr : List Char)
  | fclose (fd closed : Int)

/-- A positive result of `fopen` opens that descriptor for the caller. A
successful `fclose` ends it. -/
inductive FileStep : FileRun → FileEvent → FileRun → Prop where
  | fopen (s : FileRun) (a : FopenAnswers) (modeStr : List Char) :
      FileStep s (.fopen a modeStr)
        { table := (fopen s.table a modeStr).2
          opened := if 0 < (fopen s.table a modeStr).1 then
              Function.update s.opened (fopen s.table a modeStr).1
                (some ⟨a.filesystem, a.pvt, a.disk⟩)
            else s.opened }
  | fclose (s : FileRun) (fd closed : Int) :
      FileStep s (.fclose fd closed)
        { table := (fclose s.table fd closed).2
          opened := if (fclose s.table fd closed).1 = 0 then Function.update s.opened fd none
            else s.opened }

/-- Before the first call no slot is in use. -/
def noFiles : FileRun := ⟨⟨fun _ => 0, fun _ => ⟨0, ⟨0, 0, 0⟩⟩⟩, fun _ => none⟩

/-- The operations on descriptor `fd` reach the file `f`. -/
structure ServedBy (t : FileTable) (fd : Int) (f : OpenFile) : Prop where
  read : ∀ size nmemb, 0 < size → 0 < nmemb → freadCall t size nmemb fd = .served ⟨fd, f⟩
  seek : fseekCall t fd = .served ⟨fd, f⟩
  stat : fstatCall t fd = .served ⟨fd, f⟩
  close : fcloseCall t fd = .served ⟨fd, f⟩

/-- The operations on `fd` fail and leave the table alone. -/
structure Refused (t : FileTable) (fd : Int) : Prop where
  read : ∀ size nmemb, ∃ res < 0, freadCall t size nmemb fd = .error res
  seek : ∃ res < 0, fseekCall t fd = .error res
  stat : ∃ res < 0, fstatCall t fd = .error res
  close : ∀ closed, ∃ res < 0, fclose t fd closed = (res, t)

/-- A call of `fopen` returns the lowest descriptor that is not open, if it
returns one, and returns 0 when all of them are open. -/
structure OpensLowest (s : FileRun) (a : FopenAnswers) (modeStr : List Char) : Prop where
  free : 0 < (fopen s.table a modeStr).1 → s.opened (fopen s.table a modeStr).1 = none
  lowest : 0 < (fopen s.table a modeStr).1 → ∀ fd, 0 < fd → fd < (fopen s.table a modeStr).1 →
    s.opened fd ≠ none
  bounded : (fopen s.table a modeStr).1 ≤ 512
  full : (∀ fd, 1 ≤ fd → fd ≤ 512 → s.opened fd ≠ none) → (fopen s.table a modeStr).1 = 0

/-- What the table promises in one state. -/
structure FilesCorrect (s : FileRun) : Prop where
  served : ∀ fd f, s.opened fd = some f → ServedBy s.table fd f
  refused : ∀ fd, s.opened fd = none → Refused s.table fd
  opens : ∀ a modeStr, OpensLowest s a modeStr

/-- Every layer below the descriptor table answers well. -/
def FopenAnswers.Opens (a : FopenAnswers) (modeStr : List Char) : Prop :=
  a.root ≠ 0 ∧ a.first ≠ 0 ∧ a.disk ≠ 0 ∧ a.filesystem ≠ 0 ∧
    fileGetModeByString modeStr ≠ .invalid ∧ 0 ≤ signed a.pvt

/-- The descriptor that `fopen` is about to use is not the last one, and the
heap grants a record for it that is not in use. Calls that fail earlier, or
find every slot taken, do not matter. -/
def FileEventServed (s : FileRun) : FileEvent → Prop
  | .fopen a modeStr =>
      ¬ a.Opens modeStr ∨ fileFreeSlot s.table = none ∨
        ((∃ i < 511, s.table.fileDescriptors i = 0) ∧ a.desc ≠ 0 ∧
          ∀ i < 512, s.table.fileDescriptors i ≠ a.desc)
  | .fclose _ _ => True

/-! ### One call -/

section Calls

variable {t : FileTable} {a : FopenAnswers} {modeStr : List Char}

theorem fileFreeSlot_some {i : Nat} (h : fileFreeSlot t = some i) :
    i < 512 ∧ t.fileDescriptors i = 0 ∧ ∀ j < i, t.fileDescriptors j ≠ 0 :=
  Slots.find_some h

theorem fileFreeSlot_none (h : fileFreeSlot t = none) {i : Nat} (hi : i < 512) :
    t.fileDescriptors i ≠ 0 :=
  Slots.find_none h i hi

theorem fopenDescriptor_none (a : FopenAnswers) (h : fileFreeSlot t = none) :
    fopenDescriptor t a = (-eio, t) := by
  unfold fopenDescriptor fileNewDescriptor
  simp only [h]
  rfl

theorem fopenDescriptor_some (a : FopenAnswers) {i : Nat} (h : fileFreeSlot t = some i) :
    fopenDescriptor t a = ((i : Int) + 1,
      { fileDescriptors := Function.update t.fileDescriptors i a.desc
        records := Function.update t.records a.desc
          ⟨(i : Int) + 1, ⟨a.filesystem, a.pvt, a.disk⟩⟩ }) := by
  unfold fopenDescriptor fileNewDescriptor
  simp only [h, Function.update_self, Function.update_idem]
  rfl

theorem fopenResult_opens (h : a.Opens modeStr) :
    fopenResult t a modeStr = fopenDescriptor t a := by
  obtain ⟨hRoot, hFirst, hDisk, hFilesystem, hMode, hPvt⟩ := h
  rw [fopenResult, if_neg hRoot, if_neg hFirst, if_neg hDisk, if_neg hFilesystem,
    if_neg (Int.not_lt.mpr hPvt)]
  cases hCase : fileGetModeByString modeStr with
  | invalid => exact absurd hCase hMode
  | _ => rfl

theorem fopenResult_fails (h : ¬ a.Opens modeStr) : ∃ res < 0, fopenResult t a modeStr = (res, t) := by
  rw [fopenResult]
  by_cases hRoot : a.root = 0
  · exact ⟨-einvarg, by decide, if_pos hRoot⟩
  rw [if_neg hRoot]
  by_cases hFirst : a.first = 0
  · exact ⟨-einvarg, by decide, if_pos hFirst⟩
  rw [if_neg hFirst]
  by_cases hDisk : a.disk = 0
  · exact ⟨-eio, by decide, if_pos hDisk⟩
  rw [if_neg hDisk]
  by_cases hFilesystem : a.filesystem = 0
  · exact ⟨-eio, by decide, if_pos hFilesystem⟩
  rw [if_neg hFilesystem]
  by_cases hMode : fileGetModeByString modeStr = .invalid
  · rw [hMode]
    exact ⟨-einvarg, by decide, rfl⟩
  have hPvt : signed a.pvt < 0 := by
    by_contra hPvt
    exact h ⟨hRoot, hFirst, hDisk, hFilesystem, hMode, by omega⟩
  rw [if_pos hPvt]
  refine ⟨signed a.pvt, hPvt, ?_⟩
  cases hCase : fileGetModeByString modeStr with
  | invalid => exact absurd hCase hMode
  | _ => rfl

/-- The three ways through `fopen`. Without a free slot and after any earlier
failure it returns 0 and nothing has changed. -/
theorem fopen_cases (t : FileTable) (a : FopenAnswers) (modeStr : List Char) :
    (¬ a.Opens modeStr ∧ fopen t a modeStr = (0, t)) ∨
    (fileFreeSlot t = none ∧ fopen t a modeStr = (0, t)) ∨
    (a.Opens modeStr ∧ ∃ i : Nat, fileFreeSlot t = some i ∧
      fopen t a modeStr = ((i : Int) + 1,
        { fileDescriptors := Function.update t.fileDescriptors i a.desc
          records := Function.update t.records a.desc
            ⟨(i : Int) + 1, ⟨a.filesystem, a.pvt, a.disk⟩⟩ })) := by
  by_cases hOpens : a.Opens modeStr
  · cases hSlot : fileFreeSlot t with
    | none =>
        refine Or.inr (Or.inl ⟨rfl, ?_⟩)
        rw [fopen, fopenResult_opens hOpens, fopenDescriptor_none a hSlot]
        rfl
    | some i =>
        refine Or.inr (Or.inr ⟨hOpens, i, rfl, ?_⟩)
        rw [fopen, fopenResult_opens hOpens, fopenDescriptor_some a hSlot]
        exact if_neg (by omega)
  · obtain ⟨res, hRes, hResult⟩ := @fopenResult_fails t a modeStr hOpens
    refine Or.inl ⟨hOpens, ?_⟩
    rw [fopen, hResult]
    exact if_pos hRes

end Calls

/-! ### The table as a finite map -/

/-- The files that the descriptors stand for. -/
def openFiles (t : FileTable) (fd : Int) : Option OpenFile :=
  if fileGetDescriptor t fd = 0 then none
  else some (t.records (fileGetDescriptor t fd)).file

/-- Records know their descriptors, the last slot is not used, and the callers'
view of the table is the right one. -/
structure FilesInv (s : FileRun) : Prop where
  last : s.table.fileDescriptors 511 = 0
  index : ∀ i < 511, s.table.fileDescriptors i ≠ 0 →
    (s.table.records (s.table.fileDescriptors i)).index = (i : Int) + 1
  opened : s.opened = openFiles s.table

section Inv

variable {s : FileRun}

theorem fileGetDescriptor_at (t : FileTable) {i : Nat} (hi : i < 511) :
    fileGetDescriptor t ((i : Int) + 1) = t.fileDescriptors i := by
  have hIndex : ((i : Int) + 1 - 1).toNat = i := by omega
  rw [fileGetDescriptor, if_neg (by unfold liebeOsMaxFileDescriptors; omega), hIndex]

theorem fileGetDescriptor_outside (t : FileTable) {fd : Int} (h : fd < 1 ∨ 512 ≤ fd) :
    fileGetDescriptor t fd = 0 := by
  rw [fileGetDescriptor, if_pos (by unfold liebeOsMaxFileDescriptors; omega)]

/-- An open descriptor is the number of a slot in use. -/
theorem openFiles_some {t : FileTable} {fd : Int} {f : OpenFile} (h : openFiles t fd = some f) :
    ∃ i : Nat, i < 511 ∧ fd = (i : Int) + 1 ∧ t.fileDescriptors i ≠ 0 ∧
      (t.records (t.fileDescriptors i)).file = f := by
  by_cases hRange : fd < 1 ∨ 512 ≤ fd
  · rw [openFiles, if_pos (fileGetDescriptor_outside t hRange)] at h
    cases h
  · have hi : (fd - 1).toNat < 511 := by omega
    have hfd : fd = ((fd - 1).toNat : Int) + 1 := by omega
    rw [hfd, openFiles, fileGetDescriptor_at t hi] at h
    refine ⟨(fd - 1).toNat, hi, hfd, ?_⟩
    by_cases hFree : t.fileDescriptors (fd - 1).toNat = 0
    · rw [if_pos hFree] at h
      cases h
    · rw [if_neg hFree] at h
      exact ⟨hFree, Option.some.inj h⟩

theorem openFiles_at {t : FileTable} {i : Nat} (hi : i < 511) (hUsed : t.fileDescriptors i ≠ 0) :
    openFiles t ((i : Int) + 1) = some (t.records (t.fileDescriptors i)).file := by
  rw [openFiles, fileGetDescriptor_at t hi, if_neg hUsed]

theorem openFiles_none {t : FileTable} {fd : Int} :
    openFiles t fd = none ↔ fileGetDescriptor t fd = 0 := by
  unfold openFiles
  split <;> simp [*]

/-- What happens to one slot does not concern the other descriptors. -/
theorem openFiles_frame {t t' : FileTable} {i : Nat}
    (hSame : ∀ k < 511, k ≠ i → t'.fileDescriptors k = t.fileDescriptors k ∧
      t'.records (t.fileDescriptors k) = t.records (t.fileDescriptors k))
    {fd : Int} (hfd : fd ≠ (i : Int) + 1) : openFiles t' fd = openFiles t fd := by
  by_cases hRange : fd < 1 ∨ 512 ≤ fd
  · rw [openFiles_none.mpr (fileGetDescriptor_outside _ hRange),
      openFiles_none.mpr (fileGetDescriptor_outside _ hRange)]
  · have hk : (fd - 1).toNat < 511 := by omega
    have hSlotOf : fd = ((fd - 1).toNat : Int) + 1 := by omega
    obtain ⟨hSlot, hRecord⟩ := hSame _ hk (by omega)
    rw [hSlotOf, openFiles, openFiles, fileGetDescriptor_at _ hk, fileGetDescriptor_at _ hk, hSlot,
      hRecord]

theorem FilesInv.servedBy (h : FilesInv s) {fd : Int} {f : OpenFile}
    (hOpen : s.opened fd = some f) : ServedBy s.table fd f := by
  rw [h.opened] at hOpen
  obtain ⟨i, hi, rfl, hUsed, rfl⟩ := openFiles_some hOpen
  have hCall : fileCall s.table ((i : Int) + 1) =
      .served ⟨(i : Int) + 1, (s.table.records (s.table.fileDescriptors i)).file⟩ := by
    unfold fileCall
    rw [fileGetDescriptor_at s.table hi]
    dsimp only
    rw [if_neg hUsed, ← h.index i hi hUsed]
  refine ⟨fun size nmemb hSize hNmemb => ?_, hCall, hCall, hCall⟩
  rw [freadCall, if_neg (by omega)]
  exact hCall

theorem FilesInv.refused (h : FilesInv s) {fd : Int} (hClosed : s.opened fd = none) :
    Refused s.table fd := by
  rw [h.opened, openFiles_none] at hClosed
  have hCall : fileCall s.table fd = .error (-eio) := by
    unfold fileCall
    rw [hClosed]
    rfl
  refine ⟨fun size nmemb => ?_, ⟨-eio, by decide, hCall⟩, ⟨-eio, by decide, hCall⟩, fun closed => ?_⟩
  · by_cases hArgs : size = 0 ∨ nmemb = 0 ∨ fd < 1
    · exact ⟨-einvarg, by decide, if_pos hArgs⟩
    · exact ⟨-eio, by decide, (if_neg hArgs).trans hCall⟩
  · refine ⟨-eio, by decide, ?_⟩
    rw [fclose, fcloseCall, hCall]

theorem FilesInv.opensLowest (h : FilesInv s) (a : FopenAnswers) (modeStr : List Char) :
    OpensLowest s a modeStr := by
  have hNothing : fopen s.table a modeStr = (0, s.table) → OpensLowest s a modeStr := by
    intro hResult
    have hZero : (fopen s.table a modeStr).1 = 0 := by rw [hResult]
    exact ⟨fun hPositive => absurd hPositive (by omega), fun hPositive => absurd hPositive (by omega),
      by omega, fun _ => hZero⟩
  rcases fopen_cases s.table a modeStr with ⟨_, hResult⟩ | ⟨_, hResult⟩ | ⟨_, i, hSlot, hResult⟩
  · exact hNothing hResult
  · exact hNothing hResult
  · obtain ⟨hi, hFree, hBefore⟩ := fileFreeSlot_some hSlot
    have hValue : (fopen s.table a modeStr).1 = (i : Int) + 1 := by rw [hResult]
    refine ⟨fun _ => ?_, fun _ fd hLow hHigh => ?_, ?_, fun hAll => ?_⟩
    · rw [hValue, h.opened, openFiles_none]
      by_cases hLast : i < 511
      · rw [fileGetDescriptor_at s.table hLast, hFree]
      · exact fileGetDescriptor_outside s.table (by omega)
    · rw [hValue] at hHigh
      have hSlotOf : fd = ((fd - 1).toNat : Int) + 1 := by omega
      rw [h.opened, hSlotOf, openFiles_at (by omega) (hBefore _ (by omega))]
      exact Option.some_ne_none _
    · rw [hValue]
      omega
    · have hLast : s.opened 512 = none := by
        rw [h.opened, openFiles_none]
        exact fileGetDescriptor_outside s.table (by omega)
      exact absurd hLast (hAll 512 (by decide) (by decide))

theorem FilesInv.correct (h : FilesInv s) : FilesCorrect s :=
  ⟨fun _ _ hOpen => h.servedBy hOpen, fun _ hClosed => h.refused hClosed, h.opensLowest⟩

/-- Opening the first free slot below the last keeps the table right. -/
theorem FilesInv.fopen (h : FilesInv s) {a : FopenAnswers} {modeStr : List Char}
    (hServed : FileEventServed s (.fopen a modeStr)) :
    FilesInv
      { table := (LiebeOS.fopen s.table a modeStr).2
        opened := if 0 < (LiebeOS.fopen s.table a modeStr).1 then
            Function.update s.opened (LiebeOS.fopen s.table a modeStr).1
              (some ⟨a.filesystem, a.pvt, a.disk⟩)
          else s.opened } := by
  rcases fopen_cases s.table a modeStr with
    ⟨_, hResult⟩ | ⟨_, hResult⟩ | ⟨hOpens, i, hSlot, hResult⟩
  · rw [hResult]
    exact h
  · rw [hResult]
    exact h
  · obtain ⟨hi, hFree, hBefore⟩ := fileFreeSlot_some hSlot
    rcases hServed with hFails | hNone | ⟨⟨j, hj, hjFree⟩, hDesc, hFresh⟩
    · exact absurd hOpens hFails
    · rw [hSlot] at hNone
      cases hNone
    · have hiLast : i < 511 := by
        by_contra hLate
        exact hBefore j (by omega) hjFree
      rw [hResult]
      dsimp only
      rw [if_pos (by omega)]
      refine ⟨?_, fun k hk hUsed => ?_, ?_⟩
      · exact (Function.update_of_ne (by omega) ..).trans h.last
      · dsimp only at hUsed ⊢
        by_cases hki : k = i
        · rw [hki, Function.update_self, Function.update_self]
        · rw [Function.update_of_ne hki] at hUsed ⊢
          rw [Function.update_of_ne (hFresh k (by omega))]
          exact h.index k hk hUsed
      · funext fd
        dsimp only
        by_cases hfd : fd = (i : Int) + 1
        · have hUsed : Function.update s.table.fileDescriptors i a.desc i ≠ 0 := by
            rw [Function.update_self]
            exact hDesc
          rw [hfd, openFiles_at hiLast hUsed]
          dsimp only
          rw [Function.update_self, Function.update_self, Function.update_self]
        · rw [Function.update_of_ne hfd, h.opened]
          refine (openFiles_frame (fun k hk hki => ?_) hfd).symm
          exact ⟨Function.update_of_ne hki .., Function.update_of_ne (hFresh k (by omega)) ..⟩

/-- Closing a descriptor frees its slot and no other. -/
theorem FilesInv.fclose (h : FilesInv s) (fd closed : Int) :
    FilesInv
      { table := (LiebeOS.fclose s.table fd closed).2
        opened := if (LiebeOS.fclose s.table fd closed).1 = 0 then Function.update s.opened fd none
          else s.opened } := by
  cases hOpen : s.opened fd with
  | none =>
      obtain ⟨res, hRes, hResult⟩ := (h.refused hOpen).close closed
      rw [hResult]
      dsimp only
      rw [if_neg (by omega)]
      exact h
  | some f =>
      have hCall : fcloseCall s.table fd = .served ⟨fd, f⟩ := (h.servedBy hOpen).close
      by_cases hClosed : closed = 0
      · have hOpen' := hOpen
        rw [h.opened] at hOpen'
        obtain ⟨i, hi, rfl, hUsed, _⟩ := openFiles_some hOpen'
        have hIndex : ((s.table.records (s.table.fileDescriptors i)).index - 1).toNat = i := by
          rw [h.index i hi hUsed]
          omega
        have hResult : LiebeOS.fclose s.table ((i : Int) + 1) closed =
            (0, { s.table with fileDescriptors := Function.update s.table.fileDescriptors i 0 }) := by
          rw [LiebeOS.fclose, hCall]
          dsimp only
          rw [if_pos hClosed, fileFreeDescriptor, fileGetDescriptor_at s.table hi, hIndex, hClosed]
        rw [hResult]
        dsimp only
        rw [if_pos rfl]
        refine ⟨?_, fun k hk hkUsed => ?_, ?_⟩
        · exact (Function.update_of_ne (by omega) ..).trans h.last
        · dsimp only at hkUsed ⊢
          by_cases hki : k = i
          · rw [hki, Function.update_self] at hkUsed
            exact absurd rfl hkUsed
          · rw [Function.update_of_ne hki] at hkUsed ⊢
            exact h.index k hk hkUsed
        · funext fd
          dsimp only
          by_cases hfd : fd = (i : Int) + 1
          · rw [hfd, openFiles_none.mpr]
            · exact Function.update_self ..
            · exact (fileGetDescriptor_at _ hi).trans (Function.update_self ..)
          · rw [Function.update_of_ne hfd, h.opened]
            refine (openFiles_frame (fun k hk hki => ?_) hfd).symm
            exact ⟨Function.update_of_ne hki .., rfl⟩
      · have hResult : LiebeOS.fclose s.table fd closed = (closed, s.table) := by
          rw [LiebeOS.fclose, hCall]
          exact if_neg hClosed
        rw [hResult]
        dsimp only
        rw [if_neg hClosed]
        exact h

end Inv

theorem noFiles_inv : FilesInv noFiles := by
  refine ⟨rfl, fun i _ hUsed => absurd rfl hUsed, ?_⟩
  funext fd
  refine (openFiles_none.mpr ?_).symm
  unfold fileGetDescriptor
  split <;> rfl

/-- In every history in which no `fopen` is served the last slot or goes
without a record of its own, the table keeps its promises in every state. -/
theorem fileRun_correct {events : List FileEvent} {s : FileRun}
    (run : Run (Guarded FileStep FileEventServed) noFiles events s) : FilesCorrect s := by
  have hInv : FilesInv s := by
    refine run.invariant noFiles_inv fun s e t hs hStep => ?_
    obtain ⟨hServed, hStep⟩ := hStep
    cases hStep with
    | fopen a modeStr => exact hs.fopen hServed
    | fclose fd closed => exact hs.fclose fd closed
  exact hInv.correct

/-! ### A shell that opens files -/

/-- The answers for the `i`-th file, with its private data and its descriptor
in fresh blocks of the heap. -/
def shellOpens (i : Nat) : FopenAnswers where
  root := 0x1001000
  first := 0x1002000
  disk := 0x110000
  filesystem := 0x111000
  pvt := 0x1400000 + 4096 * i
  desc := 0x2000000 + 4096 * i

/-- `n` files are opened for reading and none is closed. -/
def opensOf (n : Nat) : List FileEvent :=
  (List.range n).map fun i => .fopen (shellOpens i) ['r']

theorem shellOpens_opens {i : Nat} (hi : i < 512) : (shellOpens i).Opens ['r'] := by
  have hPvt : (shellOpens i).pvt = 0x1400000 + 4096 * i := rfl
  refine ⟨?_, ?_, ?_, ?_, ?_, ?_⟩
  · exact show 0x1001000 ≠ 0 by decide
  · exact show 0x1002000 ≠ 0 by decide
  · exact show 0x110000 ≠ 0 by decide
  · exact show 0x111000 ≠ 0 by decide
  · intro hMode
    cases hMode
  · unfold signed
    rw [hPvt, if_pos (by omega)]
    omega

/-- The first `n` slots hold the records of the first `n` files. -/
def OpenedMany (n : Nat) (s : FileRun) : Prop :=
  ∀ i, s.table.fileDescriptors i = if i < n then 0x2000000 + 4096 * i else 0

/-- The next file gets the next slot. -/
theorem OpenedMany.next {n : Nat} {s : FileRun} (h : OpenedMany n s) (hn : n < 512) :
    ∃ s', FileStep s (.fopen (shellOpens n) ['r']) s' ∧ OpenedMany (n + 1) s' ∧
      s'.opened ((n : Int) + 1) ≠ none := by
  have hNext : s.table.fileDescriptors n = 0 := by rw [h, if_neg (by omega)]
  rcases fopen_cases s.table (shellOpens n) ['r'] with
    ⟨hFails, _⟩ | ⟨hNone, _⟩ | ⟨_, i, hSlot, hResult⟩
  · exact absurd (shellOpens_opens hn) hFails
  · exact absurd hNext (fileFreeSlot_none hNone hn)
  · obtain ⟨_, hFree, hBefore⟩ := fileFreeSlot_some hSlot
    have hi : i = n := by
      have hLow : ¬ n < i := fun hLess => hBefore n hLess hNext
      have hHigh : ¬ i < n := fun hLess => by
        rw [h, if_pos hLess] at hFree
        omega
      omega
    rw [hi] at hResult
    refine ⟨_, FileStep.fopen s (shellOpens n) ['r'], fun k => ?_, ?_⟩
    · rw [hResult]
      dsimp only
      by_cases hk : k = n
      · rw [hk, Function.update_self, if_pos (Nat.lt_succ_self n)]
        rfl
      · rw [Function.update_of_ne hk, h]
        split_ifs <;> first | rfl | omega
    · rw [hResult]
      dsimp only
      rw [if_pos (by omega), Function.update_self]
      exact Option.some_ne_none _

theorem OpenedMany.served {n : Nat} {s : FileRun} (h : OpenedMany n s) (hn : n < 511) :
    FileEventServed s (.fopen (shellOpens n) ['r']) := by
  have hDesc : (shellOpens n).desc = 0x2000000 + 4096 * n := rfl
  refine Or.inr (Or.inr ⟨⟨n, hn, ?_⟩, ?_, fun i _ => ?_⟩)
  · rw [h, if_neg (by omega)]
  · omega
  · rw [h, hDesc]
    split_ifs <;> omega

theorem opensOf_succ (n : Nat) : opensOf (n + 1) = opensOf n ++ [.fopen (shellOpens n) ['r']] := by
  rw [opensOf, List.range_succ, List.map_append]
  rfl

theorem opensOf_run {n : Nat} (hn : n ≤ 511) :
    ∃ s, Run (Guarded FileStep FileEventServed) noFiles (opensOf n) s ∧ OpenedMany n s := by
  induction n with
  | zero => exact ⟨noFiles, Run.nil noFiles, fun i => (if_neg (Nat.not_lt_zero i)).symm⟩
  | succ n ih =>
      obtain ⟨s, run, hOpened⟩ := ih (by omega)
      obtain ⟨s', step, hOpened', _⟩ := hOpened.next (by omega)
      rw [opensOf_succ]
      exact ⟨s', run.snoc ⟨hOpened.served (by omega), step⟩, hOpened'⟩

/-- 511 files are opened one after the other. -/
theorem fileRun_correct_opens :
    ∃ s, Run (Guarded FileStep FileEventServed) noFiles (opensOf 511) s ∧ FilesCorrect s := by
  obtain ⟨s, run, _⟩ := opensOf_run (Nat.le_refl 511)
  exact ⟨s, run, fileRun_correct run⟩

/-- The 512th open file cannot be reached: `fopen` returns 512, which every
other operation takes for a number out of range. -/
theorem fileRun_last_descriptor :
    ∃ s, Run FileStep noFiles (opensOf 512) s ∧ ¬ FilesCorrect s := by
  obtain ⟨s, run, hOpened⟩ := opensOf_run (Nat.le_refl 511)
  obtain ⟨s', step, _, hOpen⟩ := hOpened.next (by decide)
  have hRun := (run.weaken fun _ _ _ h => h.2).snoc step
  rw [← opensOf_succ] at hRun
  refine ⟨s', hRun, fun hCorrect => ?_⟩
  cases hFile : s'.opened (((511 : Nat) : Int) + 1) with
  | none => exact hOpen hFile
  | some f =>
      have hServed := (hCorrect.served _ f hFile).seek
      rw [fseekCall, fileCall, fileGetDescriptor_outside s'.table (by decide)] at hServed
      cases hServed

end LiebeOS
