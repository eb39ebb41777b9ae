import LiebeOS.Fs.FileAccess

/-! The position of an open file over any sequence of calls to `fseek` and
`fread`. -/
namespace LiebeOS

open MachineInt Bytes Transition

/-- The open files, the volume with its streams, and the callers' memory. -/
structure FileState where
  files : FileSystem
  fsPrivate : FatPrivate
  mem : Memory

/-- A call together with its result. -/
inductive FileOp where
  | fseek (offset : Int) (whence : FileSeekMode) (res : Int)
  | fread (ptr size nmemb : Nat) (res : Int)

/-- Calls on descriptor `fd`, with arguments that fit in their types. -/
inductive FileOpStep (disk : Disk) (fd : Int) : FileState → FileOp → FileState → Prop where
  | fseek (s : FileState) (offset : Int) (whence : FileSeekMode) (res : Int) (files : FileSystem)
      (hOffset : toInt offset = offset)
      (hCall : fseekFile s.files fd offset whence = some (res, files)) :
      FileOpStep disk fd s (.fseek offset whence res) { s with files := files }
  | fread (s : FileState) (ptr size nmemb : Nat) (r : FatRead) (hSize : size < 4294967296)
      (hCount : nmemb < 4294967296)
      (hCall : freadFile disk s.fsPrivate s.files s.mem ptr size nmemb fd = some r) :
      FileOpStep disk fd s (.fread ptr size nmemb r.res)
        { s with fsPrivate := r.fsPrivate, mem := r.mem }

/-- The position stored for descriptor `fd`. -/
def filePosition (s : FileState) (fd : Int) : Nat :=
  match fseekCall s.files.table fd with
  | .error _ => 0
  | .served desc => (s.files.pvts desc.file.pvt).pos

/-- What a call is to do with the position: `SEEK_SET` makes it the offset,
`SEEK_CUR` adds the offset, `SEEK_END` counts it from the end, a seek that fails
leaves it alone, and a read delivers the bytes from there on and moves behind
them. -/
def PositionKept (disk : Disk) (fd : Int) (entry : FatDirectoryItem) (s : FileState) (op : FileOp)
    (t : FileState) : Prop :=
  match op with
  | .fseek offset whence res =>
      (res < 0 → filePosition t fd = filePosition s fd) ∧
        (0 ≤ res →
          match whence with
          | .seekSet => filePosition t fd = toWord offset
          | .seekCur => (filePosition t fd : Int) = filePosition s fd + offset
          | .seekEnd => filePosition t fd = entry.filesize - toWord offset
          | .other _ => True)
  | .fread ptr size nmemb res =>
      0 ≤ res → filePosition t fd = filePosition s fd + nmemb * size ∧
        Filled s.mem t.mem ptr (nmemb * size) fun i =>
          fileByte disk s.fsPrivate entry.firstCluster (filePosition s fd + i)

/-- A call that does with the position what it is to do, and leaves it in the
file. -/
def KeptStep (disk : Disk) (fd : Int) (entry : FatDirectoryItem) (s : FileState) (op : FileOp)
    (t : FileState) : Prop :=
  FileOpStep disk fd s op t ∧ PositionKept disk fd entry s op t ∧ filePosition t fd ≤ entry.filesize

/-- `SEEK_CUR` does not leave the file. `SEEK_END` finds the position where it
would put it, or fails. A read fails: a block cannot be served, or nothing or
too much is asked for. -/
def OpFits (disk : Disk) (fd : Int) (entry : FatDirectoryItem) (s : FileState) :
    FileOp → Prop
  | .fseek offset whence _ =>
      entry.filesize ≤ toWord offset ∨
        match whence with
        | .seekSet => True
        | .seekCur => 0 ≤ filePosition s fd + offset ∧ filePosition s fd + offset ≤ entry.filesize
        | .seekEnd => 2147483648 ≤ entry.filesize - toWord offset ∨
            filePosition s fd = entry.filesize - toWord offset
        | .other _ => True
  | .fread _ size nmemb _ =>
      size = 0 ∨ nmemb = 0 ∨ 2147483648 ≤ nmemb ∨
        ¬ RequestServed disk s.fsPrivate entry.firstCluster size nmemb (toInt (filePosition s fd))

section Position

variable {disk : Disk} {fd : Int} {entry : FatDirectoryItem} {s t : FileState} {op : FileOp}
  {pos : Nat}

theorem OpenAt.position (h : OpenAt s.files fd entry pos) : filePosition s fd = pos := by
  obtain ⟨f, fatItem, item, hServed, _, hRecord⟩ := h
  rw [filePosition, hServed.seek]
  dsimp only
  rw [hRecord]

/-- The file is open and its volume is what it was. -/
structure PositionInv (fd : Int) (entry : FatDirectoryItem) (s : FileState) : Prop where
  opened : OpenAt s.files fd entry (filePosition s fd)
  volume : EntryOnVolume s.fsPrivate entry

/-- A seek does what it is to do, and stays in the file, exactly when it fits. -/
theorem seekOutcome_iff {offset : Int} {size : Nat} (hOffset : toInt offset = offset)
    (hWord : size < 4294967296) (hPos : pos ≤ size) (whence : FileSeekMode) :
    let outcome := seekOutcome size pos (toWord offset) whence
    (((outcome.1 < 0 → outcome.2 = pos) ∧ (0 ≤ outcome.1 →
        match whence with
        | .seekSet => outcome.2 = toWord offset
        | .seekCur => (outcome.2 : Int) = pos + offset
        | .seekEnd => outcome.2 = size - toWord offset
        | .other _ => True)) ∧ outcome.2 ≤ size) ↔
      (size ≤ toWord offset ∨
        match whence with
        | .seekSet => True
        | .seekCur => 0 ≤ pos + offset ∧ pos + offset ≤ size
        | .seekEnd => 2147483648 ≤ size - toWord offset ∨ pos = size - toWord offset
        | .other _ => True) := by
  intro outcome
  have hLow := toInt_ge offset
  have hHigh := toInt_lt offset
  have hSum : (toWord (pos + toWord offset) : Int) = (pos + offset) % 4294967296 := by
    unfold toWord
    omega
  by_cases hBehind : size ≤ toWord offset
  · have hFails : outcome = (-eio, pos) := if_pos hBehind
    rw [hFails]
    simp [hBehind, hPos, eio]
  · have hInside : outcome = _ := if_neg hBehind
    rw [hInside]
    cases whence with
    | seekSet => simp; omega
    | seekCur => simp; omega
    | seekEnd =>
        have hRes : 0 ≤ toInt (size - toWord offset : Nat) ↔ size - toWord offset < 2147483648 := by
          unfold toInt
          omega
        dsimp only
        rw [hRes]
        omega
    | other value => simp [einvarg, hPos]

theorem freadFile_refused {p : FatPrivate} {files : FileSystem} {mem : Memory}
    {ptr size nmemb : Nat} (h : size = 0 ∨ nmemb = 0) :
    freadFile disk p files mem ptr size nmemb fd = some ⟨-einvarg, p, mem⟩ := by
  have hCall : freadCall files.table size nmemb fd = .error (-einvarg) :=
    if_pos (h.elim Or.inl fun hCount => Or.inr (Or.inl hCount))
  rw [freadFile, hCall]

/-- One call keeps its promise exactly when it fits. -/
theorem positionKept_iff (h : PositionInv fd entry s) (hPos : filePosition s fd ≤ entry.filesize)
    (hStep : FileOpStep disk fd s op t) :
    (PositionKept disk fd entry s op t ∧ filePosition t fd ≤ entry.filesize) ↔
      OpFits disk fd entry s op := by
  cases hStep with
  | fseek offset whence res files hOffset hCall =>
      obtain ⟨files', hSeek, hOpen⟩ := fseekFile_openAt h.opened offset whence
      rw [hCall, Option.some.injEq, Prod.mk.injEq] at hSeek
      obtain ⟨rfl, rfl⟩ := hSeek
      have hNext : filePosition { s with files := files } fd = _ := hOpen.position
      simp only [PositionKept, OpFits, hNext]
      exact seekOutcome_iff hOffset h.volume.size hPos whence
  | fread ptr size nmemb r hSize hCount hCall =>
      have hSame : filePosition { s with fsPrivate := r.fsPrivate, mem := r.mem } fd =
          filePosition s fd := rfl
      simp only [PositionKept, OpFits, hSame]
      constructor
      · rintro ⟨hKept, _⟩
        by_contra hFits
        simp only [not_or, not_not] at hFits
        obtain ⟨hBlock, hBlocks, hInt, hServed⟩ := hFits
        obtain ⟨r', hRead, hRes, _⟩ := freadFile_served h.opened h.volume
          (Nat.pos_of_ne_zero hBlock) (Nat.pos_of_ne_zero hBlocks) (by omega) hServed s.mem ptr
        rw [hCall, Option.some.injEq] at hRead
        rw [← hRead] at hRes
        obtain ⟨hMoved, _⟩ := hKept (by omega)
        have hSome := Nat.mul_pos (Nat.pos_of_ne_zero hBlocks) (Nat.pos_of_ne_zero hBlock)
        omega
      · intro hFits
        refine ⟨fun hRes => ?_, hPos⟩
        by_cases hNothing : size = 0 ∨ nmemb = 0
        · rw [freadFile_refused hNothing, Option.some.injEq] at hCall
          subst hCall
          exact absurd hRes (by decide : ¬ (0 : Int) ≤ -einvarg)
        · obtain ⟨hInt, hServed⟩ := freadFile_some h.opened h.volume (by omega) (by omega) hCount
            hCall hRes
          rcases hFits with hBlock | hBlocks | hLarge | hNot
          · exact absurd (Or.inl hBlock) hNothing
          · exact absurd (Or.inr hBlocks) hNothing
          · omega
          · exact absurd hServed hNot

/-- The file stays open and the volume stays what it is. -/
theorem PositionInv.step (h : PositionInv fd entry s) (hStep : FileOpStep disk fd s op t) :
    PositionInv fd entry t := by
  cases hStep with
  | fseek offset whence res files hOffset hCall =>
      obtain ⟨files', hSeek, hOpen⟩ := fseekFile_openAt h.opened offset whence
      rw [hCall, Option.some.injEq, Prod.mk.injEq] at hSeek
      obtain ⟨_, rfl⟩ := hSeek
      have hNext : filePosition { s with files := files } fd = _ := hOpen.position
      exact ⟨by rw [hNext]; exact hOpen, h.volume⟩
  | fread ptr size nmemb r hSize hCount hCall =>
      refine ⟨h.opened, ?_, h.volume.size, h.volume.first⟩
      refine lt_of_lt_of_eq h.volume.clusters (congrArg FatHeader.sectorsPerCluster ?_).symm
      by_cases hNothing : size = 0 ∨ nmemb = 0
      · rw [freadFile_refused hNothing, Option.some.injEq] at hCall
        subst hCall
        rfl
      · rw [freadFile_openAt h.opened s.mem ptr (by omega) (by omega),
          Option.map_eq_some_iff] at hCall
        obtain ⟨loop, hLoop, rfl⟩ := hCall
        have hHeader := fat16ReadLoop_header h.volume.clusters h.volume.cluster hLoop
        dsimp only
        split
        · exact hHeader
        · exact hHeader

theorem PositionInv.start (hOpen : OpenAt s.files fd entry pos)
    (hFile : EntryOnVolume s.fsPrivate entry) : PositionInv fd entry s :=
  ⟨by rw [hOpen.position]; exact hOpen, hFile⟩

variable {start : FileState} {ops : List FileOp}

/-- As long as every call fits, the file stays open, the position stays in it,
and every call does what it is to do. -/
theorem positionRun_of_fits (hOpen : OpenAt start.files fd entry 0)
    (hFile : EntryOnVolume start.fsPrivate entry)
    (run : Run (Guarded (FileOpStep disk fd) (OpFits disk fd entry)) start ops s) :
    PositionInv fd entry s ∧ filePosition s fd ≤ entry.filesize ∧
      Run (KeptStep disk fd entry) start ops s := by
  induction run with
  | nil => exact ⟨.start hOpen hFile, by rw [hOpen.position]; exact Nat.zero_le _, Run.nil _⟩
  | snoc _ last ih =>
      obtain ⟨hInv, hPos, hRun⟩ := ih
      obtain ⟨hKept, hNext⟩ := (positionKept_iff hInv hPos last.2).mpr last.1
      exact ⟨hInv.step last.2, hNext, hRun.snoc ⟨last.2, hKept, hNext⟩⟩

theorem positionRun_of_kept (hOpen : OpenAt start.files fd entry 0)
    (hFile : EntryOnVolume start.fsPrivate entry)
    (run : Run (KeptStep disk fd entry) start ops s) :
    PositionInv fd entry s ∧ filePosition s fd ≤ entry.filesize ∧
      Run (Guarded (FileOpStep disk fd) (OpFits disk fd entry)) start ops s := by
  induction run with
  | nil => exact ⟨.start hOpen hFile, by rw [hOpen.position]; exact Nat.zero_le _, Run.nil _⟩
  | snoc _ last ih =>
      obtain ⟨hInv, hPos, hRun⟩ := ih
      have hFits := (positionKept_iff hInv hPos last.1).mp last.2
      exact ⟨hInv.step last.1, last.2.2, hRun.snoc ⟨hFits, last.1⟩⟩

/-- From a file that has just been opened, whatever its size and its clusters are, a
sequence of calls keeps the position as promised at every step exactly when each of its calls fits. -/
theorem positionRun_iff (disk : Disk) (fd : Int) (entry : FatDirectoryItem) (start s : FileState)
    (ops : List FileOp) (hOpen : OpenAt start.files fd entry 0)
    (hFile : EntryOnVolume start.fsPrivate entry) :
    Run (Guarded (FileOpStep disk fd) (OpFits disk fd entry)) start ops s ↔
      filePosition s fd ≤ entry.filesize ∧ Run (KeptStep disk fd entry) start ops s :=
  ⟨fun run => (positionRun_of_fits hOpen hFile run).2,
    fun h => (positionRun_of_kept hOpen hFile h.2).2.2⟩

/-- A volume with one file of 1024 bytes in cluster 2, which is open. -/
def oneFileState : FileState :=
  ⟨oneFile ⟨[], 0, 2, 1024⟩,
    ⟨⟨2, 0, 1, 16, 1⟩, ⟨0, 1, 3⟩, ⟨0, .diskObj⟩, ⟨0, .diskObj⟩, ⟨0, .diskObj⟩⟩, fun _ => 0⟩

def oneFileDisk : Disk :=
  ⟨8, fun i => if i = 4 then 0xFF else if i = 5 then 0xFF else UInt8.ofNat i⟩

theorem oneFileState_volume : FileOnVolume oneFileDisk oneFileState.fsPrivate ⟨[], 0, 2, 1024⟩ :=
  ⟨by decide, by decide, 1, by unfold IsChain; decide, by decide⟩

/-- Two seeks forward, and one from the end that happens to ask for the position
where the file is. -/
theorem positionRun_iff_seeks :
    ∃ s, Run (KeptStep oneFileDisk 1 ⟨[], 0, 2, 1024⟩) oneFileState
        [.fseek 100 .seekSet 0, .fseek 50 .seekCur 0, .fseek 874 .seekEnd 150] s ∧
      filePosition s 1 ≤ 1024 := by
  have run : Run (Guarded (FileOpStep oneFileDisk 1) (OpFits oneFileDisk 1 ⟨[], 0, 2, 1024⟩))
      oneFileState [.fseek 100 .seekSet 0, .fseek 50 .seekCur 0, .fseek 874 .seekEnd 150] _ :=
    ((Run.single ⟨Or.inr trivial, FileOpStep.fseek _ 100 .seekSet 0 _ (by decide) rfl⟩).snoc
      ⟨Or.inr (by decide), FileOpStep.fseek _ 50 .seekCur 0 _ (by decide) rfl⟩).snoc
      ⟨Or.inr (Or.inr (by decide)), FileOpStep.fseek _ 874 .seekEnd 150 _ (by decide) rfl⟩
  have hKept := (positionRun_iff oneFileDisk 1 ⟨[], 0, 2, 1024⟩ oneFileState _ _ (oneFile_openAt _)
    oneFileState_volume.onVolume).mp run
  exact ⟨_, hKept.2, hKept.1⟩

/-- Seeking 24 bytes from the end leaves the position at the beginning. -/
theorem positionRun_seekEnd :
    ¬ ∀ (disk : Disk) (fd : Int) (entry : FatDirectoryItem) (start s : FileState)
      (ops : List FileOp), OpenAt start.files fd entry 0 → FileOnVolume disk start.fsPrivate entry →
      Run (FileOpStep disk fd) start ops s →
        filePosition s fd ≤ entry.filesize ∧ Run (KeptStep disk fd entry) start ops s := by
  intro hClaim
  have run : Run (FileOpStep oneFileDisk 1) oneFileState [.fseek 24 .seekEnd 1000] _ :=
    Run.single (FileOpStep.fseek _ 24 .seekEnd 1000 _ (by decide) rfl)
  have hKept := (hClaim oneFileDisk 1 ⟨[], 0, 2, 1024⟩ oneFileState _ _ (oneFile_openAt _)
    oneFileState_volume run).2
  obtain ⟨t, _, _, hLast, _⟩ := @Run.unsnoc _ _ _ _ _ [] _ hKept
  have hEnd : 0 = 1024 - 24 := hLast.2 (by decide)
  exact absurd hEnd (by decide)

end Position

end LiebeOS
