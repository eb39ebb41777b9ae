import LiebeOS.Fs.FilePosition
import LiebeOS.Fs.PathLeak

/-! The kind of an open item. The union in a `struct fat_item` holds a file entry or a
directory, and `type` says which. The calls on a descriptor are modelled once more, with
a record of the member that they take the pointer from. -/
namespace LiebeOS

open MachineInt Bytes Attempts

def fatFileReadOnly : UInt8 := 0x01

def fileStatReadOnly : Nat := 1

inductive FatItemType where
  | directory
  | file
deriving DecidableEq

/-- The members of the union. -/
inductive ItemMember where
  | item
  | directory

/-- The member that the union has been filled with decides the type. -/
def FatItem.type : FatItem → FatItemType
  | .file _ _ _ => .file
  | .directory _ _ => .directory

/-- The pointer in the union, whatever it points to. -/
def FatItem.pointer : FatItem → Nat
  | .file _ item _ => item
  | .directory _ record => record.elim 0 FatDirectoryRecord.directory

/-- An access to a member, and the type that the item has. -/
structure UnionAccess where
  member : ItemMember
  type : FatItemType

def FatItem.access (item : FatItem) (member : ItemMember) : UnionAccess := ⟨member, item.type⟩

def UnionAccess.Respects (a : UnionAccess) : Prop :=
  match a.member with
  | .item => a.type = .file
  | .directory => a.type = .directory

/-- A result with the accesses on the way to it. -/
structure Traced (α : Type) where
  accesses : List UnionAccess
  result : α

/-! ### The functions of `fat16.c` -/

/-- The two halves of the cluster number, of an entry in memory. -/
def fat16GetFirstCluster (mem : Memory) (item : Nat) : Nat :=
  loadHalf mem (item + 20) ||| loadHalf mem (item + 26)

/-- The loop of `fat16_read` for a pointer that is taken for that of an entry. -/
def fat16ReadLoopAt (disk : Disk) (item size : Nat) (total : Int) :
    Nat → FatPrivate → Int → Memory → Nat → Option FatRead
  | 0, p, _, mem, _ => some ⟨0, p, mem⟩
  | left + 1, p, offset, mem, out =>
      match fat16ReadInternal disk p (fat16GetFirstCluster mem item) offset total mem out with
      | none => none
      | some r =>
          if r.res < 0 then some ⟨r.res, r.fsPrivate, r.mem⟩
          else
            fat16ReadLoopAt disk item size total left r.fsPrivate (toInt (offset + size)) r.mem
              (out + size)

/-- The type is not looked at. -/
def fat16ReadTraced (disk : Disk) (p : FatPrivate) (descriptor : FatFileDescriptor)
    (size nmemb : Nat) (mem : Memory) (out : Nat) : Traced (Option FatRead) where
  accesses := [descriptor.item.access .item]
  result :=
    match descriptor.item with
    | .file _ _ _ => fat16Read disk p descriptor size nmemb mem out
    | .directory _ _ =>
        (fat16ReadLoopAt disk descriptor.item.pointer size (toInt size) nmemb p
          (toInt descriptor.pos) mem out).map fun r =>
            if r.res < 0 then r else { r with res := toInt nmemb }

def fat16SeekTraced (descriptor : FatFileDescriptor) (offset : Nat) (seekMode : FileSeekMode) :
    Traced (Option (Int × FatFileDescriptor)) :=
  if descriptor.item.type ≠ .file then ⟨[], some (-einvarg, descriptor)⟩
  else ⟨[descriptor.item.access .item], fat16Seek descriptor offset seekMode⟩

/-- The size and the flags of the entry, in the structure at `stat`. -/
def fat16StatStores (entry : FatDirectoryItem) (mem : Memory) (stat : Nat) : Memory :=
  storeWord (storeWord mem (stat + 4) entry.filesize) stat
    (if entry.attr &&& fatFileReadOnly ≠ 0 then fileStatReadOnly else 0)

def fat16StatTraced (descriptor : FatFileDescriptor) (mem : Memory) (stat : Nat) :
    Traced (Option (Int × Memory)) :=
  if descriptor.item.type ≠ .file then ⟨[], some (-einvarg, mem)⟩
  else
    ⟨[descriptor.item.access .item],
      match descriptor.item with
      | .directory _ _ => none
      | .file _ item entry => if item = 0 then none else some (0, fat16StatStores entry mem stat)⟩

def fat16FatItemFreeTraced (heap : Heap) (item : FatItem) : Traced Heap :=
  match item.type with
  | .directory => ⟨[item.access .directory], fat16FatItemFree heap item⟩
  | .file => ⟨[item.access .item], fat16FatItemFree heap item⟩

/-- `fat16_seek` is what it was without the record. -/
theorem fat16SeekTraced_result (descriptor : FatFileDescriptor) (offset : Nat)
    (seekMode : FileSeekMode) :
    (fat16SeekTraced descriptor offset seekMode).result = fat16Seek descriptor offset seekMode := by
  unfold fat16SeekTraced
  split
  · unfold fat16Seek
    cases hItem : descriptor.item with
    | file fatItem item entry => exact absurd (congrArg FatItem.type hItem) ‹_›
    | directory fatItem directory => rfl
  · rfl

theorem fat16FatItemFreeTraced_result (heap : Heap) (item : FatItem) :
    (fat16FatItemFreeTraced heap item).result = fat16FatItemFree heap item := by
  cases item with
  | file => rfl
  | directory => rfl

/-! ### Calls on a descriptor -/

inductive DescriptorCall where
  | fread (ptr size nmemb : Nat)
  | fseek (offset : Int) (whence : FileSeekMode)
  | fstat (stat : Nat)
  | fclose

/-- Closing is the only call that makes sense for a directory. -/
def DescriptorCall.needsFile : DescriptorCall → Bool
  | .fclose => false
  | _ => true

theorem DescriptorCall.eq_fclose {call : DescriptorCall} (h : call.needsFile = false) :
    call = .fclose := by
  cases call with
  | fclose => rfl
  | fread ptr size nmemb => cases h
  | fseek offset whence => cases h
  | fstat stat => cases h

/-- `fread` refuses to read nothing before it looks at the descriptor. -/
def DescriptorCall.readsSomething : DescriptorCall → Bool
  | .fread _ size nmemb => size ≠ 0 && nmemb ≠ 0
  | _ => false

/-- The result and the state behind a call, if it comes back. -/
def descriptorCall (disk : Disk) (fd : Int) (s : FileState) :
    DescriptorCall → Traced (Option (Int × FileState))
  | .fread ptr size nmemb =>
      match freadCall s.files.table size nmemb fd with
      | .error res => ⟨[], some (res, s)⟩
      | .served desc =>
          let r := fat16ReadTraced disk s.fsPrivate (s.files.pvts desc.file.pvt) size nmemb s.mem ptr
          ⟨r.accesses, r.result.map fun r =>
            (r.res, { s with fsPrivate := r.fsPrivate, mem := r.mem })⟩
  | .fseek offset whence =>
      match fseekCall s.files.table fd with
      | .error res => ⟨[], some (res, s)⟩
      | .served desc =>
          let r := fat16SeekTraced (s.files.pvts desc.file.pvt) (toWord offset) whence
          ⟨r.accesses, r.result.map fun (res, descriptor) =>
            (res, { s with files := { s.files with
              pvts := Function.update s.files.pvts desc.file.pvt descriptor } })⟩
  | .fstat stat =>
      match fstatCall s.files.table fd with
      | .error res => ⟨[], some (res, s)⟩
      | .served desc =>
          let r := fat16StatTraced (s.files.pvts desc.file.pvt) s.mem stat
          ⟨r.accesses, r.result.map fun (res, mem) => (res, { s with mem := mem })⟩
  | .fclose =>
      match fcloseCall s.files.table fd with
      | .error res => ⟨[], some (res, s)⟩
      | .served desc =>
          ⟨(fat16FatItemFreeTraced s.files.heap (s.files.pvts desc.file.pvt).item).accesses,
            some ((fcloseFile s.files fd).1, { s with files := (fcloseFile s.files fd).2 })⟩

/-- The type of the item that descriptor `fd` is open for. -/
def itemType (s : FileSystem) (fd : Int) : Option FatItemType :=
  match fileCall s.table fd with
  | .error _ => none
  | .served desc => some (s.pvts desc.file.pvt).item.type

/-- What one call has done, and the type of the item at that time. -/
structure CallRecord where
  call : DescriptorCall
  type : Option FatItemType
  accesses : List UnionAccess
  res : Option Int

def callRecord (disk : Disk) (fd : Int) (s : FileState) (call : DescriptorCall) : CallRecord :=
  let r := descriptorCall disk fd s call
  ⟨call, itemType s.files fd, r.accesses, r.result.map Prod.fst⟩

/-- Call after call; there is none behind a call that does not come back. -/
def runCalls (disk : Disk) (fd : Int) : List DescriptorCall → FileState → List CallRecord
  | [], _ => []
  | call :: calls, s =>
      callRecord disk fd s call ::
        match (descriptorCall disk fd s call).result with
        | none => []
        | some (_, s) => runCalls disk fd calls s

/-- Members are accessed as the type says, and where a file is needed there is an error
for a directory. -/
structure CallRecord.Respects (r : CallRecord) : Prop where
  accesses : ∀ a ∈ r.accesses, a.Respects
  refused : r.type = some .directory → r.call.needsFile → ∃ res, r.res = some res ∧ res < 0

/-! ### One call -/

section Calls

variable {disk : Disk} {fd : Int} {s t : FileState} {call : DescriptorCall} {desc : FileDescriptor}
  {res : Int}

theorem itemType_error (h : fileCall s.files.table fd = .error res) : itemType s.files fd = none := by
  rw [itemType, h]

theorem itemType_served (h : fileCall s.files.table fd = .served desc) :
    itemType s.files fd = some (s.files.pvts desc.file.pvt).item.type := by
  rw [itemType, h]

theorem itemType_directory (h : itemType s.files fd = some .directory) :
    ∃ desc, fileCall s.files.table fd = .served desc ∧
      (s.files.pvts desc.file.pvt).item.type = .directory := by
  cases hCall : fileCall s.files.table fd with
  | error res => exact absurd (itemType_error hCall ▸ h) (by simp)
  | served desc =>
      rw [itemType_served hCall] at h
      exact ⟨desc, rfl, Option.some.inj h⟩

/-- A descriptor that is served is the record in its slot. -/
theorem fileCall_served {table : FileTable} (h : fileCall table fd = .served desc) :
    0 < fd ∧ fd < 512 ∧ table.records (table.fileDescriptors (fd - 1).toNat) = desc := by
  have hRange : 0 < fd ∧ fd < 512 := by
    by_contra hOutside
    rw [fileCall, fileGetDescriptor_outside table (by omega)] at h
    cases h
  have hInside : ¬ (fd ≤ 0 ∨ (liebeOsMaxFileDescriptors : Int) ≤ fd) := by
    unfold liebeOsMaxFileDescriptors
    omega
  rw [fileCall, fileGetDescriptor, if_neg hInside] at h
  split_ifs at h
  exact ⟨hRange.1, hRange.2, FileCall.served.inj h⟩

theorem freadCall_served {table : FileTable} (h : fileCall table fd = .served desc)
    (size nmemb : Nat) :
    freadCall table size nmemb fd =
      if size = 0 ∨ nmemb = 0 then .error (-einvarg) else .served desc := by
  have hPos : ¬ fd < 1 := Int.not_lt.mpr (fileCall_served h).1
  rw [freadCall, h]
  simp only [hPos, or_false]

/-- Without an item a call fails and does nothing. -/
theorem descriptorCall_error (h : fileCall s.files.table fd = .error res) (call : DescriptorCall) :
    ∃ res, descriptorCall disk fd s call = ⟨[], some (res, s)⟩ := by
  cases call with
  | fread ptr size nmemb =>
      by_cases hArgs : size = 0 ∨ nmemb = 0 ∨ fd < 1
      · exact ⟨-einvarg, by rw [descriptorCall, freadCall, if_pos hArgs]⟩
      · exact ⟨res, by rw [descriptorCall, freadCall, if_neg hArgs, h]⟩
  | fseek offset whence => exact ⟨res, by rw [descriptorCall, fseekCall, h]⟩
  | fstat stat => exact ⟨res, by rw [descriptorCall, fstatCall, h]⟩
  | fclose => exact ⟨res, by rw [descriptorCall, fcloseCall, h]⟩

/-- A call on a file goes to the member of a file. -/
theorem descriptorCall_file (h : fileCall s.files.table fd = .served desc)
    (hType : (s.files.pvts desc.file.pvt).item.type = .file) (call : DescriptorCall) :
    ∀ a ∈ (descriptorCall disk fd s call).accesses, a = ⟨.item, .file⟩ := by
  intro a ha
  cases call with
  | fread ptr size nmemb =>
      rw [descriptorCall, freadCall_served h] at ha
      split_ifs at ha
      · cases ha
      · simpa [fat16ReadTraced, FatItem.access, hType] using ha
  | fseek offset whence =>
      rw [descriptorCall, fseekCall, h] at ha
      simpa [fat16SeekTraced, FatItem.access, hType] using ha
  | fstat stat =>
      rw [descriptorCall, fstatCall, h] at ha
      simpa [fat16StatTraced, FatItem.access, hType] using ha
  | fclose =>
      rw [descriptorCall, fcloseCall, h] at ha
      simpa [fat16FatItemFreeTraced, FatItem.access, hType] using ha

/-- What needs a file fails on a directory and changes nothing, except for a read of
something. -/
theorem descriptorCall_directory (h : fileCall s.files.table fd = .served desc)
    (hType : (s.files.pvts desc.file.pvt).item.type = .directory) (hNeeds : call.needsFile = true)
    (hReads : call.readsSomething = false) :
    descriptorCall disk fd s call = ⟨[], some (-einvarg, s)⟩ := by
  have hOther : (s.files.pvts desc.file.pvt).item.type ≠ .file := by simp [hType]
  cases call with
  | fread ptr size nmemb =>
      have hNothing : size = 0 ∨ nmemb = 0 := by
        by_contra hSome
        rw [not_or] at hSome
        simp [DescriptorCall.readsSomething, hSome.1, hSome.2] at hReads
      rw [descriptorCall, freadCall_served h, if_pos hNothing]
  | fseek offset whence =>
      rw [descriptorCall, fseekCall, h]
      simp only [fat16SeekTraced, if_pos hOther, Option.map_some, Function.update_eq_self]
  | fstat stat =>
      rw [descriptorCall, fstatCall, h]
      simp only [fat16StatTraced, if_pos hOther, Option.map_some]
  | fclose => exact absurd hNeeds (by simp [DescriptorCall.needsFile])

theorem descriptorCall_reads (h : fileCall s.files.table fd = .served desc)
    (hReads : call.readsSomething = true) :
    (s.files.pvts desc.file.pvt).item.access .item ∈ (descriptorCall disk fd s call).accesses := by
  cases call with
  | fread ptr size nmemb =>
      have hSome : ¬ (size = 0 ∨ nmemb = 0) := by
        rintro (hZero | hZero)
        · simp [DescriptorCall.readsSomething, hZero] at hReads
        · simp [DescriptorCall.readsSomething, hZero] at hReads
      rw [descriptorCall, freadCall_served h, if_neg hSome]
      exact List.mem_singleton_self _
  | fseek offset whence => cases hReads
  | fstat stat => cases hReads
  | fclose => cases hReads

theorem callRecord_error (h : fileCall s.files.table fd = .error res) :
    (callRecord disk fd s call).Respects := by
  obtain ⟨res', hResult⟩ := @descriptorCall_error disk fd s res h call
  refine ⟨fun a ha => ?_, fun hDirectory => ?_⟩
  · rw [callRecord, hResult] at ha
    cases ha
  · exact absurd ((itemType_error h).symm.trans hDirectory) (by simp)

theorem callRecord_file (h : fileCall s.files.table fd = .served desc)
    (hType : (s.files.pvts desc.file.pvt).item.type = .file) :
    (callRecord disk fd s call).Respects := by
  have hFile := itemType_served h
  rw [hType] at hFile
  refine ⟨fun a ha => ?_, fun hDirectory => absurd (hFile.symm.trans hDirectory) (by simp)⟩
  rw [descriptorCall_file h hType call a ha]
  exact rfl

theorem callRecord_directory_iff (h : fileCall s.files.table fd = .served desc)
    (hType : (s.files.pvts desc.file.pvt).item.type = .directory) :
    (callRecord disk fd s call).Respects ↔ call.readsSomething = false := by
  constructor
  · intro hRespects
    by_contra hReads
    have hAccess := hRespects.accesses _
      (descriptorCall_reads h (Bool.eq_true_of_not_eq_false hReads))
    have hFile : (s.files.pvts desc.file.pvt).item.type = .file := hAccess
    rw [hType] at hFile
    cases hFile
  · intro hReads
    cases hNeeds : call.needsFile with
    | true =>
        have hResult :=
          @descriptorCall_directory disk fd s call desc h hType hNeeds hReads
        refine ⟨fun a ha => ?_, fun _ _ => ⟨-einvarg, ?_, by decide⟩⟩
        · rw [callRecord, hResult] at ha
          cases ha
        · rw [callRecord, hResult]
          rfl
    | false =>
        obtain rfl := DescriptorCall.eq_fclose hNeeds
        refine ⟨fun a ha => ?_, fun _ hFile => by cases hFile⟩
        rw [callRecord, descriptorCall, fcloseCall, h] at ha
        have hSame : a = ⟨.directory, .directory⟩ := by
          simpa [fat16FatItemFreeTraced, FatItem.access, hType] using ha
        rw [hSame]
        exact rfl

/-- A call respects the type unless it reads something from a directory. -/
theorem callRecord_respects_iff :
    (callRecord disk fd s call).Respects ↔
      (itemType s.files fd = some .directory → call.readsSomething = false) := by
  cases hCall : fileCall s.files.table fd with
  | error res =>
      have hNone := itemType_error hCall
      exact ⟨fun _ hDirectory => absurd (hNone.symm.trans hDirectory) (by simp),
        fun _ => callRecord_error hCall⟩
  | served desc =>
      have hType := itemType_served hCall
      cases hItem : (s.files.pvts desc.file.pvt).item.type with
      | file =>
          rw [hItem] at hType
          exact ⟨fun _ hDirectory => absurd (hType.symm.trans hDirectory) (by simp),
            fun _ => callRecord_file hCall hItem⟩
      | directory =>
          rw [hItem] at hType
          rw [callRecord_directory_iff hCall hItem]
          exact ⟨fun hReads _ => hReads, fun hReads => hReads hType⟩

theorem fat16Seek_item {descriptor descriptor' : FatFileDescriptor} {offset : Nat}
    {seekMode : FileSeekMode} (h : fat16Seek descriptor offset seekMode = some (res, descriptor')) :
    descriptor'.item = descriptor.item := by
  unfold fat16Seek at h
  split at h
  · obtain ⟨_, rfl⟩ := Prod.mk.inj (Option.some.inj h)
    rfl
  · split_ifs at h
    · obtain ⟨_, rfl⟩ := Prod.mk.inj (Option.some.inj h)
      rfl
    · split at h
      all_goals
        obtain ⟨_, rfl⟩ := Prod.mk.inj (Option.some.inj h)
        rfl

theorem fcloseFile_table (s : FileSystem) (fd : Int) :
    (fcloseFile s fd).2.table = (fclose s.table fd 0).2 := by
  unfold fcloseFile
  dsimp only
  split
  · rfl
  · rfl

theorem fcloseFile_pvts (s : FileSystem) (fd : Int) : (fcloseFile s fd).2.pvts = s.pvts := by
  unfold fcloseFile
  dsimp only
  split
  · rfl
  · rfl

/-- `fclose` clears the slot that the record names, if there is a record. -/
theorem fclose_table {table : FileTable} {fd : Int} :
    (∃ res, fileCall table fd = .error res ∧ (fclose table fd 0).2 = table) ∨
      ∃ desc, fileCall table fd = .served desc ∧ 0 < fd ∧ fd < 512 ∧
        (fclose table fd 0).2 =
          { table with fileDescriptors :=
              Function.update table.fileDescriptors (desc.index - 1).toNat 0 } := by
  cases hCall : fileCall table fd with
  | error res =>
      left
      refine ⟨res, rfl, ?_⟩
      rw [fclose, fcloseCall, hCall]
  | served desc =>
      right
      obtain ⟨hLow, hHigh, hRecord⟩ := fileCall_served hCall
      have hInside : ¬ (fd ≤ 0 ∨ (liebeOsMaxFileDescriptors : Int) ≤ fd) := by
        unfold liebeOsMaxFileDescriptors
        omega
      have hGiven : table.records (fileGetDescriptor table fd) = desc := by
        rw [fileGetDescriptor, if_neg hInside, hRecord]
      refine ⟨desc, rfl, hLow, hHigh, ?_⟩
      rw [fclose, fcloseCall, hCall]
      dsimp only
      rw [if_pos rfl, fileFreeDescriptor, hGiven]

/-- Behind `fclose` the descriptor is as before, or there is no item. -/
theorem itemType_fclose (s : FileSystem) (fd : Int) :
    itemType (fcloseFile s fd).2 fd = none ∨ itemType (fcloseFile s fd).2 fd = itemType s fd := by
  rcases @fclose_table s.table fd with ⟨res, _, hSame⟩ | ⟨desc, _, hLow, hHigh, hCleared⟩
  · right
    rw [itemType, itemType, fcloseFile_table, fcloseFile_pvts, hSame]
  · rw [itemType, itemType, fcloseFile_table, fcloseFile_pvts, hCleared]
    unfold fileCall fileGetDescriptor liebeOsMaxFileDescriptors
    have hRange : ¬ (fd ≤ 0 ∨ ((512 : Nat) : Int) ≤ fd) := by omega
    simp only [if_neg hRange]
    by_cases hSlot : (fd - 1).toNat = (desc.index - 1).toNat
    · left
      rw [← hSlot, Function.update_self, if_pos rfl]
    · right
      rw [Function.update_of_ne hSlot]

/-- A record that knows its descriptor is given up by `fclose`. -/
theorem itemType_fclose_none {s : FileSystem} {fd : Int}
    (hIndex : ∀ desc, fileCall s.table fd = .served desc → desc.index = fd) :
    itemType (fcloseFile s fd).2 fd = none := by
  rcases @fclose_table s.table fd with ⟨res, hCall, hSame⟩ | ⟨desc, hCall, hLow, hHigh, hCleared⟩
  · rw [itemType, fcloseFile_table, hSame, hCall]
  · rw [itemType, fcloseFile_table, hCleared, hIndex desc hCall]
    unfold fileCall fileGetDescriptor liebeOsMaxFileDescriptors
    have hRange : ¬ (fd ≤ 0 ∨ ((512 : Nat) : Int) ≤ fd) := by omega
    simp only [if_neg hRange, Function.update_self, if_true]

/-- No call makes a directory of what is not one. -/
theorem descriptorCall_type (h : (descriptorCall disk fd s call).result = some (res, t)) :
    itemType t.files fd = none ∨ itemType t.files fd = itemType s.files fd := by
  cases hCall : fileCall s.files.table fd with
  | error error =>
      obtain ⟨res', hResult⟩ := @descriptorCall_error disk fd s error hCall call
      rw [hResult] at h
      obtain ⟨_, rfl⟩ := Prod.mk.inj (Option.some.inj h)
      exact Or.inr rfl
  | served desc =>
      cases call with
      | fread ptr size nmemb =>
          right
          rw [descriptorCall, freadCall_served hCall] at h
          split_ifs at h
          · obtain ⟨_, rfl⟩ := Prod.mk.inj (Option.some.inj h)
            rfl
          · obtain ⟨r, _, hState⟩ := Option.map_eq_some_iff.mp h
            obtain ⟨_, rfl⟩ := Prod.mk.inj hState
            rfl
      | fseek offset whence =>
          right
          rw [descriptorCall, fseekCall, hCall] at h
          obtain ⟨⟨res', descriptor⟩, hSeek, hState⟩ := Option.map_eq_some_iff.mp h
          obtain ⟨_, rfl⟩ := Prod.mk.inj hState
          rw [fat16SeekTraced_result] at hSeek
          rw [itemType, itemType, hCall]
          dsimp only
          rw [Function.update_self, fat16Seek_item hSeek]
      | fstat stat =>
          right
          rw [descriptorCall, fstatCall, hCall] at h
          obtain ⟨⟨res', mem⟩, _, hState⟩ := Option.map_eq_some_iff.mp h
          obtain ⟨_, rfl⟩ := Prod.mk.inj hState
          rfl
      | fclose =>
          rw [descriptorCall, fcloseCall, hCall] at h
          obtain ⟨_, rfl⟩ := Prod.mk.inj (Option.some.inj h)
          exact itemType_fclose s.files fd

end Calls

/-! ### The calls without the record -/

theorem descriptorCall_fseek (disk : Disk) (fd : Int) (s : FileState) (offset : Int)
    (whence : FileSeekMode) :
    (descriptorCall disk fd s (.fseek offset whence)).result =
      (fseekFile s.files fd offset whence).map fun (res, files) => (res, { s with files := files }) := by
  rw [descriptorCall, fseekFile]
  cases fseekCall s.files.table fd with
  | error res => rfl
  | served desc =>
      dsimp only
      rw [fat16SeekTraced_result, Option.map_map]
      rfl

theorem descriptorCall_fread {disk : Disk} {fd : Int} {s : FileState}
    (h : itemType s.files fd ≠ some .directory) (ptr size nmemb : Nat) :
    (descriptorCall disk fd s (.fread ptr size nmemb)).result =
      (freadFile disk s.fsPrivate s.files s.mem ptr size nmemb fd).map fun r =>
        (r.res, { s with fsPrivate := r.fsPrivate, mem := r.mem }) := by
  rw [descriptorCall, freadFile]
  cases hCall : freadCall s.files.table size nmemb fd with
  | error res => rfl
  | served desc =>
      have hServed : fileCall s.files.table fd = .served desc := by
        rw [freadCall] at hCall
        split_ifs at hCall
        exact hCall
      dsimp only
      rw [fat16ReadTraced]
      cases hItem : (s.files.pvts desc.file.pvt).item with
      | file fatItem item entry => rfl
      | directory fatItem directory =>
          exact absurd ((itemType_served hServed).trans (by rw [hItem]; rfl)) h

theorem descriptorCall_fclose (disk : Disk) (fd : Int) (s : FileState) :
    (descriptorCall disk fd s .fclose).result =
      some ((fcloseFile s.files fd).1, { s with files := (fcloseFile s.files fd).2 }) := by
  rw [descriptorCall]
  cases hCall : fcloseCall s.files.table fd with
  | served desc => rfl
  | error res =>
      have hNull : fileGetDescriptor s.files.table fd = 0 := by
        rw [fcloseCall, fileCall] at hCall
        by_contra hSome
        rw [if_neg hSome] at hCall
        cases hCall
      have hClose : fclose s.files.table fd 0 = (res, s.files.table) := by
        rw [fclose, hCall]
      have hSame : fcloseFile s.files fd = (res, s.files) := by
        rw [fcloseFile, hClose]
        exact if_pos hNull
      rw [hSame]

/-! ### Sequences of calls -/

section Sequences

variable {disk : Disk} {fd : Int} {s : FileState} {calls : List DescriptorCall}

theorem runCalls_respects (h : itemType s.files fd ≠ some .directory) :
    ∀ r ∈ runCalls disk fd calls s, r.Respects := by
  induction calls generalizing s with
  | nil => exact fun r hr => by cases hr
  | cons call calls ih =>
      intro r hr
      rw [runCalls] at hr
      rcases List.mem_cons.mp hr with rfl | hRest
      · exact callRecord_respects_iff.mpr fun hDirectory => absurd hDirectory h
      · split at hRest
        · cases hRest
        · rename_i res t hResult
          refine ih (fun hDirectory => ?_) r hRest
          rcases descriptorCall_type hResult with hNone | hSame
          · rw [hNone] at hDirectory
            cases hDirectory
          · exact h (hSame.symm.trans hDirectory)

/-- On a directory the type is respected as long as nothing is read before it is closed. -/
theorem runCalls_respects_iff
    (hIndex : ∀ desc, fileCall s.files.table fd = .served desc → desc.index = fd) :
    (∀ r ∈ runCalls disk fd calls s, r.Respects) ↔
      (itemType s.files fd = some .directory →
        ∀ call ∈ calls.takeWhile DescriptorCall.needsFile, call.readsSomething = false) := by
  by_cases hDirectory : itemType s.files fd = some .directory
  · obtain ⟨desc, hServed, hType⟩ := itemType_directory hDirectory
    rw [forall_prop_of_true hDirectory]
    induction calls with
    | nil => simp [runCalls]
    | cons call calls ih =>
        rw [runCalls, List.forall_mem_cons, callRecord_respects_iff, forall_prop_of_true hDirectory]
        cases hNeeds : call.needsFile with
        | false =>
            obtain rfl := DescriptorCall.eq_fclose hNeeds
            rw [List.takeWhile_cons_of_neg (by simp [hNeeds])]
            refine ⟨fun _ call hCall => (by cases hCall), fun _ => ⟨rfl, ?_⟩⟩
            have hNone := itemType_fclose_none hIndex
            rw [descriptorCall, fcloseCall, hServed]
            exact runCalls_respects (by simp [hNone])
        | true =>
            rw [List.takeWhile_cons_of_pos hNeeds, List.forall_mem_cons]
            refine and_congr_right fun hReads => ?_
            rw [descriptorCall_directory hServed hType hNeeds hReads]
            exact ih
  · exact ⟨fun _ h => absurd h hDirectory, fun _ => runCalls_respects hDirectory⟩

end Sequences

/-! ### The item of a descriptor that has just been opened -/

/-- An item that has been made for an entry of a directory, and has the type that the
attributes of the entry ask for. -/
def FatItem.OnVolume (v : FatVolume) (item : FatItem) : Prop :=
  ∃ entry heap heap', fat16NewFatItemForDirectoryItem v heap entry = .returned (some item, heap') ∧
    (item.type = .directory ↔ entry.attr &&& fatFileSubdirectory ≠ 0)

section Opened

variable {v : FatVolume} {heap : Heap}

theorem fat16NewFatItem_onVolume (v : FatVolume) (heap : Heap) (entry : FatDirectoryItem) :
    (fat16NewFatItemForDirectoryItem v heap entry).Ensures fun res =>
      ∀ item, res.1 = some item → item.OnVolume v := by
  rintro ⟨result, heap'⟩ hMade item rfl
  refine ⟨entry, heap, heap', hMade, ?_⟩
  unfold fat16NewFatItemForDirectoryItem at hMade
  dsimp only at hMade
  split_ifs at hMade with hNull hDirectory
  · cases hMade
  · obtain ⟨⟨directory, left⟩, _, hItem⟩ := Attempt.bind_returned_iff.mp hMade
    cases hItem
    exact ⟨fun _ => hDirectory, fun _ => rfl⟩
  · cases hMade
    exact ⟨fun hType => absurd hType (by simp [FatItem.type]), fun h => absurd h hDirectory⟩

theorem findItemLoop_onVolume (directory : FatDirectoryRecord) (name : List UInt8) (left i : Nat)
    {tmpItem : Option FatItem} (hTmp : ∀ item, tmpItem = some item → item.OnVolume v) :
    (findItemLoop v directory name left i tmpItem heap).Ensures fun res =>
      ∀ item, res.1 = some item → item.OnVolume v := by
  induction left generalizing i tmpItem heap with
  | zero => exact Attempt.ensures_returned hTmp
  | succ left ih =>
      rw [findItemLoop]
      split_ifs
      · exact Attempt.ensures_bind (fat16NewFatItem_onVolume v heap (directory.item i))
          fun res hRes => ih (i + 1) hRes
      · exact ih (i + 1) hTmp

theorem fat16FindItem_onVolume (heap : Heap) (directory : Option FatDirectoryRecord)
    (name : List UInt8) :
    (fat16FindItemInDirectory v heap directory name).Ensures fun res =>
      ∀ item, res.1 = some item → item.OnVolume v := by
  cases directory with
  | none => exact Attempt.ensures_undefined
  | some directory =>
      rw [fat16FindItemInDirectory]
      split_ifs
      · exact Attempt.ensures_undefined
      · exact findItemLoop_onVolume directory name _ _ fun item hNone => absurd hNone.symm (Option.some_ne_none item)

theorem directoryEntryLoop_onVolume (path : List PathPart) {item : Option FatItem}
    (hItem : ∀ it, item = some it → it.OnVolume v) :
    (directoryEntryLoop v path item heap).Ensures fun res =>
      ∀ it, res.1 = some it → it.OnVolume v := by
  induction path generalizing item heap with
  | nil => exact Attempt.ensures_returned hItem
  | cons part rest ih =>
      cases item with
      | none => exact Attempt.ensures_undefined
      | some current =>
          cases current with
          | file fatItem copy entry => exact Attempt.ensures_returned fun it hNone => absurd hNone.symm (Option.some_ne_none it)
          | directory fatItem directory =>
              exact Attempt.ensures_bind (fat16FindItem_onVolume heap directory part.part)
                fun res hRes => ih hRes

/-- At any depth, what is found is an item of the volume. -/
theorem fat16GetDirectoryEntry_onVolume (heap : Heap) (path : List PathPart) :
    (fat16GetDirectoryEntry v heap path).Ensures fun res =>
      ∀ item, res.1 = some item → item.OnVolume v := by
  cases path with
  | nil => exact Attempt.ensures_undefined
  | cons first rest =>
      refine Attempt.ensures_bind (fat16FindItem_onVolume heap _ first.part) fun res hRes => ?_
      obtain ⟨item, heap'⟩ := res
      cases item with
      | none => exact Attempt.ensures_returned fun it hNone => absurd hNone.symm (Option.some_ne_none it)
      | some item => exact directoryEntryLoop_onVolume rest hRes

/-- A successful `fat16_open` yields an item of the volume, another one an error code. -/
theorem fat16Open_onVolume (heap : Heap) (path : List PathPart) (mode : FileMode) :
    (fat16Open v heap path mode).Ensures fun res =>
      (res.2.1 = none → signed res.1 < 0) ∧
        ∀ record, res.2.1 = some record → record.item.OnVolume v := by
  have hFails : ∀ (code : Int) (heap : Heap), signed (toWord (-code)) < 0 →
      (Attempt.returned (toWord (-code), (none : Option FatFileDescriptor), heap)).Ensures fun res =>
        (res.2.1 = none → signed res.1 < 0) ∧
          ∀ record, res.2.1 = some record → record.item.OnVolume v := fun code heap hCode =>
    Attempt.ensures_returned ⟨fun _ => hCode, fun record hNone => absurd hNone.symm (Option.some_ne_none record)⟩
  cases mode with
  | write => exact hFails erdonly heap (by decide)
  | append => exact hFails erdonly heap (by decide)
  | invalid => exact hFails erdonly heap (by decide)
  | read =>
      rw [fat16Open]
      dsimp only
      split_ifs
      · exact hFails enomem _ (by decide)
      · refine Attempt.ensures_bind (fat16GetDirectoryEntry_onVolume _ path) fun res hRes => ?_
        obtain ⟨item, heap'⟩ := res
        cases item with
        | none => exact hFails eio heap' (by decide)
        | some item =>
            refine Attempt.ensures_returned ⟨fun hNone => absurd hNone (Option.some_ne_none _), fun record hRecord => ?_⟩
            cases hRecord
            exact hRes item rfl

end Opened

/-- When everything answers well, the private data are those of an item of the volume. -/
def AnswersItem (v : FatVolume) (modeStr : List Char) (res : FopenAnswers × FileSystem) : Prop :=
  res.1.Opens modeStr → (res.2.pvts res.1.pvt).item.OnVolume v

theorem descriptorAnswers_pvts (s : FileSystem) (a : FopenAnswers) (heap : Heap)
    (record : FatFileDescriptor) :
    (descriptorAnswers s a heap (some record)).1.pvt = a.pvt ∧
      (descriptorAnswers s a heap (some record)).2.pvts a.pvt = record := by
  rw [descriptorAnswers]
  dsimp only
  split_ifs
  · exact ⟨rfl, Function.update_self ..⟩
  · exact ⟨rfl, Function.update_self ..⟩

theorem pathAnswers_item (d : MountedDisk) (s : FileSystem) (root : PathRoot) (heap : Heap)
    (modeStr : List Char) :
    (pathAnswers d s root heap (fileGetModeByString modeStr)).Ensures
      (AnswersItem d.volume modeStr) := by
  unfold pathAnswers
  dsimp only
  generalize (if root.driveNo = 0 then d.disk else 0) = disk
  generalize (root.first.map PathPart.node).headD 0 = first
  have hOpen : ∀ mode, (fat16Open d.volume heap root.first mode >>= fun res =>
      Attempt.returned (descriptorAnswers s ⟨root.root, first, disk, d.filesystem, res.1, 0⟩ res.2.2
        res.2.1)).Ensures (AnswersItem d.volume modeStr) := fun mode =>
    Attempt.ensures_bind (fat16Open_onVolume heap root.first mode) fun res hRes => by
      obtain ⟨pvt, record, heap'⟩ := res
      refine Attempt.ensures_returned fun hOpens => ?_
      cases record with
      | none =>
          have hPvt : 0 ≤ signed pvt := hOpens.2.2.2.2.2
          have hError : signed pvt < 0 := hRes.1 rfl
          omega
      | some record =>
          obtain ⟨hPvt, hRecord⟩ := descriptorAnswers_pvts s
            ⟨root.root, first, disk, d.filesystem, pvt, 0⟩ heap' record
          dsimp only
          rw [hPvt, hRecord]
          exact hRes.2 record rfl
  split_ifs with hMissing
  · refine Attempt.ensures_returned fun hOpens => ?_
    obtain ⟨hRoot, hFirst, hDisk, hFilesystem, _⟩ := hOpens
    rcases hMissing with h | h | h | h
    · exact absurd h hRoot
    · exact absurd h hFirst
    · exact absurd h hDisk
    · exact absurd h hFilesystem
  · cases hMode : fileGetModeByString modeStr with
    | invalid => exact Attempt.ensures_returned fun hOpens => absurd hMode hOpens.2.2.2.2.1
    | read => exact hOpen .read
    | write => exact hOpen .write
    | append => exact hOpen .append

/-- A descriptor that `fopen` returns knows its number and stands for an item of the
volume. -/
theorem fopenFile_item {d : MountedDisk} {s s' : FileSystem} {filename : List UInt8}
    {modeStr : List Char} {fd : Int} (hOpen : fopenFile d s filename modeStr = .returned (fd, s'))
    (hSuccess : 0 < fd) {desc : FileDescriptor} (hServed : fileCall s'.table fd = .served desc) :
    desc.index = fd ∧ (s'.pvts desc.file.pvt).item.OnVolume d.volume := by
  obtain ⟨⟨a, opened⟩, hAnswers, hCall⟩ := Attempt.bind_returned_iff.mp hOpen
  obtain ⟨⟨root, heap⟩, _, hPath⟩ := Attempt.bind_returned_iff.mp hAnswers
  have hItem := pathAnswers_item d s root heap modeStr _ hPath
  dsimp only at hCall
  rcases fopen_cases opened.table a modeStr with
    ⟨_, hResult⟩ | ⟨_, hResult⟩ | ⟨hOpens, i, _, hResult⟩
  · rw [hResult] at hCall
    cases hCall
    exact absurd hSuccess (Int.lt_irrefl 0)
  · rw [hResult] at hCall
    cases hCall
    exact absurd hSuccess (Int.lt_irrefl 0)
  · rw [hResult] at hCall
    cases hCall
    have hPvts := hItem hOpens
    have hIndex : ((i : Int) + 1 - 1).toNat = i := by omega
    obtain ⟨_, _, hRecord⟩ := fileCall_served hServed
    dsimp only at hRecord
    rw [hIndex, Function.update_self, Function.update_self] at hRecord
    rw [← hRecord]
    exact ⟨rfl, hPvts⟩

/-- A descriptor from `fopen` is for an item whose type has been set as its entry says,
and any calls on it respect the type unless it is a directory from which something is
read before it is closed. -/
theorem descriptorKind_iff {d : MountedDisk} {s s' : FileSystem} {filename : List UInt8}
    {modeStr : List Char} {fd : Int} (hOpen : fopenFile d s filename modeStr = .returned (fd, s'))
    (hSuccess : 0 < fd) :
    (∀ desc, fileCall s'.table fd = .served desc →
      (s'.pvts desc.file.pvt).item.OnVolume d.volume) ∧
    ∀ (disk : Disk) (p : FatPrivate) (mem : Memory) (calls : List DescriptorCall),
      (∀ r ∈ runCalls disk fd calls ⟨s', p, mem⟩, r.Respects) ↔
        (itemType s' fd = some .directory →
          ∀ call ∈ calls.takeWhile DescriptorCall.needsFile, call.readsSomething = false) :=
  ⟨fun _ hServed => (fopenFile_item hOpen hSuccess hServed).2,
    fun _ _ _ _ => runCalls_respects_iff fun _ hServed => (fopenFile_item hOpen hSuccess hServed).1⟩

/-- A volume with a directory `x`, in which there is one entry. -/
def directoryDisk : MountedDisk :=
  ⟨⟨⟨0x01000000, 0x01001000, 1, fun _ => ⟨[0x78], fatFileSubdirectory, 2, 0⟩⟩,
    fun _ => some (1, fun _ => ⟨[0x79], 0, 3, 0⟩)⟩, 1, 1⟩

/-- `fopen("0:/x", "r")` succeeds. -/
theorem directoryDisk_opened :
    ∃ s', fopenFile directoryDisk freshFiles [0x30, colon, slash, 0x78] ['r'] = .returned (1, s') ∧
      itemType s' 1 = some .directory := by
  have hOpens : (match fopenFile directoryDisk freshFiles [0x30, colon, slash, 0x78] ['r'] with
      | .returned (res, s') => res == 1 && decide (itemType s' 1 = some .directory)
      | _ => false) = true := by decide +kernel
  generalize fopenFile directoryDisk freshFiles [0x30, colon, slash, 0x78] ['r'] = call at hOpens
  cases call with
  | returned r =>
      obtain ⟨res, s'⟩ := r
      obtain ⟨rfl, hType⟩ : res = 1 ∧ itemType s' 1 = some .directory := by simpa using hOpens
      exact ⟨s', rfl, hType⟩
  | endless => cases hOpens
  | undefined => cases hOpens

/-- Seeking in an open directory, asking for its size and reading nothing fail, and it can
be read from when it is closed. -/
theorem descriptorKind_directory :
    ∃ s', fopenFile directoryDisk freshFiles [0x30, colon, slash, 0x78] ['r'] = .returned (1, s') ∧
      itemType s' 1 = some .directory ∧
      ∀ (disk : Disk) (p : FatPrivate) (mem : Memory), ∀ r ∈ runCalls disk 1
        [.fseek 0 .seekSet, .fstat 0x8000, .fread 0x8000 0 1, .fclose, .fread 0x8000 1 1]
        ⟨s', p, mem⟩, r.Respects := by
  obtain ⟨s', hOpen, hType⟩ := directoryDisk_opened
  refine ⟨s', hOpen, hType, fun disk p mem => ?_⟩
  exact ((descriptorKind_iff hOpen (by decide)).2 disk p mem _).mpr fun _ => by decide

/-- A read of one byte from an open directory takes the record of the directory for a
file entry. -/
theorem fread_directory_accesses_item :
    ∃ s', fopenFile directoryDisk freshFiles [0x30, colon, slash, 0x78] ['r'] = .returned (1, s') ∧
      ∀ (disk : Disk) (p : FatPrivate) (mem : Memory),
        ∃ r ∈ runCalls disk 1 [.fread 0x8000 1 1] ⟨s', p, mem⟩,
          ⟨.item, .directory⟩ ∈ r.accesses ∧ ¬ r.Respects := by
  obtain ⟨s', hOpen, hType⟩ := directoryDisk_opened
  refine ⟨s', hOpen, fun disk p mem => ⟨_, List.mem_cons_self, ?_, ?_⟩⟩
  · obtain ⟨desc, hServed, hDirectory⟩ := @itemType_directory 1 ⟨s', p, mem⟩ hType
    have hAccess := @descriptorCall_reads disk 1 ⟨s', p, mem⟩ (.fread 0x8000 1 1) desc hServed rfl
    rwa [FatItem.access, hDirectory] at hAccess
  · rw [callRecord_respects_iff]
    exact fun h => absurd (h hType) (by decide)

end LiebeOS
