import LiebeOS.Fs.FileTable
import LiebeOS.Fs.PathParser
import LiebeOS.Lib.MachineInt

/-! Opening and closing files in `fat16.c`: which records are taken from the
heap and given back while a path is walked. What the disk answers is an input:
the entries of the directories, with their names as
`fat16_get_full_relative_filename` renders them. -/
namespace LiebeOS

open Attempts MachineInt

def fatFileSubdirectory : UInt8 := 0x10

structure FatDirectoryItem where
  fullName : List UInt8
  attr : UInt8
  firstCluster : Nat
  filesize : Nat

/-- The directory record, its entries on the heap, and what they are. -/
structure FatDirectoryRecord where
  directory : Nat
  items : Nat
  total : Int
  item : Nat → FatDirectoryItem

/-- A `struct fat_item` with the record that its union points to. A directory
that could not be allocated is null. -/
inductive FatItem where
  | file (fatItem item : Nat) (entry : FatDirectoryItem)
  | directory (fatItem : Nat) (directory : Option FatDirectoryRecord)

/-- A mounted volume. Loading the subdirectory at a cluster yields the number of
its entries, or an error code, and the entries, unless it never ends. -/
structure FatVolume where
  rootDirectory : FatDirectoryRecord
  subdirectory : Nat → Option (Int × (Nat → FatDirectoryItem))

/-- One case-insensitive comparison of characters. -/
def toLower (c : UInt8) : UInt8 := if 65 ≤ c ∧ c ≤ 90 then c + 32 else c

def istrncmp : List UInt8 → List UInt8 → Nat → Int
  | _, _, 0 => 0
  | str1, str2, n + 1 =>
      let c1 := str1.headD 0
      let c2 := str2.headD 0
      if c1 ≠ c2 ∧ toLower c1 ≠ toLower c2 then (c1.toNat : Int) - c2.toNat
      else if c1 = 0 then 0
      else istrncmp str1.tail str2.tail n

/-! ### Items -/

/-- The entries are requested for any number, negative codes included: close to
2^32 bytes round to no block at all, and clearing them clears all memory. More
entries than an address space holds are looked for outside of their block. -/
def fat16LoadFatDirectory (v : FatVolume) (heap : Heap) (entry : FatDirectoryItem) :
    Attempt (Option FatDirectoryRecord × Heap) :=
  let (directory, heap) := heapMalloc heap 16
  if directory = 0 then .returned (none, heap)
  else
    match v.subdirectory entry.firstCluster with
    | none => .endless
    | some (total, item) =>
        let directorySize := toWord (total * 32)
        let (items, heap) := heapMalloc heap directorySize
        if items ≠ 0 ∧ 0xFFFFF000 < directorySize ∨ 4294967296 ≤ total * 32 then .undefined
        else .returned (some ⟨directory, items, total, item⟩, heap)

def fat16NewFatItemForDirectoryItem (v : FatVolume) (heap : Heap) (entry : FatDirectoryItem) :
    Attempt (Option FatItem × Heap) :=
  let (fatItem, heap) := heapMalloc heap 8
  if fatItem = 0 then .returned (none, heap)
  else if entry.attr &&& fatFileSubdirectory ≠ 0 then do
    let (directory, heap) ← fat16LoadFatDirectory v heap entry
    .returned (some (.directory fatItem directory), heap)
  else
    let (item, heap) := heapMalloc heap 32
    .returned (some (.file fatItem item entry), heap)

/-- The loop of `fat16_find_item_in_directory` at entry `i`. It goes on behind a
match, so that the last match counts, and the items of the others are lost. -/
def findItemLoop (v : FatVolume) (directory : FatDirectoryRecord) (name : List UInt8) :
    Nat → Nat → Option FatItem → Heap → Attempt (Option FatItem × Heap)
  | 0, _, tmpItem, heap => .returned (tmpItem, heap)
  | left + 1, i, tmpItem, heap =>
      if istrncmp (directory.item i).fullName name liebeOsMaxPathLen = 0 then do
        let (tmpItem, heap) ← fat16NewFatItemForDirectoryItem v heap (directory.item i)
        findItemLoop v directory name left (i + 1) tmpItem heap
      else findItemLoop v directory name left (i + 1) tmpItem heap

/-- Neither the directory nor its entries are checked for null. -/
def fat16FindItemInDirectory (v : FatVolume) (heap : Heap) (directory : Option FatDirectoryRecord)
    (name : List UInt8) : Attempt (Option FatItem × Heap) :=
  match directory with
  | none => .undefined
  | some directory =>
      if directory.items = 0 ∧ 0 < directory.total then .undefined
      else findItemLoop v directory name directory.total.toNat 0 none heap

def fat16FreeDirectory (heap : Heap) (directory : Option FatDirectoryRecord) : Heap :=
  match directory with
  | none => heap
  | some directory =>
      let heap := if directory.items ≠ 0 then heapFree heap directory.items else heap
      heapFree heap directory.directory

def fat16FatItemFree (heap : Heap) (item : FatItem) : Heap :=
  match item with
  | .directory fatItem directory => heapFree (fat16FreeDirectory heap directory) fatItem
  | .file fatItem item _ => heapFree (heapFree heap item) fatItem

/-- The loop of `fat16_get_directory_entry`. A file in the middle of the path is
dropped without being freed; after a part that was not found the next round goes
through null. -/
def directoryEntryLoop (v : FatVolume) :
    List PathPart → Option FatItem → Heap → Attempt (Option FatItem × Heap)
  | [], currentItem, heap => .returned (currentItem, heap)
  | nextPart :: rest, currentItem, heap =>
      match currentItem with
      | none => .undefined
      | some (.file _ _ _) => .returned (none, heap)
      | some (.directory fatItem directory) => do
          let (tmpItem, heap) ← fat16FindItemInDirectory v heap directory nextPart.part
          directoryEntryLoop v rest tmpItem (fat16FatItemFree heap (.directory fatItem directory))

def fat16GetDirectoryEntry (v : FatVolume) (heap : Heap) (path : List PathPart) :
    Attempt (Option FatItem × Heap) :=
  match path with
  | [] => .undefined
  | first :: rest => do
      let (rootItem, heap) ← fat16FindItemInDirectory v heap (some v.rootDirectory) first.part
      match rootItem with
      | none => .returned (none, heap)
      | some item => directoryEntryLoop v rest (some item) heap

/-- The private data of an open file. -/
structure FatFileDescriptor where
  item : FatItem
  pos : Nat

/-- The address of the descriptor and the record, or an error in place of the
address. The descriptor is not freed when the item is not found. -/
def fat16Open (v : FatVolume) (heap : Heap) (path : List PathPart) (mode : FileMode) :
    Attempt (Nat × Option FatFileDescriptor × Heap) :=
  match mode with
  | .read => do
      let (descriptor, heap) := heapMalloc heap 8
      if descriptor = 0 then .returned (toWord (-enomem), none, heap)
      else do
        let (item, heap) ← fat16GetDirectoryEntry v heap path
        match item with
        | none => .returned (toWord (-eio), none, heap)
        | some item => .returned (descriptor, some ⟨item, 0⟩, heap)
  | _ => .returned (toWord (-erdonly), none, heap)

def fat16Close (heap : Heap) (descriptor : Nat) (record : FatFileDescriptor) : Heap :=
  heapFree (fat16FatItemFree heap record.item) descriptor

/-! ### The calls of `file.c` -/

/-- The descriptor table and the heap below it. The volume is disk 0. -/
structure FileSystem where
  heap : Heap
  table : FileTable
  pvts : Nat → FatFileDescriptor

/-- Addresses of the disk object and of its filesystem. -/
structure MountedDisk where
  volume : FatVolume
  disk : Nat
  filesystem : Nat

/-- A record for the descriptor is requested when the file has been opened and a
slot is free. -/
def descriptorAnswers (s : FileSystem) (a : FopenAnswers) (heap : Heap) :
    Option FatFileDescriptor → FopenAnswers × FileSystem
  | none => (a, { s with heap := heap })
  | some record =>
      let s := { s with pvts := Function.update s.pvts a.pvt record }
      if fileFreeSlot s.table = none then (a, { s with heap := heap })
      else
        let (desc, heap) := heapMalloc heap 16
        ({ a with desc := desc }, { s with heap := heap })

/-- Unless something is missing the filesystem is asked to open the file. -/
def pathAnswers (d : MountedDisk) (s : FileSystem) (root : PathRoot) (heap : Heap)
    (mode : FileMode) : Attempt (FopenAnswers × FileSystem) :=
  let disk := if root.driveNo = 0 then d.disk else 0
  let first := (root.first.map PathPart.node).headD 0
  let a : FopenAnswers := ⟨root.root, first, disk, d.filesystem, 0, 0⟩
  if a.root = 0 ∨ a.first = 0 ∨ a.disk = 0 ∨ a.filesystem = 0 then
    .returned (a, { s with heap := heap })
  else
    match mode with
    | .invalid => .returned (a, { s with heap := heap })
    | mode => do
        let (pvt, record, heap) ← fat16Open d.volume heap root.first mode
        .returned (descriptorAnswers s { a with pvt := pvt } heap record)

/-- What `fopen` meets on its way down, and the heap and private data behind it. -/
def fopenAnswers (d : MountedDisk) (s : FileSystem) (filename : List UInt8) (modeStr : List Char) :
    Attempt (FopenAnswers × FileSystem) := do
  let (root, heap) ← pathparserParse s.heap filename
  pathAnswers d s root heap (fileGetModeByString modeStr)

/-- `fopen` with everything below it. Nothing frees the path again. -/
def fopenFile (d : MountedDisk) (s : FileSystem) (filename : List UInt8) (modeStr : List Char) :
    Attempt (Int × FileSystem) := do
  let (a, s) ← fopenAnswers d s filename modeStr
  let (res, table) := fopen s.table a modeStr
  .returned (res, { s with table := table })

/-- `fat16_close` always answers OK. -/
def fcloseFile (s : FileSystem) (fd : Int) : Int × FileSystem :=
  let desc := fileGetDescriptor s.table fd
  let (res, table) := fclose s.table fd 0
  if desc = 0 then (res, { s with table := table })
  else
    let pvt := (s.table.records desc).file.pvt
    (res, { s with
      heap := heapFree (fat16Close s.heap pvt (s.pvts pvt)) desc
      table := table })

end LiebeOS
