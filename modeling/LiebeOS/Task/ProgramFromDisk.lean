import LiebeOS.Fs.FileAccess
import LiebeOS.Task.FlatProgram

/-! A program from the clusters of the disk to its address space. The loader
is told what a file holds; here it is told what `fread` finds on a FAT16 volume. -/
namespace LiebeOS

open Attempts MachineInt Bytes

/-- The volume with its streams where earlier reads have left them. -/
def FatPrivate.streams (p : FatPrivate) (cluster fat directory : DiskStream) : FatPrivate :=
  { p with clusterReadStream := cluster, fatReadStream := fat, directoryStream := directory }

/-- A file that is not empty, in clusters that the drive has. -/
structure FileReadable (disk : Disk) (p : FatPrivate) (entry : FatDirectoryItem) : Prop where
  size : 1 ≤ entry.filesize ∧ entry.filesize < 2147483648
  clusters : 0 < p.header.sectorsPerCluster
  fit : VisitedFit disk p entry.firstCluster entry.filesize
  chain : ChainReadable disk p entry.firstCluster entry.filesize

section Volume

variable {disk : Disk} {p : FatPrivate} {entry : FatDirectoryItem} {d : DiskFiles}

/-- A readable file is read completely, wherever the buffer and the streams are. -/
theorem FileReadable.internal (h : FileReadable disk p entry) (cluster fat directory : DiskStream)
    (mem : Memory) (ptr : Nat) :
    ∃ r, fat16ReadInternal disk (p.streams cluster fat directory) entry.firstCluster 0
        entry.filesize mem ptr = some r ∧ r.res = 0 ∧
      Filled mem r.mem ptr entry.filesize fun i => fileByte disk p entry.firstCluster i := by
  obtain ⟨hPositive, hInt⟩ := h.size
  have hFit : VisitedFit disk (p.streams cluster fat directory) entry.firstCluster entry.filesize :=
    ⟨h.fit.sector, h.fit.entry⟩
  have hChain : ChainReadable disk (p.streams cluster fat directory) entry.firstCluster
      entry.filesize := h.chain
  have hSectors : 0 < (p.streams cluster fat directory).header.sectorsPerCluster := h.clusters
  obtain ⟨r, hRead, hOk⟩ := fat16ReadInternalFromStream_succeeds cluster mem ptr hSectors hFit
    hChain hInt (show 0 * clusterBytes (p.streams cluster fat directory).header + entry.filesize =
      entry.filesize by omega) (by omega)
  rw [Nat.zero_mul] at hRead
  have hInternal : fat16ReadInternal disk (p.streams cluster fat directory) entry.firstCluster 0
      entry.filesize mem ptr =
        some { r with fsPrivate := { r.fsPrivate with clusterReadStream := r.stream } } := by
    have hStream : fat16ReadInternalFromStream disk (p.streams cluster fat directory)
        (p.streams cluster fat directory).clusterReadStream entry.firstCluster 0 entry.filesize mem
        ptr = some r := hRead
    rw [fat16ReadInternal, hStream, Option.map_some]
  exact ⟨_, hInternal, hOk, fat16ReadInternal_follows_chain disk (p.streams cluster fat directory)
    entry.firstCluster entry.filesize mem ptr _ hSectors hPositive hInt hFit hInternal hOk⟩

/-- One block is one round of the loop. -/
theorem FileReadable.block (h : FileReadable disk p entry) (cluster fat directory : DiskStream)
    (mem : Memory) (ptr : Nat) :
    ∃ p' mem', fat16ReadLoop disk entry.firstCluster entry.filesize (toInt entry.filesize) 1
        (p.streams cluster fat directory) (toInt ((0 : Nat) : Int)) mem ptr = some ⟨0, p', mem'⟩ ∧
      Filled mem mem' ptr entry.filesize fun i => fileByte disk p entry.firstCluster i := by
  obtain ⟨r, hRead, hOk, hFilled⟩ := h.internal cluster fat directory mem ptr
  have hSize := h.size
  refine ⟨r.fsPrivate, r.mem, ?_, hFilled⟩
  rw [toInt_of_range (by omega) (by omega), show toInt ((0 : Nat) : Int) = 0 by decide, fat16ReadLoop,
    hRead]
  dsimp only
  rw [hOk, if_neg (Int.lt_irrefl 0), fat16ReadLoop]

/-- `fread` of the whole file through any descriptor that is at its beginning. -/
theorem FileReadable.whole (h : FileReadable disk p entry) {s : FileSystem} {fd : Int}
    (hOpen : OpenAt s fd entry 0) (cluster fat directory : DiskStream) (mem : Memory) (ptr : Nat) :
    ∃ r, freadFile disk (p.streams cluster fat directory) s mem ptr entry.filesize 1 fd = some r ∧
      r.res = 1 ∧ Filled mem r.mem ptr entry.filesize fun i => fileByte disk p entry.firstCluster i := by
  obtain ⟨p', mem', hLoop, hFilled⟩ := h.block cluster fat directory mem ptr
  refine ⟨⟨1, p', mem'⟩, ?_, rfl, hFilled⟩
  rw [freadFile_openAt hOpen mem ptr h.size.1 Nat.one_pos, hLoop, Option.map_some,
    if_neg (Int.lt_irrefl 0), toInt_of_range (by decide) (by decide)]
  rfl

/-- What the loader is told about a file is what `fread` answers on the volume, with
whatever descriptor, buffer and streams. -/
def ToldByFread (d : DiskFiles) (disk : Disk) (p : FatPrivate) (entry : FatDirectoryItem) : Prop :=
  ∀ (s : FileSystem) (fd : Int) (cluster fat directory : DiskStream) (mem : Memory) (ptr : Nat)
    (r : FatRead), OpenAt s fd entry 0 →
      freadFile disk (p.streams cluster fat directory) s mem ptr entry.filesize 1 fd = some r →
      ∃ content, d.read entry = .returned (r.res, content) ∧
        ∀ i < entry.filesize, r.mem (ptr + i) = content i

/-- So the loader is told the bytes in the clusters of the file. -/
theorem FileReadable.told (h : FileReadable disk p entry) (hTold : ToldByFread d disk p entry) :
    ∃ content, d.read entry = .returned (1, content) ∧
      ∀ i < entry.filesize, content i = fileByte disk p entry.firstCluster i := by
  obtain ⟨r, hRead, hOne, hFilled⟩ := h.whole (oneFile_openAt entry) p.clusterReadStream
    p.fatReadStream p.directoryStream (fun _ => 0) 0
  obtain ⟨content, hAnswer, hContent⟩ := hTold _ _ _ _ _ _ _ r (oneFile_openAt entry) hRead
  rw [hOne] at hAnswer
  exact ⟨content, hAnswer, fun i hi => (hContent i hi).symm.trans (hFilled.1 i hi)⟩

theorem FlatSpace.congr {mem : Memory} {directory stack n : Nat} {content content' : Nat → UInt8}
    (h : FlatSpace mem directory stack n content) (hSame : ∀ i < n, content i = content' i) :
    FlatSpace mem directory stack n content' where
  program i hi := by
    obtain ⟨phys, hWritable, hByte⟩ := h.program i hi
    exact ⟨phys, hWritable, hByte.trans (hSame i hi)⟩
  stack := h.stack
  others := h.others

end Volume

/-- A flat binary on a volume is started, and what it finds at the addresses of programs
are the bytes in the chain of clusters that its directory entry begins. These are what `fread`
puts into any buffer, wherever the streams have been left. -/
theorem processLoad_flat_from_disk (d : DiskFiles) (disk : Disk) (p : FatPrivate) (live : List Nat)
    (s : System) (filename : List UInt8) (n : Nat) (content : Nat → UInt8)
    (hHeap : HeapInOrder s.storage.files.heap) (hQueue : QueueShape s.kernel.sched live)
    (hLive : ∀ task ∈ live, Allotted s.storage.files.heap (blockOf task) 1) {slot : Nat}
    (hSlot : processGetFreeSlot s.kernel = some slot) (hn : 1 ≤ n)
    (l : FlatLoad d s.storage filename n content)
    (hReadable : FileReadable disk p l.binary.entry) (hTold : ToldByFread d disk p l.binary.entry) :
    (∀ (fs : FileSystem) (fd : Int) (cluster fat directory : DiskStream) (mem : Memory) (ptr : Nat),
      OpenAt fs fd l.binary.entry 0 →
      ∃ r, freadFile disk (p.streams cluster fat directory) fs mem ptr n 1 fd = some r ∧ r.res = 1 ∧
        Filled mem r.mem ptr n fun i => fileByte disk p l.binary.entry.firstCluster i) ∧
    ∃ s', systemProcessLoad d s filename = .returned (0, l.process, s') ∧
      ProcessReady live s s' slot l.process l.task ∧
      (s'.kernel.sched.tasks l.task).registers.ip = liebeOsProgramVirtualAddress ∧
      FlatSpace s'.storage.mem (s'.loaded l.process).directory l.stack n fun i =>
        fileByte disk p l.binary.entry.firstCluster i := by
  obtain ⟨told, hAnswer, hBytes⟩ := hReadable.told hTold
  -- the load has been told the same
  have hContent : told = content :=
    (Prod.mk.inj (Attempt.returned.inj (hAnswer.symm.trans l.binary.read))).2
  rw [l.binary.filesize, hContent] at hBytes
  obtain ⟨s', hCall, hReady⟩ := (l.start hHeap hn).ready hHeap hQueue hLive hSlot
  obtain ⟨hIp, hSpace⟩ := l.started hHeap hn hSlot hCall hReady
  refine ⟨fun fs fd cluster fat directory mem ptr hOpen => ?_, s', hCall, hReady, hIp,
    hSpace.congr hBytes⟩
  have hWhole := hReadable.whole hOpen cluster fat directory mem ptr
  rwa [l.binary.filesize] at hWhole

/-- A drive of eight sectors. The small file is in the fourth, which is cluster 2. -/
def flatDisk : Disk := ⟨8, fun i => if 1536 ≤ i ∧ i < 1552 then 0x90 else 0⟩

def flatVolume : FatPrivate :=
  ⟨⟨1, 0, 1, 16, 1⟩, ⟨0, 1, 3⟩, ⟨0, .diskObj⟩, ⟨0, .diskObj⟩, ⟨0, .diskObj⟩⟩

section Flat

variable {entry : FatDirectoryItem}

theorem flatVolume_readable (hCluster : entry.firstCluster = 2) (hSize : entry.filesize = 16) :
    FileReadable flatDisk flatVolume entry := by
  have hFirst : ∀ j, j * clusterBytes flatVolume.header < 16 → j = 0 := fun j hj => by
    rw [show clusterBytes flatVolume.header = 512 by decide] at hj
    omega
  refine ⟨by omega, by decide, ?_, ?_⟩
  · rw [hCluster, hSize]
    refine ⟨fun j hj => ?_, fun hMore => absurd hMore (by decide)⟩
    obtain rfl := hFirst j hj
    decide
  · rw [hCluster, hSize]
    intro j hj
    obtain rfl := hFirst j hj
    decide

theorem flatVolume_told (hCluster : entry.firstCluster = 2) (hSize : entry.filesize = 16) :
    ToldByFread flatFiles flatDisk flatVolume entry := by
  intro s fd cluster fat directory mem ptr r hOpen hRead
  obtain ⟨r', hRead', hOne, hFilled⟩ :=
    (flatVolume_readable hCluster hSize).whole hOpen cluster fat directory mem ptr
  obtain rfl := Option.some.inj (hRead'.symm.trans hRead)
  have hBytes : ∀ i < 16, fileByte flatDisk flatVolume ((2 : Nat) : Int) i = 0x90 := by
    decide +kernel
  refine ⟨fun _ => 0x90, ?_, fun i hi => (hFilled.1 i hi).trans ?_⟩
  · rw [hOne]
    rfl
  · rw [hCluster]
    exact hBytes i (by omega)

end Flat

/-- The first program comes from cluster 2 of that drive. -/
theorem processLoad_flat_from_disk_first :
    ∃ process task stack s',
      systemProcessLoad flatFiles (startSystem fun _ => 0) missingFile =
        .returned (0, process, s') ∧
      ProcessReady [] (startSystem fun _ => 0) s' 0 process task ∧
      (s'.kernel.sched.tasks task).registers.ip = liebeOsProgramVirtualAddress ∧
      FlatSpace s'.storage.mem (s'.loaded process).directory stack 16 fun i =>
        fileByte flatDisk flatVolume (2 : Nat) i := by
  obtain ⟨l, hCluster, _⟩ := startSystem_load
  obtain ⟨_, s', hLoad⟩ := processLoad_flat_from_disk flatFiles flatDisk flatVolume []
    (startSystem fun _ => 0) missingFile 16 _ (startSystem_heap _) (startSystem_queue _)
    (fun _ hNone => absurd hNone List.not_mem_nil) rfl (by decide) l
    (flatVolume_readable hCluster l.binary.filesize) (flatVolume_told hCluster l.binary.filesize)
  rw [hCluster] at hLoad
  exact ⟨l.process, l.task, l.stack, s', hLoad⟩

end LiebeOS
