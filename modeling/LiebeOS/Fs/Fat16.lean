import LiebeOS.Disk.Streamer

/-! The volume as `fat16.c` sees it once it is mounted, and the functions that
find a cluster: its sector, its table entry, its place in a chain. -/
namespace LiebeOS

open MachineInt Bytes

def liebeOsFat16EntrySize : Int := 2

def liebeOsFat16BadSector : Int := 0xFF7

structure FatHeader where
  sectorsPerCluster : UInt8
  reservedSectors : UInt16
  fatCopies : UInt8
  rootDirEntries : UInt16
  sectorsPerFat : UInt16

structure FatDirectory where
  total : Int
  sectorPos : Int
  endingSectorPos : Int

/-- The private data of a mounted volume. Mounting creates the three streams,
so none of them is a null pointer. -/
structure FatPrivate where
  header : FatHeader
  rootDirectory : FatDirectory
  clusterReadStream : DiskStream
  fatReadStream : DiskStream
  directoryStream : DiskStream

def fat16ClusterToSector (p : FatPrivate) (cluster : Int) : Int :=
  toInt (p.rootDirectory.endingSectorPos + (cluster - 2) * p.header.sectorsPerCluster.toNat)

def fat16GetFirstFatSector (p : FatPrivate) : Nat := p.header.reservedSectors.toNat

/-- The 16-bit table entry of `cluster`. The position is computed unsigned
and handed over as a signed number. -/
def fat16GetFatEntry (disk : Disk) (p : FatPrivate) (cluster : Int) : Option (Int × FatPrivate) :=
  let fatTablePosition := toWord (fat16GetFirstFatSector p * liebeOsSectorSize)
  let (res, stream) := diskstreamerSeek p.fatReadStream
    (toInt (fatTablePosition + cluster * liebeOsFat16EntrySize))
  if res < 0 then some (res, { p with fatReadStream := stream })
  else
    match diskstreamerRead disk stream (fun _ => 0) 0 liebeOsFat16EntrySize with
    | none => none
    | some r =>
        some (if r.res < 0 then r.res else (le16 r.mem 0 : Nat), { p with fatReadStream := r.stream })

/-- The entries at which the walk gives up. -/
def fat16EntryStops (entry : Int) : Bool :=
  entry = 0xFF8 || entry = 0xFFF || entry = liebeOsFat16BadSector || entry = 0xFF0 ||
    entry = 0xFF6 || entry = 0x00

/-- The loop of `fat16_get_cluster_for_offset`, with the number of steps
still to go. -/
def fat16ClusterLoop (disk : Disk) : Nat → FatPrivate → Int → Option (Int × FatPrivate)
  | 0, p, clusterToUse => some (clusterToUse, p)
  | n + 1, p, clusterToUse =>
      match fat16GetFatEntry disk p clusterToUse with
      | none => none
      | some (entry, p') =>
          if fat16EntryStops entry then some (-eio, p') else fat16ClusterLoop disk n p' entry

def sizeOfClusterBytes (p : FatPrivate) : Int :=
  p.header.sectorsPerCluster.toNat * liebeOsSectorSize

/-- The cluster that holds byte `offset` of the chain. The division traps on
a volume that has no sectors in a cluster. -/
def fat16GetClusterForOffset (disk : Disk) (p : FatPrivate) (startingCluster offset : Int) :
    Option (Int × FatPrivate) :=
  if sizeOfClusterBytes p = 0 then none
  else
    fat16ClusterLoop disk (offset.tdiv (sizeOfClusterBytes p)).toNat p startingCluster

end LiebeOS
