import LiebeOS.Fs.ChunkRead
import LiebeOS.Fs.Fat16Open

/-! Reading and seeking in an open file: `fread` and `fseek` of `file.c` over
`fat16_read` and `fat16_seek`. A result `none` is a call without an outcome. -/
namespace LiebeOS

open MachineInt Bytes

inductive FileSeekMode where
  | seekSet
  | seekCur
  | seekEnd
  | other (value : Nat)

structure FatRead where
  res : Int
  fsPrivate : FatPrivate
  mem : Memory

/-- The loop of `fat16_read` with the blocks still to go. Every block is read
by a call of its own, to which its size is handed over as the signed `total`. -/
def fat16ReadLoop (disk : Disk) (cluster : Int) (size : Nat) (total : Int) :
    Nat → FatPrivate → Int → Memory → Nat → Option FatRead
  | 0, p, _, mem, _ => some ⟨0, p, mem⟩
  | left + 1, p, offset, mem, out =>
      match fat16ReadInternal disk p cluster offset total mem out with
      | none => none
      | some r =>
          if r.res < 0 then some ⟨r.res, r.fsPrivate, r.mem⟩
          else
            fat16ReadLoop disk cluster size total left r.fsPrivate (toInt (offset + size)) r.mem
              (out + size)

/-- The position is read and not written. A directory, or a record that was
not there to be copied, has no entry to read from. -/
def fat16Read (disk : Disk) (p : FatPrivate) (descriptor : FatFileDescriptor) (size nmemb : Nat)
    (mem : Memory) (out : Nat) : Option FatRead :=
  match descriptor.item with
  | .directory _ _ => none
  | .file _ item entry =>
      if item = 0 then none
      else
        let total := toInt size
        let offset := toInt descriptor.pos
        (fat16ReadLoop disk entry.firstCluster size total nmemb p offset mem out).map fun r =>
          if r.res < 0 then r else { r with res := toInt nmemb }

/-- Seeking from the end computes the position and leaves it in the result. -/
def fat16Seek (descriptor : FatFileDescriptor) (offset : Nat) (seekMode : FileSeekMode) :
    Option (Int × FatFileDescriptor) :=
  match descriptor.item with
  | .directory _ _ => some (-einvarg, descriptor)
  | .file _ item entry =>
      if item = 0 then none
      else if entry.filesize ≤ offset then some (-eio, descriptor)
      else
        match seekMode with
        | .seekSet => some (0, { descriptor with pos := offset })
        | .seekEnd => some (toInt (entry.filesize - offset : Nat), descriptor)
        | .seekCur => some (0, { descriptor with pos := toWord (descriptor.pos + offset) })
        | .other _ => some (-einvarg, descriptor)

def freadFile (disk : Disk) (p : FatPrivate) (s : FileSystem) (mem : Memory) (ptr size nmemb : Nat)
    (fd : Int) : Option FatRead :=
  match freadCall s.table size nmemb fd with
  | .error res => some ⟨res, p, mem⟩
  | .served desc => fat16Read disk p (s.pvts desc.file.pvt) size nmemb mem ptr

def fseekFile (s : FileSystem) (fd offset : Int) (whence : FileSeekMode) :
    Option (Int × FileSystem) :=
  match fseekCall s.table fd with
  | .error res => some (res, s)
  | .served desc =>
      (fat16Seek (s.pvts desc.file.pvt) (toWord offset) whence).map fun (res, descriptor) =>
        (res, { s with pvts := Function.update s.pvts desc.file.pvt descriptor })

/-! ### The blocks of one request -/

/-- Every block of a request is served. -/
def RequestServed (disk : Disk) (p : FatPrivate) (cluster : Int) (size nmemb : Nat)
    (offset : Int) : Prop :=
  ∀ i < nmemb, PieceServed disk p cluster (toInt (offset + (i * size : Nat))) (toInt size)

/-- What a request stores in byte `i` of its buffer, if it stores something there. -/
def requestByte (disk : Disk) (p : FatPrivate) (cluster : Int) (size : Nat) (offset : Int)
    (i : Nat) : Option UInt8 :=
  pieceByte disk p cluster (toInt (offset + (i / size * size : Nat))) (toInt size) (i % size)

section Request

variable {disk : Disk} {p : FatPrivate} {cluster offset : Int} {size nmemb : Nat}

theorem toInt_le_self (n : Nat) : toInt n ≤ n := by
  unfold toInt
  omega

theorem requestServed_succ (hOffset : toInt offset = offset) :
    RequestServed disk p cluster size (nmemb + 1) offset ↔
      PieceServed disk p cluster offset (toInt size) ∧
        RequestServed disk p cluster size nmemb (toInt (offset + size)) := by
  have hFirst : toInt (offset + (0 * size : Nat)) = offset := by
    rw [Nat.zero_mul, Int.natCast_zero, Int.add_zero, hOffset]
  constructor
  · intro h
    refine ⟨?_, fun i hi => ?_⟩
    · have hPiece := h 0 (Nat.succ_pos nmemb)
      rwa [hFirst] at hPiece
    · have hPiece := h (i + 1) (by omega)
      rwa [toInt_add_succ] at hPiece
  · rintro ⟨hPiece, hRest⟩ i hi
    cases i with
    | zero => rwa [hFirst]
    | succ i =>
        rw [toInt_add_succ]
        exact hRest i (by omega)

theorem requestByte_first (hOffset : toInt offset = offset) {i : Nat} (hi : i < size) :
    requestByte disk p cluster size offset i = pieceByte disk p cluster offset (toInt size) i := by
  rw [requestByte, Nat.div_eq_of_lt hi, Nat.mod_eq_of_lt hi, Nat.zero_mul, Int.natCast_zero,
    Int.add_zero, hOffset]

theorem requestByte_next (hBlock : 0 < size) (i : Nat) :
    requestByte disk p cluster size offset (size + i) =
      requestByte disk p cluster size (toInt (offset + size)) i := by
  rw [requestByte, requestByte, Nat.add_div_left i hBlock, Nat.add_mod_left, toInt_add_succ]

/-- One block of a served request. -/
theorem fat16ReadInternal_patched (mem : Memory) (out : Nat)
    (hSize : 0 < p.header.sectorsPerCluster) (hCluster : 0 ≤ cluster ∧ cluster < 65536)
    (hOffset : toInt offset = offset)
    (hServed : PieceServed disk p cluster offset (toInt size)) :
    ∃ fatStream stream r,
      fat16ReadInternal disk p cluster offset (toInt size) mem out = some r ∧ r.res = 0 ∧
      r.fsPrivate = { p with fatReadStream := fatStream, clusterReadStream := stream } ∧
      Patched mem r.mem out size (pieceByte disk p cluster offset (toInt size)) := by
  have hCount := toInt_le_self size
  obtain ⟨fatStream, stream, mem', hCall, hPatched⟩ :=
    fat16ReadInternalFromStream_patched p.clusterReadStream mem out _ hSize hCluster hOffset rfl
      hServed
  have hAll := hPatched.extend (m := size) (by omega) fun i hi =>
    pieceByte_behind hSize (by omega)
  refine ⟨fatStream, stream,
    ⟨0, { p with fatReadStream := fatStream, clusterReadStream := stream }, stream, mem'⟩,
    ?_, rfl, rfl, hAll⟩
  rw [fat16ReadInternal, hCall, Option.map_some]

/-- A served request is read block after block. -/
theorem fat16ReadLoop_patched (mem : Memory) (out : Nat)
    (hSize : 0 < p.header.sectorsPerCluster) (hCluster : 0 ≤ cluster ∧ cluster < 65536)
    (hBlock : 0 < size) (hOffset : toInt offset = offset)
    (hServed : RequestServed disk p cluster size nmemb offset) :
    ∃ p' mem', fat16ReadLoop disk cluster size (toInt size) nmemb p offset mem out = some ⟨0, p', mem'⟩ ∧
      Patched mem mem' out (nmemb * size) (requestByte disk p cluster size offset) := by
  induction nmemb generalizing p offset mem out with
  | zero =>
      rw [Nat.zero_mul]
      exact ⟨p, mem, rfl, Patched.refl mem out _⟩
  | succ nmemb ih =>
      obtain ⟨hFirst, hRest⟩ := (requestServed_succ hOffset).mp hServed
      obtain ⟨fatStream, stream, r, hCall, hRes, hPrivate, hPatched⟩ :=
        fat16ReadInternal_patched mem out hSize hCluster hOffset hFirst
      obtain ⟨p', mem', hLoop, hTail⟩ := ih r.mem (out + size)
        (p := { p with fatReadStream := fatStream, clusterReadStream := stream }) hSize
        (toInt_toInt _) hRest
      refine ⟨p', mem', ?_, ?_⟩
      · rw [fat16ReadLoop, hCall]
        dsimp only
        rw [if_neg (Int.not_lt.mpr (le_of_eq hRes.symm)), hPrivate, hLoop]
      · have hHead : Patched mem r.mem out size (requestByte disk p cluster size offset) :=
          hPatched.congr fun i hi => (requestByte_first hOffset hi).symm
        have hTail : Patched r.mem mem' (out + size) (nmemb * size)
            (requestByte disk p cluster size (toInt (offset + size))) := hTail
        have hAll := hHead.append (hTail.congr fun i _ => (requestByte_next hBlock i).symm)
        rwa [show size + nmemb * size = (nmemb + 1) * size by rw [Nat.succ_mul, Nat.add_comm]]
          at hAll

/-- A request with a block that is not served ends, if it ends, with an error. -/
theorem fat16ReadLoop_error {mem : Memory} {out : Nat} {r : FatRead}
    (hSize : 0 < p.header.sectorsPerCluster) (hCluster : 0 ≤ cluster ∧ cluster < 65536)
    (hOffset : toInt offset = offset)
    (hServed : ¬ RequestServed disk p cluster size nmemb offset)
    (h : fat16ReadLoop disk cluster size (toInt size) nmemb p offset mem out = some r) : r.res < 0 := by
  induction nmemb generalizing p offset mem out with
  | zero => exact absurd (fun i hi => absurd hi (Nat.not_lt_zero i)) hServed
  | succ nmemb ih =>
      rw [fat16ReadLoop] at h
      by_cases hFirst : PieceServed disk p cluster offset (toInt size)
      · obtain ⟨fatStream, stream, block, hCall, hRes, hPrivate, _⟩ :=
          fat16ReadInternal_patched mem out hSize hCluster hOffset hFirst
        rw [hCall] at h
        dsimp only at h
        rw [if_neg (by omega), hPrivate] at h
        exact ih (p := { p with fatReadStream := fatStream, clusterReadStream := stream }) hSize
          (toInt_toInt _) (fun hRest => hServed ((requestServed_succ hOffset).mpr ⟨hFirst, hRest⟩)) h
      · cases hCall : fat16ReadInternal disk p cluster offset (toInt size) mem out with
        | none =>
            rw [hCall] at h
            exact absurd h (by simp)
        | some block =>
            rw [hCall] at h
            rw [fat16ReadInternal, Option.map_eq_some_iff] at hCall
            obtain ⟨whole, hWhole, rfl⟩ := hCall
            have hError : whole.res < 0 :=
              fat16ReadInternalFromStream_error hSize hCluster hOffset hFirst hWhole
            dsimp only at h
            rw [if_pos hError, Option.some.injEq] at h
            subst h
            exact hError

theorem fat16ReadLoop_header {total : Int} {mem : Memory} {out : Nat} {r : FatRead}
    (hSize : 0 < p.header.sectorsPerCluster) (hCluster : 0 ≤ cluster ∧ cluster < 65536)
    (h : fat16ReadLoop disk cluster size total nmemb p offset mem out = some r) :
    r.fsPrivate.header = p.header := by
  induction nmemb generalizing p offset mem out with
  | zero =>
      rw [fat16ReadLoop, Option.some.injEq] at h
      rw [← h]
  | succ nmemb ih =>
      rw [fat16ReadLoop] at h
      cases hCall : fat16ReadInternal disk p cluster offset total mem out with
      | none =>
          rw [hCall] at h
          exact absurd h (by simp)
      | some block =>
          rw [hCall] at h
          rw [fat16ReadInternal, Option.map_eq_some_iff] at hCall
          obtain ⟨whole, hWhole, rfl⟩ := hCall
          have hHeader := fat16ReadInternalFromStream_header hSize hCluster hWhole
          dsimp only at h
          split at h
          · rw [Option.some.injEq] at h
            rw [← h]
            exact hHeader
          · have hRest := ih (p := { whole.fsPrivate with clusterReadStream := whole.stream })
              (show 0 < whole.fsPrivate.header.sectorsPerCluster by rwa [hHeader]) h
            exact hRest.trans hHeader

end Request

/-! ### Random access -/

/-- Descriptor `fd` is open for the regular file of `entry`, at position `pos`. -/
def OpenAt (s : FileSystem) (fd : Int) (entry : FatDirectoryItem) (pos : Nat) : Prop :=
  ∃ f fatItem item, ServedBy s.table fd f ∧ item ≠ 0 ∧
    s.pvts f.pvt = ⟨.file fatItem item entry, pos⟩

/-- What the calls on an open file rely on. The fields of a directory entry hold no larger
numbers. -/
structure EntryOnVolume (p : FatPrivate) (entry : FatDirectoryItem) : Prop where
  clusters : 0 < p.header.sectorsPerCluster
  size : entry.filesize < 4294967296
  first : entry.firstCluster < 65536

/-- A regular file on a volume: its first cluster begins a chain that is long
enough for the size in its directory entry. -/
structure FileOnVolume (disk : Disk) (p : FatPrivate) (entry : FatDirectoryItem) : Prop where
  clusters : 0 < p.header.sectorsPerCluster
  size : entry.filesize < 4294967296
  chain : ∃ m, IsChain disk p.header entry.firstCluster m ∧
    entry.filesize ≤ m * clusterBytes p.header

/-- Seeking to `off` and reading there delivers the bytes of the file. -/
def RandomAccess (disk : Disk) (p : FatPrivate) (s : FileSystem) (fd : Int)
    (entry : FatDirectoryItem) (off size nmemb : Nat) : Prop :=
  ∀ (s' : FileSystem) (mem : Memory) (ptr : Nat),
    fseekFile s fd (toInt off) .seekSet = some (0, s') →
    ∃ r, freadFile disk p s' mem ptr size nmemb fd = some r ∧ r.res = nmemb ∧
      Filled mem r.mem ptr (nmemb * size) fun i => fileByte disk p entry.firstCluster (off + i)

/-- The chunk of `total` bytes, or of a cluster, at byte `off` of the file. It
begins at the beginning of a sector and is at least as long, or does not pass
the end of its first sector; and from where it begins the drive has the bytes of
the file, also behind the end of the cluster. -/
def ChunkInPlace (disk : Disk) (p : FatPrivate) (cluster : Int) (off total : Nat) : Prop :=
  let start := (chunkStart disk p cluster (toInt off)).toNat
  let count := min total (clusterBytes p.header)
  (start % 512 = 0 ∧ 512 ≤ count ∨ start % 512 + count ≤ 512) ∧
    ∀ i < count, disk.byte (start + i) = fileByte disk p cluster (off + i)

instance (disk : Disk) (p : FatPrivate) (cluster : Int) (off total : Nat) :
    Decidable (ChunkInPlace disk p cluster off total) :=
  inferInstanceAs (Decidable (_ ∧ _))

/-- Every chunk of every block is served and in place, and the sizes are no
negative numbers. -/
def RequestInPlace (disk : Disk) (p : FatPrivate) (cluster : Int) (off size nmemb : Nat) : Prop :=
  size < 2147483648 ∧ nmemb < 2147483648 ∧ ∀ i < nmemb, ∀ j, j * clusterBytes p.header < size →
    ChunkServed disk p cluster (toInt (off + i * size + j * clusterBytes p.header : Nat))
        (size - j * clusterBytes p.header : Nat) ∧
      ChunkInPlace disk p cluster (off + i * size + j * clusterBytes p.header)
        (size - j * clusterBytes p.header)

section InPlace

variable {disk : Disk} {p : FatPrivate} {cluster : Int} {off size nmemb : Nat}

theorem toInt_add_nat (n m : Nat) : toInt (toInt n + m) = toInt (n + m : Nat) := by
  rw [toInt_add, Int.natCast_add]

/-- A chunk is stored completely exactly when it is in place. -/
theorem chunkInPlace_iff {total : Nat} (hTotal : 0 < min total (clusterBytes p.header)) :
    (∀ k < min total (clusterBytes p.header),
      (if k < chunkBytes disk p cluster (toInt off) total then
        some (disk.byte ((chunkStart disk p cluster (toInt off)).toNat + k)) else none) =
          some (fileByte disk p cluster (off + k))) ↔
      ChunkInPlace disk p cluster off total := by
  have hCount : (min (total : Int) (clusterBytes p.header)).toNat =
      min total (clusterBytes p.header) := by omega
  unfold ChunkInPlace chunkBytes
  dsimp only
  rw [hCount, ← deliveredBytes_eq_iff]
  generalize min total (clusterBytes p.header) = count at hTotal
  have hFew := @deliveredBytes_le (chunkStart disk p cluster (toInt off)).toNat count
  constructor
  · intro h
    have hLast := h (count - 1) (by omega)
    split at hLast
    · have hAll : deliveredBytes (chunkStart disk p cluster (toInt off)).toNat count = count := by
        omega
      refine ⟨hAll, fun k hk => ?_⟩
      have hByte := h k hk
      rwa [if_pos (by omega), Option.some.injEq] at hByte
    · exact absurd hLast (by simp)
  · rintro ⟨hAll, hBytes⟩ k hk
    rw [if_pos (by omega), hBytes k hk]

/-- The chunks of one block. -/
theorem pieceServed_chunks (hSize : size < 2147483648) (hBlock : 0 < size) :
    PieceServed disk p cluster (toInt off) (toInt size) ↔ ∀ j, j * clusterBytes p.header < size →
      ChunkServed disk p cluster (toInt (off + j * clusterBytes p.header : Nat))
        (size - j * clusterBytes p.header : Nat) := by
  rw [toInt_of_range (x := (size : Int)) (by omega) (by omega)]
  have hLeft : ∀ j, j * clusterBytes p.header < size →
      ((size - j * clusterBytes p.header : Nat) : Int) = size - (j * clusterBytes p.header : Nat) :=
    fun j hj => by omega
  constructor
  · intro h j hj
    have hChunk := h j (Or.inr (by omega))
    rwa [toInt_add_nat, ← hLeft j hj] at hChunk
  · intro h j hj
    have hIn : j * clusterBytes p.header < size := by
      cases hj with
      | inl hZero => rwa [hZero, Nat.zero_mul]
      | inr hIn => omega
    rw [toInt_add_nat, ← hLeft j hIn]
    exact h j hIn

theorem pieceByte_chunks (hSectors : 0 < p.header.sectorsPerCluster) (hSize : size < 2147483648) :
    (∀ i < size, pieceByte disk p cluster (toInt off) (toInt size) i =
      some (fileByte disk p cluster (off + i))) ↔
      ∀ j, j * clusterBytes p.header < size →
        ChunkInPlace disk p cluster (off + j * clusterBytes p.header)
          (size - j * clusterBytes p.header) := by
  have hSome := clusterBytes_pos hSectors
  have hByte : ∀ j k, j * clusterBytes p.header < size → k < clusterBytes p.header →
      pieceByte disk p cluster (toInt off) (toInt size) (j * clusterBytes p.header + k) =
        if k < chunkBytes disk p cluster (toInt (off + j * clusterBytes p.header : Nat))
            (size - j * clusterBytes p.header : Nat) then
          some (disk.byte ((chunkStart disk p cluster
            (toInt (off + j * clusterBytes p.header : Nat))).toNat + k)) else none := by
    intro j k hj hk
    have hDiv : (j * clusterBytes p.header + k) / clusterBytes p.header = j := by
      rw [Nat.add_comm, Nat.add_mul_div_right _ _ hSome, Nat.div_eq_of_lt hk, Nat.zero_add]
    have hMod : (j * clusterBytes p.header + k) % clusterBytes p.header = k := by
      rw [Nat.add_comm, Nat.add_mul_mod_self_right, Nat.mod_eq_of_lt hk]
    have hLeft : ((size - j * clusterBytes p.header : Nat) : Int) =
        size - (j * clusterBytes p.header : Nat) := by omega
    rw [hLeft]
    simp only [pieceByte, hDiv, hMod, toInt_add_nat,
      toInt_of_range (show -2147483648 ≤ (size : Int) by omega) (show (size : Int) < _ by omega)]
  constructor
  · intro h j hj
    rw [← chunkInPlace_iff (by omega)]
    intro k hk
    rw [← hByte j k hj (by omega), h _ (by omega), Nat.add_assoc]
  · intro h i hi
    have hSplit := Nat.div_add_mod' i (clusterBytes p.header)
    have hMod := Nat.mod_lt i hSome
    have hChunk := h (i / clusterBytes p.header) (by omega)
    rw [← chunkInPlace_iff (by omega)] at hChunk
    have hStored := hChunk (i % clusterBytes p.header) (by omega)
    rw [← hByte _ _ (by omega) hMod, hSplit, Nat.add_assoc, hSplit] at hStored
    exact hStored

/-- A property of the bytes of all blocks, block by block. -/
theorem forall_blocks {n : Nat} (hBlock : 0 < size) (P : Nat → Nat → Prop) :
    (∀ i < n * size, P (i / size) (i % size)) ↔ ∀ i < n, ∀ k < size, P i k := by
  constructor
  · intro h i hi k hk
    have hBlocks := Nat.mul_le_mul_right size (Nat.succ_le_of_lt hi)
    have hByte := h (i * size + k) (by rw [Nat.succ_mul] at hBlocks; omega)
    rwa [Nat.add_comm, Nat.add_mul_div_right _ _ hBlock, Nat.div_eq_of_lt hk, Nat.zero_add,
      Nat.add_mul_mod_self_right, Nat.mod_eq_of_lt hk] at hByte
  · intro h i hi
    exact h _ ((Nat.div_lt_iff_lt_mul hBlock).mpr hi) _ (Nat.mod_lt i hBlock)

/-- The blocks of a request are all served and stored completely exactly when
the request is in place. -/
theorem requestInPlace_iff (hSectors : 0 < p.header.sectorsPerCluster) (hSize : size < 2147483648)
    (hBlock : 0 < size) (hCount : nmemb < 2147483648) :
    (RequestServed disk p cluster size nmemb (toInt off) ∧ ∀ i < nmemb * size,
      requestByte disk p cluster size (toInt off) i = some (fileByte disk p cluster (off + i))) ↔
      RequestInPlace disk p cluster off size nmemb := by
  have hBytes : (∀ i < nmemb * size, requestByte disk p cluster size (toInt off) i =
      some (fileByte disk p cluster (off + i))) ↔
      ∀ i < nmemb, ∀ j, j * clusterBytes p.header < size →
        ChunkInPlace disk p cluster (off + i * size + j * clusterBytes p.header)
          (size - j * clusterBytes p.header) := by
    have hSplit : ∀ i, off + i = off + i / size * size + i % size := fun i => by
      rw [Nat.add_assoc, Nat.div_add_mod']
    simp only [requestByte, toInt_add_nat]
    rw [← forall₂_congr fun i (_ : i < nmemb) =>
      @pieceByte_chunks disk p cluster (off + i * size) size hSectors hSize,
      ← forall_blocks hBlock]
    exact forall₂_congr fun i _ => by rw [← hSplit i]
  have hServed : RequestServed disk p cluster size nmemb (toInt off) ↔
      ∀ i < nmemb, ∀ j, j * clusterBytes p.header < size →
        ChunkServed disk p cluster (toInt (off + i * size + j * clusterBytes p.header : Nat))
          (size - j * clusterBytes p.header : Nat) := by
    refine forall₂_congr fun i _ => ?_
    rw [toInt_add_nat, pieceServed_chunks hSize hBlock]
  rw [hServed, hBytes]
  constructor
  · rintro ⟨hAll, hPlace⟩
    exact ⟨hSize, hCount, fun i hi j hj => ⟨hAll i hi j hj, hPlace i hi j hj⟩⟩
  · rintro ⟨_, _, h⟩
    exact ⟨fun i hi j hj => (h i hi j hj).1, fun i hi j hj => (h i hi j hj).2⟩

end InPlace

section Calls

variable {disk : Disk} {p : FatPrivate} {s : FileSystem} {fd : Int} {entry : FatDirectoryItem}
  {pos off size nmemb : Nat}

/-- The result of a seek in a file, and the position behind it. -/
def seekOutcome (filesize pos offset : Nat) (whence : FileSeekMode) : Int × Nat :=
  if filesize ≤ offset then (-eio, pos)
  else
    match whence with
    | .seekSet => (0, offset)
    | .seekEnd => (toInt (filesize - offset : Nat), pos)
    | .seekCur => (0, toWord (pos + offset))
    | .other _ => (-einvarg, pos)

theorem fseekFile_openAt (h : OpenAt s fd entry pos) (offset : Int) (whence : FileSeekMode) :
    ∃ s', fseekFile s fd offset whence =
        some ((seekOutcome entry.filesize pos (toWord offset) whence).1, s') ∧
      OpenAt s' fd entry (seekOutcome entry.filesize pos (toWord offset) whence).2 := by
  obtain ⟨f, fatItem, item, hServed, hItem, hRecord⟩ := h
  have hSeek : fat16Seek ⟨.file fatItem item entry, pos⟩ (toWord offset) whence =
      some ((seekOutcome entry.filesize pos (toWord offset) whence).1,
        ⟨.file fatItem item entry, (seekOutcome entry.filesize pos (toWord offset) whence).2⟩) := by
    generalize toWord offset = o
    unfold fat16Seek seekOutcome
    dsimp only
    rw [if_neg hItem]
    by_cases hBehind : entry.filesize ≤ o
    · rw [if_pos hBehind, if_pos hBehind]
    · rw [if_neg hBehind, if_neg hBehind]
      cases whence <;> rfl
  refine ⟨{ s with pvts := Function.update s.pvts f.pvt ⟨.file fatItem item entry,
    (seekOutcome entry.filesize pos (toWord offset) whence).2⟩ }, ?_, f, fatItem, item, hServed,
    hItem, Function.update_self f.pvt _ s.pvts⟩
  rw [fseekFile, hServed.seek]
  dsimp only
  rw [hRecord, hSeek, Option.map_some]

theorem freadFile_openAt (h : OpenAt s fd entry pos) (mem : Memory) (ptr : Nat)
    (hBlock : 0 < size) (hCount : 0 < nmemb) :
    freadFile disk p s mem ptr size nmemb fd =
      (fat16ReadLoop disk entry.firstCluster size (toInt size) nmemb p (toInt pos) mem ptr).map
        fun r => if r.res < 0 then r else { r with res := toInt nmemb } := by
  obtain ⟨f, fatItem, item, hServed, hItem, hRecord⟩ := h
  rw [freadFile, hServed.read size nmemb hBlock hCount]
  dsimp only
  rw [hRecord, fat16Read]
  dsimp only
  rw [if_neg hItem]

theorem FileOnVolume.onVolume (h : FileOnVolume disk p entry) : EntryOnVolume p entry := by
  obtain ⟨m, hChain, _⟩ := h.chain
  have hFirst := hChain.2.1 0 hChain.1
  rw [fatWalk] at hFirst
  exact ⟨h.clusters, h.size, by omega⟩

theorem EntryOnVolume.cluster (h : EntryOnVolume p entry) :
    (0 : Int) ≤ entry.firstCluster ∧ (entry.firstCluster : Int) < 65536 := by
  have hFirst := h.first
  omega

/-- A read that is served returns the number of blocks and has stored what the
request stores. -/
theorem freadFile_served (hOpen : OpenAt s fd entry pos) (hFile : EntryOnVolume p entry)
    (hBlock : 0 < size) (hCount : 0 < nmemb) (hInt : nmemb < 2147483648)
    (hServed : RequestServed disk p entry.firstCluster size nmemb (toInt pos)) (mem : Memory)
    (ptr : Nat) :
    ∃ r, freadFile disk p s mem ptr size nmemb fd = some r ∧ r.res = nmemb ∧
      Patched mem r.mem ptr (nmemb * size)
        (requestByte disk p entry.firstCluster size (toInt pos)) := by
  obtain ⟨p', mem', hLoop, hPatched⟩ := fat16ReadLoop_patched mem ptr hFile.clusters hFile.cluster
    hBlock (toInt_toInt _) hServed
  refine ⟨⟨nmemb, p', mem'⟩, ?_, rfl, hPatched⟩
  rw [freadFile_openAt hOpen mem ptr hBlock hCount, hLoop, Option.map_some,
    if_neg (Int.lt_irrefl 0), toInt_of_range (by omega) (by omega)]

/-- A read that returns no error has been served, with a number of blocks that
is no negative number. -/
theorem freadFile_some {mem : Memory} {ptr : Nat} {r : FatRead} (hOpen : OpenAt s fd entry pos)
    (hFile : EntryOnVolume p entry) (hBlock : 0 < size) (hCount : 0 < nmemb)
    (hWord : nmemb < 4294967296) (h : freadFile disk p s mem ptr size nmemb fd = some r)
    (hRes : 0 ≤ r.res) :
    nmemb < 2147483648 ∧ RequestServed disk p entry.firstCluster size nmemb (toInt pos) := by
  rw [freadFile_openAt hOpen mem ptr hBlock hCount, Option.map_eq_some_iff] at h
  obtain ⟨loop, hLoop, rfl⟩ := h
  have hServed : RequestServed disk p entry.firstCluster size nmemb (toInt pos) := by
    by_contra hServed
    have hError := fat16ReadLoop_error hFile.clusters hFile.cluster (toInt_toInt _) hServed hLoop
    rw [if_pos hError] at hRes
    omega
  obtain ⟨p', mem', hRead, _⟩ := fat16ReadLoop_patched mem ptr hFile.clusters hFile.cluster hBlock
    (toInt_toInt _) hServed
  rw [hRead, Option.some.injEq] at hLoop
  subst hLoop
  rw [if_neg (Int.lt_irrefl 0)] at hRes
  refine ⟨?_, hServed⟩
  unfold toInt at hRes
  dsimp only at hRes
  omega

theorem toWord_toInt {n : Nat} (hn : n < 4294967296) : toWord (toInt n) = n := by
  unfold toWord toInt
  omega

/-- A seek to a position in the file succeeds, so only the read behind it counts. -/
theorem randomAccess_read (hOpen : OpenAt s fd entry pos) (hFile : FileOnVolume disk p entry)
    (hOff : off < entry.filesize) :
    ∃ s', OpenAt s' fd entry off ∧ (RandomAccess disk p s fd entry off size nmemb ↔ ∀ mem ptr,
      ∃ r, freadFile disk p s' mem ptr size nmemb fd = some r ∧ r.res = nmemb ∧
        Filled mem r.mem ptr (nmemb * size) fun i => fileByte disk p entry.firstCluster (off + i)) := by
  have hWord := hFile.size
  obtain ⟨s', hSeek, hOpen'⟩ := fseekFile_openAt hOpen (toInt off) .seekSet
  rw [toWord_toInt (by omega), seekOutcome, if_neg (by omega)] at hSeek hOpen'
  refine ⟨s', hOpen', fun h mem ptr => h s' mem ptr hSeek, fun h s'' mem ptr hSeek' => ?_⟩
  rw [hSeek, Option.some.injEq, Prod.mk.injEq] at hSeek'
  rw [← hSeek'.2]
  exact h mem ptr

theorem RandomAccess.inPlace (hOpen : OpenAt s fd entry pos) (hFile : FileOnVolume disk p entry)
    (hOff : off < entry.filesize) (hBlock : 1 ≤ size) (hCount : 1 ≤ nmemb)
    (hSizeWord : size < 4294967296) (hCountWord : nmemb < 4294967296)
    (h : RandomAccess disk p s fd entry off size nmemb) :
    RequestInPlace disk p entry.firstCluster off size nmemb := by
  obtain ⟨s', hOpen', hOnce⟩ := @randomAccess_read disk p s fd entry pos off size nmemb hOpen hFile
    hOff
  have hReads := hOnce.mp h
  obtain ⟨r, hRead, hRes, _⟩ := hReads (fun _ => 0) 0
  obtain ⟨hInt, hServed⟩ := freadFile_some hOpen' hFile.onVolume hBlock hCount hCountWord hRead (by omega)
  have hBytes : ∀ i < nmemb * size, requestByte disk p entry.firstCluster size (toInt off) i =
      some (fileByte disk p entry.firstCluster (off + i)) := by
    refine (@Patched.filled_iff 0 _ _ _).mp fun mem mem' hPatched => ?_
    obtain ⟨r, hRead, _, hFilled⟩ := hReads mem 0
    obtain ⟨r', hRead', _, hPatched'⟩ :=
      freadFile_served hOpen' hFile.onVolume hBlock hCount hInt hServed mem 0
    rw [hRead, Option.some.injEq] at hRead'
    rw [hPatched.unique hPatched', ← hRead']
    exact hFilled
  have hSize : size < 2147483648 := by
    by_contra hLarge
    have hNegative : toInt size ≤ (0 : Nat) := by
      unfold toInt
      omega
    have hFirst := hBytes 0 (Nat.mul_pos hCount hBlock)
    rw [requestByte, Nat.zero_mod, pieceByte_behind hFile.clusters hNegative] at hFirst
    exact absurd hFirst (by simp)
  exact (requestInPlace_iff hFile.clusters hSize hBlock hInt).mp ⟨hServed, hBytes⟩

theorem RequestInPlace.access (hOpen : OpenAt s fd entry pos) (hFile : FileOnVolume disk p entry)
    (hOff : off < entry.filesize) (hBlock : 1 ≤ size) (hCount : 1 ≤ nmemb)
    (h : RequestInPlace disk p entry.firstCluster off size nmemb) :
    RandomAccess disk p s fd entry off size nmemb := by
  obtain ⟨s', hOpen', hOnce⟩ := @randomAccess_read disk p s fd entry pos off size nmemb hOpen hFile
    hOff
  refine hOnce.mpr fun mem ptr => ?_
  obtain ⟨hServed, hBytes⟩ := (requestInPlace_iff hFile.clusters h.1 hBlock h.2.1).mpr h
  obtain ⟨r, hRead, hRes, hPatched⟩ :=
    freadFile_served hOpen' hFile.onVolume hBlock hCount h.2.1 hServed mem ptr
  exact ⟨r, hRead, hRes, Patched.filled_iff.mpr hBytes mem r.mem hPatched⟩

/-- A seek to any position in the file and a read from there deliver the bytes
of the file exactly when the request is in place. -/
theorem randomAccess_iff (disk : Disk) (p : FatPrivate) (s : FileSystem) (fd : Int)
    (entry : FatDirectoryItem) (pos off size nmemb : Nat) (hOpen : OpenAt s fd entry pos)
    (hFile : FileOnVolume disk p entry) (hOff : off < entry.filesize) (hBlock : 1 ≤ size)
    (hCount : 1 ≤ nmemb) (hEnd : off + size * nmemb ≤ entry.filesize) :
    RandomAccess disk p s fd entry off size nmemb ↔
      RequestInPlace disk p entry.firstCluster off size nmemb := by
  have hWord := hFile.size
  have hLeft := Nat.le_mul_of_pos_right size hCount
  have hRight := Nat.le_mul_of_pos_left nmemb hBlock
  exact ⟨fun h => h.inPlace hOpen hFile hOff hBlock hCount (by omega) (by omega),
    fun h => h.access hOpen hFile hOff hBlock hCount⟩

end Calls

/-- Files of which one is open, at its beginning, with descriptor 1. -/
def oneFile (entry : FatDirectoryItem) : FileSystem :=
  ⟨⟨⟨fun _ => 0, 25600, []⟩, 0x01000000⟩,
    ⟨fun i => if i = 0 then 64 else 0, fun _ => ⟨1, ⟨1, 96, 1⟩⟩⟩, fun _ => ⟨.file 128 160 entry, 0⟩⟩

theorem oneFile_openAt (entry : FatDirectoryItem) : OpenAt (oneFile entry) 1 entry 0 := by
  have hCall : fileCall (oneFile entry).table 1 = .served ⟨1, ⟨1, 96, 1⟩⟩ := rfl
  refine ⟨⟨1, 96, 1⟩, 128, 160, ⟨fun size nmemb hBlock hCount => ?_, hCall, hCall, hCall⟩,
    by decide, rfl⟩
  rw [freadCall, if_neg (by omega), hCall]

/-- Of a file in the clusters 2 and 4 the second cluster is read in two blocks of
44 bytes; blocks of 50 bytes cannot be read from byte 500 on. -/
theorem randomAccess_iff_fragmented :
    let disk : Disk := ⟨8, fun i => if i = 4 then 4 else if i = 5 then 0 else
      if i = 8 then 0xFF else if i = 9 then 0xFF else UInt8.ofNat i⟩
    let stream : DiskStream := ⟨0, .diskObj⟩
    let p : FatPrivate := ⟨⟨1, 0, 1, 16, 1⟩, ⟨0, 1, 3⟩, stream, stream, stream⟩
    let entry : FatDirectoryItem := ⟨[], 0, 2, 600⟩
    RandomAccess disk p (oneFile entry) 1 entry 512 44 2 ∧
      ¬ RandomAccess disk p (oneFile entry) 1 entry 500 50 2 := by
  intro disk stream p entry
  have hBytes : clusterBytes p.header = 512 := by decide
  have hFile : FileOnVolume disk p entry :=
    ⟨by decide, by decide, 2, by unfold IsChain; decide, by decide⟩
  constructor
  · refine (randomAccess_iff disk p (oneFile entry) 1 entry 0 512 44 2 (oneFile_openAt entry) hFile
      (by decide) (by decide) (by decide) (by decide)).mpr ⟨by decide, by decide, fun i hi j hj => ?_⟩
    rw [hBytes] at hj
    obtain rfl : j = 0 := by omega
    obtain rfl | rfl : i = 0 ∨ i = 1 := by omega
    · decide +kernel
    · decide +kernel
  · intro h
    have hPlace := (randomAccess_iff disk p (oneFile entry) 1 entry 0 500 50 2 (oneFile_openAt entry)
      hFile (by decide) (by decide) (by decide) (by decide)).mp h
    have hChunk := (hPlace.2.2 0 (by decide) 0 (by decide)).2
    exact absurd hChunk (by decide +kernel)

/-- Fifty bytes from byte 500 on are not all read, in a file of one cluster of
two sectors. -/
theorem randomAccess_crossing :
    ¬ ∀ (disk : Disk) (p : FatPrivate) (s : FileSystem) (fd : Int) (entry : FatDirectoryItem)
      (pos off size nmemb : Nat), OpenAt s fd entry pos → FileOnVolume disk p entry →
      off < entry.filesize → 1 ≤ size → 1 ≤ nmemb → off + size * nmemb ≤ entry.filesize →
      RandomAccess disk p s fd entry off size nmemb := by
  intro hClaim
  let disk : Disk := ⟨8, fun i => if i = 4 then 0xFF else if i = 5 then 0xFF else UInt8.ofNat i⟩
  let stream : DiskStream := ⟨0, .diskObj⟩
  let p : FatPrivate := ⟨⟨2, 0, 1, 16, 1⟩, ⟨0, 1, 3⟩, stream, stream, stream⟩
  let entry : FatDirectoryItem := ⟨[], 0, 2, 1024⟩
  have hRead := hClaim disk p (oneFile entry) 1 entry 0 500 50 1 (oneFile_openAt entry)
    ⟨by decide, by decide, 1, by unfold IsChain; decide, by decide⟩ (by decide) (by decide)
    (by decide) (by decide)
  have hPlace := hRead.inPlace (oneFile_openAt entry)
    ⟨by decide, by decide, 1, by unfold IsChain; decide, by decide⟩ (by decide) (by decide)
    (by decide) (by decide) (by decide)
  exact absurd (hPlace.2.2 0 (by decide) 0 (by decide)).2 (by decide +kernel)

end LiebeOS
