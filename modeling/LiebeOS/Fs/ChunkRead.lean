import LiebeOS.Disk.StreamServed
import LiebeOS.Fs.FileRead

/-! A read from any byte offset. It is cut into chunks of the size of a cluster,
counted from the offset and not from the start of a cluster: a chunk that starts
inside of its cluster goes on behind it in the physically following sectors. -/
namespace LiebeOS

open MachineInt Bytes

/-- The first byte of the drive that the chunk at `offset` is read from. -/
def chunkStart (disk : Disk) (p : FatPrivate) (cluster offset : Int) : Int :=
  toInt (fat16ClusterToSector p (fatWalk disk p.header cluster
      (offset.tdiv (clusterBytes p.header)).toNat) * liebeOsSectorSize +
    offset.tmod (clusterBytes p.header))

/-- The walk reaches the cluster of the chunk, and the drive serves its bytes. -/
def ChunkServed (disk : Disk) (p : FatPrivate) (cluster offset total : Int) : Prop :=
  WalkPasses disk p.header cluster (offset.tdiv (clusterBytes p.header)).toNat ∧
    StreamServed disk (chunkStart disk p cluster offset) (min total (clusterBytes p.header))

instance (disk : Disk) (p : FatPrivate) (cluster offset total : Int) :
    Decidable (ChunkServed disk p cluster offset total) :=
  inferInstanceAs (Decidable (_ ∧ _))

/-- How many bytes of a chunk are delivered. -/
def chunkBytes (disk : Disk) (p : FatPrivate) (cluster offset total : Int) : Nat :=
  deliveredBytes (chunkStart disk p cluster offset).toNat (min total (clusterBytes p.header)).toNat

theorem toInt_add (x y : Int) : toInt (toInt x + y) = toInt (x + y) := by
  unfold toInt
  omega

section Chunk

variable {disk : Disk} {p : FatPrivate} {cluster offset total : Int}

/-- What is left of a call behind its first chunk. -/
def chunkRest (disk : Disk) (p : FatPrivate) (stream : DiskStream) (cluster offset total : Int)
    (mem : Memory) (out : Nat) : Option FileRead :=
  if clusterBytes p.header < total then
    fat16ReadInternalFromStream disk p stream cluster (toInt (offset + clusterBytes p.header))
      (total - clusterBytes p.header) mem (out + clusterBytes p.header)
  else some ⟨0, p, stream, mem⟩

/-- The three ways on from the walk to the cluster of the chunk. -/
theorem fat16ReadInternalFromStream_cases (stream : DiskStream) (mem : Memory) (out : Nat)
    (hSize : 0 < p.header.sectorsPerCluster) (hCluster : 0 ≤ cluster ∧ cluster < 65536) :
    (WalkPasses disk p.header cluster (offset.tdiv (clusterBytes p.header)).toNat ∧
        ∃ fatStream, fat16ReadInternalFromStream disk p stream cluster offset total mem out =
          match diskstreamerRead disk ⟨chunkStart disk p cluster offset, .diskObj⟩ mem out
              (min total (clusterBytes p.header)) with
          | none => none
          | some r =>
              if r.res ≠ 0 then
                some ⟨r.res, { p with fatReadStream := fatStream }, r.stream, r.mem⟩
              else
                chunkRest disk { p with fatReadStream := fatStream } r.stream cluster offset total
                  r.mem out) ∨
      (¬ WalkPasses disk p.header cluster (offset.tdiv (clusterBytes p.header)).toNat ∧
        ∀ r, fat16ReadInternalFromStream disk p stream cluster offset total mem out = some r →
          r.res < 0 ∧ r.fsPrivate.header = p.header) := by
  have hBytes := sizeOfClusterBytes_eq p
  have hSome := clusterBytes_pos hSize
  have hCases := fat16ClusterLoop_cases disk (offset.tdiv (clusterBytes p.header)).toNat p cluster
    fun _ => positionFits_of_word _ hCluster.1 hCluster.2
  have hReached := fatWalk_nonneg disk p.header hCluster.1
    (offset.tdiv (clusterBytes p.header)).toNat
  have hNotNone : ¬ (clusterBytes p.header : Int) = 0 := by omega
  rw [fat16ReadInternalFromStream]
  simp only [fat16GetClusterForOffset, hBytes, if_neg hNotNone]
  rcases hCases with ⟨hWalk, fatStream, hFound⟩ | ⟨hStops, fatStream, hError⟩ | ⟨hWalk, _, hNone⟩
  · refine Or.inl ⟨hWalk, fatStream, ?_⟩
    have hCount : (if total > (clusterBytes p.header : Int) then (clusterBytes p.header : Int)
        else total) = min total (clusterBytes p.header) := by
      split <;> omega
    have hStart : toInt (fat16ClusterToSector { p with fatReadStream := fatStream }
        (fatWalk disk p.header cluster (offset.tdiv (clusterBytes p.header)).toNat) *
          liebeOsSectorSize + offset.tmod (clusterBytes p.header)) =
        chunkStart disk p cluster offset := rfl
    obtain ⟨pos, disk'⟩ := stream
    cases disk'
    simp only [hFound, if_neg (Int.not_lt.mpr hReached), hCount, hStart, diskstreamerSeek, ne_eq,
      not_true_eq_false, if_false]
    cases hRead : diskstreamerRead disk ⟨chunkStart disk p cluster offset, .diskObj⟩ mem out
        (min total (clusterBytes p.header)) with
    | none => rfl
    | some r =>
        dsimp only
        by_cases hError : r.res = 0
        · rw [if_neg (not_not.mpr hError), if_neg (not_not.mpr hError), chunkRest]
          by_cases hMore : clusterBytes p.header < total
          · have hWhole : min total (clusterBytes p.header) = clusterBytes p.header := by omega
            rw [hWhole, if_pos (by omega), if_pos hMore, Int.toNat_natCast]
          · rw [if_neg (by omega), if_neg hMore, hError]
        · rw [if_pos hError, if_pos hError]
  · refine Or.inr ⟨fun h => h.not_stops hStops, fun r h => ?_⟩
    simp only [hError, if_pos (show -eio < 0 by decide), Option.some.injEq] at h
    subst h
    exact ⟨(by decide : -eio < 0), rfl⟩
  · refine Or.inr ⟨hWalk, fun r h => ?_⟩
    simp only [hNone] at h
    exact absurd h (by simp)

/-- A chunk is delivered as far as it is served, and the call goes on behind it. -/
theorem fat16ReadInternalFromStream_served (stream : DiskStream) (mem : Memory) (out : Nat)
    (hSize : 0 < p.header.sectorsPerCluster) (hCluster : 0 ≤ cluster ∧ cluster < 65536)
    (hServed : ChunkServed disk p cluster offset total) :
    ∃ fatStream stream' mem',
      Filled mem mem' out (chunkBytes disk p cluster offset total)
        (fun i => disk.byte ((chunkStart disk p cluster offset).toNat + i)) ∧
      fat16ReadInternalFromStream disk p stream cluster offset total mem out =
        chunkRest disk { p with fatReadStream := fatStream } stream' cluster offset total mem'
          out := by
  have hRead := @diskstreamerRead_served (chunkStart disk p cluster offset)
    (min total (clusterBytes p.header)) (toInt_ge _) (toInt_lt _) disk mem out
  rw [if_pos hServed.2] at hRead
  obtain ⟨stream', mem', hRead, hFilled⟩ := hRead
  rcases @fat16ReadInternalFromStream_cases disk p cluster offset total stream mem out hSize hCluster
    with ⟨_, fatStream, hCall⟩ | ⟨hWalk, _⟩
  · refine ⟨fatStream, stream', mem', hFilled, ?_⟩
    rw [hCall, hRead]
    exact if_neg (not_not.mpr rfl)
  · exact absurd hServed.1 hWalk

/-- A chunk that is not served ends the call, if it ends, with an error. -/
theorem fat16ReadInternalFromStream_refused {stream : DiskStream} {mem : Memory} {out : Nat}
    {r : FileRead} (hSize : 0 < p.header.sectorsPerCluster)
    (hCluster : 0 ≤ cluster ∧ cluster < 65536)
    (hServed : ¬ ChunkServed disk p cluster offset total)
    (h : fat16ReadInternalFromStream disk p stream cluster offset total mem out = some r) :
    r.res < 0 := by
  rcases @fat16ReadInternalFromStream_cases disk p cluster offset total stream mem out hSize hCluster
    with ⟨hWalk, fatStream, hCall⟩ | ⟨_, hError⟩
  · have hRead := @diskstreamerRead_served (chunkStart disk p cluster offset)
      (min total (clusterBytes p.header)) (toInt_ge _) (toInt_lt _) disk mem out
    rw [if_neg fun hStream => hServed ⟨hWalk, hStream⟩] at hRead
    rw [hCall, hRead] at h
    exact absurd h (by simp)
  · exact (hError r h).1

theorem chunkBytes_le : chunkBytes disk p cluster offset total ≤ (min total (clusterBytes p.header)).toNat :=
  deliveredBytes_le _

/-! ### All chunks of one call -/

/-- Every chunk of a call is served. There is one chunk even in a request for
nothing. -/
def PieceServed (disk : Disk) (p : FatPrivate) (cluster offset total : Int) : Prop :=
  ∀ j : Nat, j = 0 ∨ ((j * clusterBytes p.header : Nat) : Int) < total →
    ChunkServed disk p cluster (toInt (offset + (j * clusterBytes p.header : Nat)))
      (total - (j * clusterBytes p.header : Nat))

/-- What a call stores in byte `i` of its buffer, if it stores something there. -/
def pieceByte (disk : Disk) (p : FatPrivate) (cluster offset total : Int) (i : Nat) :
    Option UInt8 :=
  let done : Nat := i / clusterBytes p.header * clusterBytes p.header
  if i % clusterBytes p.header < chunkBytes disk p cluster (toInt (offset + done)) (total - done) then
    some (disk.byte ((chunkStart disk p cluster (toInt (offset + done))).toNat +
      i % clusterBytes p.header))
  else none

theorem toInt_add_zero (hOffset : toInt offset = offset) :
    toInt (offset + ((0 * clusterBytes p.header : Nat) : Int)) = offset := by
  rw [Nat.zero_mul, Int.natCast_zero, Int.add_zero, hOffset]

theorem toInt_add_succ (offset : Int) (size j : Nat) :
    toInt (offset + ((j + 1) * size : Nat)) = toInt (toInt (offset + size) + (j * size : Nat)) := by
  rw [toInt_add, Nat.succ_mul]
  congr 1
  omega

/-- The first chunk, and the others from the next cluster's length on. -/
theorem pieceServed_succ (hOffset : toInt offset = offset) (hMore : clusterBytes p.header < total) :
    PieceServed disk p cluster offset total ↔ ChunkServed disk p cluster offset total ∧
      PieceServed disk p cluster (toInt (offset + clusterBytes p.header))
        (total - clusterBytes p.header) := by
  have hLeft : ∀ j : Nat, total - (((j + 1) * clusterBytes p.header : Nat) : Int) =
      total - clusterBytes p.header - (j * clusterBytes p.header : Nat) := fun j => by
    rw [Nat.succ_mul]
    omega
  constructor
  · intro h
    refine ⟨?_, fun j hj => ?_⟩
    · have hFirst := h 0 (Or.inl rfl)
      rwa [toInt_add_zero hOffset, Nat.zero_mul, Int.natCast_zero, Int.sub_zero] at hFirst
    · have hNext := h (j + 1) (Or.inr (by
        have hRest := hLeft j
        cases hj with
        | inl hZero => subst hZero; omega
        | inr hIn => omega))
      rwa [toInt_add_succ, hLeft] at hNext
  · rintro ⟨hFirst, hRest⟩ j hj
    cases j with
    | zero => rwa [toInt_add_zero hOffset, Nat.zero_mul, Int.natCast_zero, Int.sub_zero]
    | succ j =>
        have hIn := hj.resolve_left (Nat.succ_ne_zero j)
        have hNext := hLeft j
        rw [toInt_add_succ, hLeft]
        exact hRest j (Or.inr (by omega))

theorem pieceServed_last (hOffset : toInt offset = offset) (hLast : total ≤ clusterBytes p.header) :
    PieceServed disk p cluster offset total ↔ ChunkServed disk p cluster offset total := by
  constructor
  · intro h
    have hFirst := h 0 (Or.inl rfl)
    rwa [toInt_add_zero hOffset, Nat.zero_mul, Int.natCast_zero, Int.sub_zero] at hFirst
  · intro hFirst j hj
    cases j with
    | zero => rwa [toInt_add_zero hOffset, Nat.zero_mul, Int.natCast_zero, Int.sub_zero]
    | succ j =>
        have hIn := hj.resolve_left (Nat.succ_ne_zero j)
        rw [Nat.succ_mul] at hIn
        omega

theorem pieceByte_first (hOffset : toInt offset = offset) {i : Nat} (hi : i < clusterBytes p.header) :
    pieceByte disk p cluster offset total i =
      if i < chunkBytes disk p cluster offset total then
        some (disk.byte ((chunkStart disk p cluster offset).toNat + i))
      else none := by
  have hDone : i / clusterBytes p.header * clusterBytes p.header = 0 * clusterBytes p.header := by
    rw [Nat.div_eq_of_lt hi]
  simp only [pieceByte, Nat.mod_eq_of_lt hi, hDone, toInt_add_zero hOffset]
  rw [Nat.zero_mul, Int.natCast_zero, Int.sub_zero]

theorem pieceByte_next (hSize : 0 < p.header.sectorsPerCluster) (i : Nat) :
    pieceByte disk p cluster offset total (clusterBytes p.header + i) =
      pieceByte disk p cluster (toInt (offset + clusterBytes p.header))
        (total - clusterBytes p.header) i := by
  have hSome := clusterBytes_pos hSize
  have hLeft : total - (((i / clusterBytes p.header + 1) * clusterBytes p.header : Nat) : Int) =
      total - clusterBytes p.header - (i / clusterBytes p.header * clusterBytes p.header : Nat) := by
    rw [Nat.succ_mul]
    omega
  simp only [pieceByte, Nat.add_mod_left, Nat.add_div_left i hSome,
    toInt_add_succ, hLeft]

/-- Behind the request nothing is stored. -/
theorem pieceByte_behind (hSize : 0 < p.header.sectorsPerCluster) {i : Nat} (hi : total ≤ i) :
    pieceByte disk p cluster offset total i = none := by
  have hSome := clusterBytes_pos hSize
  have hSplit := Nat.div_add_mod' i (clusterBytes p.header)
  have hFew := @chunkBytes_le disk p cluster
    (toInt (offset + (i / clusterBytes p.header * clusterBytes p.header : Nat)))
    (total - (i / clusterBytes p.header * clusterBytes p.header : Nat))
  exact if_neg (by omega)

/-- The first chunk as a patch of its part of the buffer. -/
theorem chunkPatched {mem mem' : Memory} {out n : Nat} (hOffset : toInt offset = offset)
    (hn : n ≤ clusterBytes p.header) (hTotal : min total (clusterBytes p.header) ≤ n)
    (h : Filled mem mem' out (chunkBytes disk p cluster offset total)
      fun i => disk.byte ((chunkStart disk p cluster offset).toNat + i)) :
    Patched mem mem' out n (pieceByte disk p cluster offset total) := by
  have hFew := @chunkBytes_le disk p cluster offset total
  exact (h.patched (n := n) (by omega)).congr fun i hi => (pieceByte_first hOffset (by omega)).symm

/-- A call all of whose chunks are served succeeds, and stores these bytes. -/
theorem fat16ReadInternalFromStream_patched (stream : DiskStream) (mem : Memory) (out n : Nat)
    (hSize : 0 < p.header.sectorsPerCluster) (hCluster : 0 ≤ cluster ∧ cluster < 65536)
    (hOffset : toInt offset = offset) (hn : total.toNat = n)
    (hServed : PieceServed disk p cluster offset total) :
    ∃ fatStream stream' mem',
      fat16ReadInternalFromStream disk p stream cluster offset total mem out =
        some ⟨0, { p with fatReadStream := fatStream }, stream', mem'⟩ ∧
      Patched mem mem' out n (pieceByte disk p cluster offset total) := by
  induction n using Nat.strongRecOn generalizing p offset total stream mem out with
  | ind n ih =>
      have hSome := clusterBytes_pos hSize
      by_cases hMore : clusterBytes p.header < total
      · obtain ⟨hFirst, hRest⟩ := (pieceServed_succ hOffset hMore).mp hServed
        obtain ⟨fatStream, stream', mid, hFilled, hCall⟩ :=
          fat16ReadInternalFromStream_served stream mem out hSize hCluster hFirst
        obtain ⟨fatStream', stream'', mem', hTail, hPatched⟩ := ih (n - clusterBytes p.header)
          (by omega) stream' mid (out + clusterBytes p.header)
          (p := { p with fatReadStream := fatStream }) hSize (toInt_toInt _)
          (show (total - clusterBytes p.header).toNat = n - clusterBytes p.header by omega) hRest
        refine ⟨fatStream', stream'', mem', ?_, ?_⟩
        · rw [hCall, chunkRest, if_pos hMore, hTail]
        · have hHead := chunkPatched hOffset (Nat.le_refl _) (by omega) hFilled
          have hAll := hHead.append (hPatched.congr fun i _ => (pieceByte_next hSize i).symm)
          rwa [show clusterBytes p.header + (n - clusterBytes p.header) = n by omega] at hAll
      · obtain ⟨fatStream, stream', mem', hFilled, hCall⟩ :=
          fat16ReadInternalFromStream_served stream mem out hSize hCluster
            ((pieceServed_last hOffset (Int.not_lt.mp hMore)).mp hServed)
        refine ⟨fatStream, stream', mem', ?_, chunkPatched hOffset (by omega) (by omega) hFilled⟩
        rw [hCall, chunkRest, if_neg hMore]

/-- A call of which a chunk is not served ends, if it ends, with an error. -/
theorem fat16ReadInternalFromStream_error {stream : DiskStream} {mem : Memory} {out : Nat}
    {r : FileRead} (hSize : 0 < p.header.sectorsPerCluster)
    (hCluster : 0 ≤ cluster ∧ cluster < 65536) (hOffset : toInt offset = offset)
    (hServed : ¬ PieceServed disk p cluster offset total)
    (h : fat16ReadInternalFromStream disk p stream cluster offset total mem out = some r) :
    r.res < 0 := by
  induction hn : total.toNat using Nat.strongRecOn generalizing p offset total stream mem out with
  | ind n ih =>
      have hSome := clusterBytes_pos hSize
      by_cases hFirst : ChunkServed disk p cluster offset total
      · by_cases hMore : clusterBytes p.header < total
        · have hRest : ¬ PieceServed disk p cluster (toInt (offset + clusterBytes p.header))
              (total - clusterBytes p.header) := fun hRest =>
            hServed ((pieceServed_succ hOffset hMore).mpr ⟨hFirst, hRest⟩)
          obtain ⟨fatStream, stream', mid, _, hCall⟩ :=
            fat16ReadInternalFromStream_served stream mem out hSize hCluster hFirst
          rw [hCall, chunkRest, if_pos hMore] at h
          exact ih (total - clusterBytes p.header).toNat (by omega)
            (p := { p with fatReadStream := fatStream }) hSize (toInt_toInt _) hRest h rfl
        · exact absurd ((pieceServed_last hOffset (Int.not_lt.mp hMore)).mpr hFirst) hServed
      · exact fat16ReadInternalFromStream_refused hSize hCluster hFirst h

/-- A read of a file leaves the volume as it is. -/
theorem fat16ReadInternalFromStream_header {stream : DiskStream} {mem : Memory} {out : Nat}
    {r : FileRead} (hSize : 0 < p.header.sectorsPerCluster)
    (hCluster : 0 ≤ cluster ∧ cluster < 65536)
    (h : fat16ReadInternalFromStream disk p stream cluster offset total mem out = some r) :
    r.fsPrivate.header = p.header := by
  induction hn : total.toNat using Nat.strongRecOn generalizing p offset total stream mem out with
  | ind n ih =>
      have hSome := clusterBytes_pos hSize
      rcases @fat16ReadInternalFromStream_cases disk p cluster offset total stream mem out hSize
        hCluster with ⟨_, fatStream, hCall⟩ | ⟨_, hError⟩
      · rw [hCall] at h
        cases hRead : diskstreamerRead disk ⟨chunkStart disk p cluster offset, .diskObj⟩ mem out
            (min total (clusterBytes p.header)) with
        | none =>
            rw [hRead] at h
            exact absurd h (by simp)
        | some chunk =>
            rw [hRead] at h
            dsimp only at h
            split at h
            · rw [Option.some.injEq] at h
              subst h
              rfl
            · rw [chunkRest] at h
              dsimp only at h
              split at h
              · exact ih (total - clusterBytes p.header).toNat (by omega)
                  (p := { p with fatReadStream := fatStream }) hSize h rfl
              · rw [Option.some.injEq] at h
                subst h
                rfl
      · exact (hError r h).2

end Chunk

end LiebeOS
