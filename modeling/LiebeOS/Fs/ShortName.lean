import Mathlib.Data.Nat.Find
import LiebeOS.Fs.DirectoryBlock

/-! The name of a directory entry as it is shown, against the two fields that
it is made of. The fields stand side by side in the entry and neither of them
has to end in itself. -/
namespace LiebeOS

/-- What ends a field before its width does. -/
def Padding (c : UInt8) : Prop := c = 0x00 ∨ c = 0x20

instance (c : UInt8) : Decidable (Padding c) := inferInstanceAs (Decidable (_ ∨ _))

/-- Byte `j` counted from the start of entry `i`. -/
def FatDirectoryBlock.entry (d : FatDirectoryBlock) (i j : Nat) : UInt8 := d.byte (32 * i + j)

/-- The extension of an entry with these bytes. -/
def extBytes (e : Nat → UInt8) (j : Nat) : UInt8 := e (8 + j)

def chars (f : Nat → UInt8) (n : Nat) : List UInt8 := (List.range n).map f

/-- A field of the given width up to its padding. -/
def properField (f : Nat → UInt8) (width : Nat) : List UInt8 :=
  (chars f width).takeWhile fun c => ¬ Padding c

/-- The name that an entry with these bytes is meant to be shown with. -/
def properName (e : Nat → UInt8) : List UInt8 :=
  properField e 8 ++ if Padding (extBytes e 0) then [] else 0x2E :: properField (extBytes e) 3

/-- The two entries agree in their name and in their extension. -/
def SameName (d : FatDirectoryBlock) (i : Nat) (d' : FatDirectoryBlock) (i' : Nat) : Prop :=
  ∀ j < 11, d'.entry i' j = d.entry i j

/-- The characters from byte 0 on that are not padding are the first `n`. -/
structure EndsAfter (f : Nat → UInt8) (n : Nat) : Prop where
  before : ∀ j < n, ¬ Padding (f j)
  behind : Padding (f n)

/-! ### Fields -/

section Field

variable {f g : Nat → UInt8} {n k : Nat}

@[simp] theorem chars_length : (chars f n).length = n := by simp [chars]

theorem chars_succ : chars f (n + 1) = f 0 :: chars (fun j => f (j + 1)) n := by
  simp [chars, List.range_succ_eq_map, Function.comp_def]

theorem chars_congr (h : ∀ j < n, f j = g j) : chars f n = chars g n :=
  List.map_congr_left fun j hj => h j (List.mem_range.mp hj)

theorem EndsAfter.exists_of (h : ∃ j < k, Padding (f j)) : ∃ n < k, EndsAfter f n := by
  obtain ⟨j, hj, hPadding⟩ := h
  have hSome : ∃ n, Padding (f n) := ⟨j, hPadding⟩
  exact ⟨Nat.find hSome, Nat.lt_of_le_of_lt (Nat.find_min' hSome hPadding) hj,
    fun m hm => Nat.find_min hSome hm, Nat.find_spec hSome⟩

theorem EndsAfter.le_of_padding (h : EndsAfter f n) (hPadding : Padding (f k)) : n ≤ k :=
  Nat.le_of_not_lt fun hk => h.before k hk hPadding

theorem EndsAfter.congr (h : EndsAfter f n) (hSame : ∀ j ≤ n, g j = f j) : EndsAfter g n where
  before j hj := by
    rw [hSame j (Nat.le_of_lt hj)]
    exact h.before j hj
  behind := by
    rw [hSame n (Nat.le_refl n)]
    exact h.behind

theorem EndsAfter.tail (h : EndsAfter f (n + 1)) : EndsAfter (fun j => f (j + 1)) n where
  before j hj := h.before (j + 1) (Nat.succ_lt_succ hj)
  behind := h.behind

theorem EndsAfter.cons (hFirst : ¬ Padding (f 0)) (h : EndsAfter (fun j => f (j + 1)) n) :
    EndsAfter f (n + 1) where
  before j hj := by
    cases j with
    | zero => exact hFirst
    | succ j => exact h.before j (Nat.lt_of_succ_lt_succ hj)
  behind := h.behind

theorem properField_eq (h : EndsAfter f n) (width : Nat) :
    properField f width = chars f (min n width) := by
  induction width generalizing f n with
  | zero => rw [Nat.min_zero]; rfl
  | succ width ih =>
      cases n with
      | zero =>
          have hFirst := h.behind
          rw [properField, chars_succ, List.takeWhile_cons_of_neg (by simpa using hFirst),
            Nat.zero_min]
          rfl
      | succ n =>
          have hFirst := h.before 0 (Nat.succ_pos n)
          rw [properField, chars_succ, List.takeWhile_cons_of_pos (by simpa using hFirst),
            Nat.succ_min_succ, chars_succ]
          exact congrArg _ (ih h.tail)

end Field

/-! ### What is written -/

section Shown

variable {d d' : FatDirectoryBlock} {i i' a n m room : Nat}

theorem byte_shift : (fun j => d.byte (a + (j + 1))) = fun j => d.byte (a + 1 + j) :=
  funext fun j => congrArg d.byte (by rw [Nat.add_assoc, Nat.add_comm 1])

theorem fat16ToProperString_succ (hBlock : a < d.size) :
    fat16ToProperString d (room + 1) a =
      if Padding (d.byte a) then some []
      else (fat16ToProperString d room (a + 1)).map (d.byte a :: ·) := by
  rw [fat16ToProperString, FatDirectoryBlock.read, if_pos hBlock]
  rfl

theorem fat16ToProperString_outside (hBlock : ¬ a < d.size) :
    fat16ToProperString d room a = none := by
  cases room with
  | zero => rw [fat16ToProperString, FatDirectoryBlock.read, if_neg hBlock]
  | succ room => rw [fat16ToProperString, FatDirectoryBlock.read, if_neg hBlock]

/-- The copy ends where the padding starts, if that is in the block and the
buffer has room for a null behind it. -/
theorem fat16ToProperString_eq (hEnds : EndsAfter (fun j => d.byte (a + j)) n)
    (hBlock : a + n < d.size) (hRoom : n < room) :
    fat16ToProperString d room a = some (chars (fun j => d.byte (a + j)) n) := by
  induction n generalizing a room with
  | zero =>
      cases room with
      | zero => exact absurd hRoom (Nat.lt_irrefl 0)
      | succ room =>
          have hStop : Padding (d.byte a) := hEnds.behind
          have hIn : a < d.size := hBlock
          rw [fat16ToProperString_succ hIn, if_pos hStop]
          rfl
  | succ n ih =>
      cases room with
      | zero => exact absurd hRoom (Nat.not_lt_zero _)
      | succ room =>
          have hGo : ¬ Padding (d.byte a) := hEnds.before 0 (Nat.succ_pos n)
          have hTail : EndsAfter (fun j => d.byte (a + 1 + j)) n := byte_shift ▸ hEnds.tail
          have hRest := ih hTail (by omega) (Nat.lt_of_succ_lt_succ hRoom)
          rw [fat16ToProperString_succ (by omega), if_neg hGo, hRest, chars_succ, byte_shift]
          rfl

/-- A copy that stays in its block and its buffer has stopped at padding. -/
theorem fat16ToProperString_some {s : List UInt8} (h : fat16ToProperString d room a = some s) :
    ∃ n, EndsAfter (fun j => d.byte (a + j)) n ∧ s = chars (fun j => d.byte (a + j)) n := by
  by_cases hBlock : a < d.size
  swap
  · rw [fat16ToProperString_outside hBlock] at h
    exact absurd h (by simp)
  induction room generalizing a s with
  | zero =>
      rw [fat16ToProperString, FatDirectoryBlock.read, if_pos hBlock] at h
      obtain ⟨hStop, hNone⟩ := Option.ite_none_right_eq_some.mp h
      exact ⟨0, ⟨fun j hj => absurd hj (Nat.not_lt_zero j), Or.inl hStop⟩,
        (Option.some.inj hNone).symm⟩
  | succ room ih =>
      rw [fat16ToProperString_succ hBlock] at h
      by_cases hStop : Padding (d.byte a)
      · rw [if_pos hStop] at h
        exact ⟨0, ⟨fun j hj => absurd hj (Nat.not_lt_zero j), hStop⟩, (Option.some.inj h).symm⟩
      · rw [if_neg hStop] at h
        obtain ⟨rest, hRest, rfl⟩ := Option.map_eq_some_iff.mp h
        have hNext : a + 1 < d.size := by
          by_contra hOut
          rw [fat16ToProperString_outside hOut] at hRest
          exact absurd hRest (by simp)
        obtain ⟨n, hEnds, rfl⟩ := ih hRest hNext
        have hAll : EndsAfter (fun j => d.byte (a + j)) (n + 1) :=
          EndsAfter.cons hStop (byte_shift ▸ hEnds)
        exact ⟨n + 1, hAll, by rw [chars_succ, byte_shift]; rfl⟩

/-- The extension starts behind the name. -/
theorem entry_ext : (fun j => d.byte (32 * i + 8 + j)) = extBytes (d.entry i) :=
  funext fun j => congrArg d.byte (Nat.add_assoc _ 8 j)

/-- What is shown of an entry whose two copies end. -/
theorem fullName_eq (hEntry : 32 * i + 32 ≤ d.size) (hName : EndsAfter (d.entry i) n)
    (hExt : ¬ Padding (extBytes (d.entry i) 0) → EndsAfter (extBytes (d.entry i)) m)
    (hn : n < 32) (hm : m < 24) :
    fat16GetFullRelativeFilename d i = some (chars (d.entry i) n ++
      if Padding (extBytes (d.entry i) 0) then [] else 0x2E :: chars (extBytes (d.entry i)) m) := by
  have hFilename := @fat16ToProperString_eq d (32 * i) n liebeOsMaxPathLen hName (by omega)
    (Nat.lt_trans hn (by decide))
  have hRead : d.read (32 * i + 8) = some (extBytes (d.entry i) 0) := by
    rw [FatDirectoryBlock.read, if_pos (by omega)]
    rfl
  rw [fat16GetFullRelativeFilename, hFilename, hRead]
  dsimp only
  by_cases hNone : Padding (extBytes (d.entry i) 0)
  · rw [if_neg (by rwa [← not_or, not_not]), if_pos hNone, List.append_nil]
    rfl
  · have hLong : (chars (fun j => d.byte (32 * i + j)) n).length < liebeOsMaxPathLen := by
      rw [chars_length]
      exact Nat.lt_trans hn (by decide)
    have hRoom : m < liebeOsMaxPathLen - n - 1 := by
      have hMax : liebeOsMaxPathLen = 108 := rfl
      omega
    rw [if_pos (not_or.mp hNone), if_neg hNone, if_pos hLong, chars_length,
      fat16ToProperString_eq (by rw [entry_ext]; exact hExt hNone) (by omega) hRoom, entry_ext]
    rfl

/-- What is shown of an entry is the result of copies that end. -/
theorem fullName_some {s : List UInt8} (h : fat16GetFullRelativeFilename d i = some s) :
    ∃ n m, EndsAfter (d.entry i) n ∧
      (¬ Padding (extBytes (d.entry i) 0) → EndsAfter (extBytes (d.entry i)) m) ∧
      s = chars (d.entry i) n ++
        if Padding (extBytes (d.entry i) 0) then []
        else 0x2E :: chars (extBytes (d.entry i)) m := by
  rw [fat16GetFullRelativeFilename] at h
  split at h
  · rename_i filename ext hFilename hRead
    obtain ⟨n, hName, rfl⟩ := fat16ToProperString_some hFilename
    have hExt : ext = extBytes (d.entry i) 0 := by
      rw [FatDirectoryBlock.read] at hRead
      exact (Option.some.inj (Option.ite_none_right_eq_some.mp hRead).2).symm
    rw [← hExt]
    by_cases hNone : Padding ext
    · rw [if_neg (by rwa [← not_or, not_not])] at h
      refine ⟨n, 0, hName, fun hSome => absurd hNone hSome, ?_⟩
      rw [if_pos hNone, List.append_nil]
      exact (Option.some.inj h).symm
    · rw [if_pos (not_or.mp hNone)] at h
      obtain ⟨_, hShown⟩ := Option.ite_none_right_eq_some.mp h
      obtain ⟨rest, hRest, rfl⟩ := Option.map_eq_some_iff.mp hShown
      obtain ⟨m, hEnds, rfl⟩ := fat16ToProperString_some hRest
      rw [entry_ext] at hEnds ⊢
      refine ⟨n, m, hName, fun _ => hEnds, ?_⟩
      rw [if_neg hNone]
      rfl
  · exact absurd h (by simp)

/-- The meant name, where name and extension end somewhere. -/
theorem properName_eq {e : Nat → UInt8} (hName : EndsAfter e n)
    (hExt : ¬ Padding (extBytes e 0) → EndsAfter (extBytes e) m) :
    properName e = chars e (min n 8) ++
      if Padding (extBytes e 0) then [] else 0x2E :: chars (extBytes e) (min m 3) := by
  rw [properName, properField_eq hName]
  by_cases hNone : Padding (extBytes e 0)
  · rw [if_pos hNone, if_pos hNone]
  · rw [if_neg hNone, if_neg hNone, properField_eq (hExt hNone)]

/-- An entry is shown with the name it is meant to have exactly if its name ends
before the second byte of the extension and its extension before the attribute
is passed. -/
theorem fullName_proper_iff (hEntry : 32 * i + 32 ≤ d.size) :
    fat16GetFullRelativeFilename d i = some (properName (d.entry i)) ↔
      (∃ j < 9, Padding (d.entry i j)) ∧ ∃ j < 4, Padding (extBytes (d.entry i) j) := by
  constructor
  · intro hShown
    obtain ⟨n, m, hName, hExt, hSame⟩ := fullName_some hShown
    rw [properName_eq hName hExt] at hSame
    by_cases hNone : Padding (extBytes (d.entry i) 0)
    · exact ⟨⟨8, by decide, hNone⟩, 0, by decide, hNone⟩
    · have hLengths := congrArg List.length hSame
      simp only [if_neg hNone, List.length_append, List.length_cons, chars_length] at hLengths
      exact ⟨⟨n, by omega, hName.behind⟩, m, by omega, (hExt hNone).behind⟩
  · rintro ⟨hNameEnds, hExtEnds⟩
    obtain ⟨n, hn, hName⟩ := EndsAfter.exists_of hNameEnds
    obtain ⟨m, hm, hExt⟩ := EndsAfter.exists_of hExtEnds
    rw [fullName_eq hEntry hName (fun _ => hExt) (by omega) (by omega),
      properName_eq hName fun _ => hExt, Nat.min_eq_left (by omega), Nat.min_eq_left (by omega)]

/-- Two entries with the same name and extension are shown alike if the
extension ends in itself. -/
theorem fullName_congr (hEntry : 32 * i + 32 ≤ d.size) (hEntry' : 32 * i' + 32 ≤ d'.size)
    (hSame : SameName d i d' i') (hExtEnds : ∃ j < 3, Padding (extBytes (d.entry i) j)) :
    fat16GetFullRelativeFilename d' i' = fat16GetFullRelativeFilename d i := by
  obtain ⟨k, hk, hPadding⟩ := hExtEnds
  obtain ⟨n, hn, hName⟩ := @EndsAfter.exists_of (d.entry i) 11 ⟨8 + k, by omega, hPadding⟩
  obtain ⟨m, hm, hExt⟩ := EndsAfter.exists_of ⟨k, hk, hPadding⟩
  have hExtSame : ∀ j < 3, extBytes (d'.entry i') j = extBytes (d.entry i) j :=
    fun j hj => hSame (8 + j) (by omega)
  have hName' : EndsAfter (d'.entry i') n := hName.congr fun j hj => hSame j (by omega)
  have hExt' : EndsAfter (extBytes (d'.entry i')) m :=
    hExt.congr fun j hj => hExtSame j (by omega)
  rw [fullName_eq hEntry hName (fun _ => hExt) (by omega) (by omega),
    fullName_eq hEntry' hName' (fun _ => hExt') (by omega) (by omega),
    chars_congr fun j hj => hSame j (by omega), chars_congr fun j hj => hExtSame j (by omega),
    hExtSame 0 (by decide)]

/-- A block with one entry: the name and the extension of entry `i`, the given
attribute, and spaces behind it. -/
def withAttribute (d : FatDirectoryBlock) (i : Nat) (attr : UInt8) : FatDirectoryBlock where
  items := 1
  total := 1
  size := 32
  byte j := if j < 11 then d.entry i j else if j = 11 then attr else 0x20
  null h := absurd h (by decide)

theorem withAttribute_entry (attr : UInt8) (j : Nat) : (withAttribute d i attr).entry 0 j =
    if j < 11 then d.entry i j else if j = 11 then attr else 0x20 := by
  rw [FatDirectoryBlock.entry, Nat.mul_zero, Nat.zero_add]
  rfl

theorem withAttribute_size (attr : UInt8) : 32 * 0 + 32 ≤ (withAttribute d i attr).size :=
  Nat.le_refl 32

theorem withAttribute_sameName (attr : UInt8) : SameName d i (withAttribute d i attr) 0 :=
  fun j hj => by rw [withAttribute_entry, if_pos hj]

/-- An extension that fills its field is shown with another length if the
attribute ends it than if the byte behind the attribute does. -/
theorem fullName_attribute (hFull : ∀ j < 3, ¬ Padding (extBytes (d.entry i) j)) :
    fat16GetFullRelativeFilename (withAttribute d i 0x20) 0 ≠
      fat16GetFullRelativeFilename (withAttribute d i 0x41) 0 := by
  have hEnd (attr : UInt8) : Padding ((withAttribute d i attr).entry 0 12) := by
    rw [withAttribute_entry]
    exact Or.inr rfl
  have hExt (attr : UInt8) : ∀ j < 3, ¬ Padding (extBytes ((withAttribute d i attr).entry 0) j) :=
    fun j hj => by
      rw [extBytes, withAttribute_sameName attr (8 + j) (by omega)]
      exact hFull j hj
  have hShort : EndsAfter (extBytes ((withAttribute d i 0x20).entry 0)) 3 :=
    ⟨hExt 0x20, by rw [extBytes, withAttribute_entry]; exact Or.inr rfl⟩
  have hLong : EndsAfter (extBytes ((withAttribute d i 0x41).entry 0)) 4 := by
    refine ⟨fun j hj => ?_, hEnd 0x41⟩
    rcases Nat.lt_or_eq_of_le (Nat.le_of_lt_succ hj) with hj | rfl
    · exact hExt 0x41 j hj
    · rw [extBytes, withAttribute_entry, if_neg (by decide), if_pos rfl]
      decide
  obtain ⟨n, hn, hName⟩ := @EndsAfter.exists_of ((withAttribute d i 0x20).entry 0) 12
    ⟨11, by decide, by rw [withAttribute_entry]; exact Or.inr rfl⟩
  obtain ⟨n', hn', hName'⟩ :=
    @EndsAfter.exists_of ((withAttribute d i 0x41).entry 0) 13 ⟨12, by decide, hEnd 0x41⟩
  have hOrder : n ≤ n' := by
    rcases Nat.lt_or_ge n' 11 with hIn | hOut
    · refine hName.le_of_padding ?_
      rw [withAttribute_sameName 0x20 n' hIn, ← withAttribute_sameName 0x41 n' hIn]
      exact hName'.behind
    · omega
  intro hSame
  rw [fullName_eq (withAttribute_size _) hName (fun _ => hShort) (by omega) (by decide),
    fullName_eq (withAttribute_size _) hName' (fun _ => hLong) (by omega) (by decide),
    if_neg (hExt 0x20 0 (by decide)), if_neg (hExt 0x41 0 (by decide))] at hSame
  have hLengths := congrArg List.length (Option.some.inj hSame)
  simp only [List.length_append, List.length_cons, chars_length] at hLengths
  omega

/-- What is shown of an entry is settled by its name and extension exactly if
the extension ends in itself. -/
theorem fullName_settled_iff (hEntry : 32 * i + 32 ≤ d.size) :
    (∀ d' i', 32 * i' + 32 ≤ d'.size → SameName d i d' i' →
      fat16GetFullRelativeFilename d' i' = fat16GetFullRelativeFilename d i) ↔
      ∃ j < 3, Padding (extBytes (d.entry i) j) := by
  constructor
  · intro hSettled
    by_contra hNever
    have hFull : ∀ j < 3, ¬ Padding (extBytes (d.entry i) j) :=
      fun j hj hPadding => hNever ⟨j, hj, hPadding⟩
    have hShort := hSettled _ 0 (withAttribute_size 0x20) (withAttribute_sameName _)
    have hLong := hSettled _ 0 (withAttribute_size 0x41) (withAttribute_sameName _)
    exact fullName_attribute hFull (hShort.trans hLong.symm)
  · intro hExtEnds d' i' hEntry' hSame
    exact fullName_congr hEntry hEntry' hSame hExtEnds

/-- An entry is shown with its name and its extension, each up to its padding,
exactly if the copy of the name stops at the extension at the latest and that of
the extension at the attribute; and what is shown is settled by the two fields
exactly if the extension has padding of its own. -/
theorem fat16GetFullRelativeFilename_proper_iff (hEntry : 32 * i + 32 ≤ d.size) :
    (fat16GetFullRelativeFilename d i = some (properName (d.entry i)) ↔
      (∃ j < 9, Padding (d.entry i j)) ∧ ∃ j < 4, Padding (extBytes (d.entry i) j)) ∧
    ((∀ d' i', 32 * i' + 32 ≤ d'.size → SameName d i d' i' →
      fat16GetFullRelativeFilename d' i' = fat16GetFullRelativeFilename d i) ↔
        ∃ j < 3, Padding (extBytes (d.entry i) j)) :=
  ⟨fullName_proper_iff hEntry, fullName_settled_iff hEntry⟩

/-- A block with one entry that starts with these bytes, zero behind them. -/
def entryBlock (bytes : List UInt8) : FatDirectoryBlock where
  items := 1
  total := 1
  size := 32
  byte j := bytes.getD j 0x00
  null h := absurd h (by decide)

/-- The file `A.TXT`, with the archive attribute. -/
def paddedEntry : FatDirectoryBlock := entryBlock
  [0x41, 0x20, 0x20, 0x20, 0x20, 0x20, 0x20, 0x20, 0x54, 0x58, 0x54, 0x20]

theorem fat16GetFullRelativeFilename_proper_padded :
    fat16GetFullRelativeFilename paddedEntry 0 = some [0x41, 0x2E, 0x54, 0x58, 0x54] := by
  have hEntry : 32 * 0 + 32 ≤ paddedEntry.size := by decide
  exact ((fat16GetFullRelativeFilename_proper_iff hEntry).1.mpr
    ⟨⟨1, by decide, by decide⟩, 3, by decide, by decide⟩).trans (by decide)

/-- The file `ABCDEFGH.TXT`, with the archive attribute. -/
def filledEntry : FatDirectoryBlock := entryBlock
  [0x41, 0x42, 0x43, 0x44, 0x45, 0x46, 0x47, 0x48, 0x54, 0x58, 0x54, 0x20]

/-- A name that fills its field is shown with the extension twice. -/
theorem fat16GetFullRelativeFilename_not_proper :
    fat16GetFullRelativeFilename filledEntry 0 = some
      [0x41, 0x42, 0x43, 0x44, 0x45, 0x46, 0x47, 0x48, 0x54, 0x58, 0x54, 0x2E, 0x54, 0x58, 0x54] ∧
    properName (filledEntry.entry 0) =
      [0x41, 0x42, 0x43, 0x44, 0x45, 0x46, 0x47, 0x48, 0x2E, 0x54, 0x58, 0x54] ∧
    ¬ ∀ d i, 32 * i + 32 ≤ d.size →
      fat16GetFullRelativeFilename d i = some (properName (d.entry i)) :=
  ⟨by decide, by decide, fun h => absurd (h filledEntry 0 (by decide)) (by decide)⟩

end Shown

end LiebeOS
