import LiebeOS.Fs.PathParser
import LiebeOS.Task.StringFromTask

/-! The system calls that start a program, `isr80h/process.c`, up to the point
where `process_load_switch` is called. The path is put together in a buffer on
the kernel's stack, from the drive and the name that the program supplies. -/
namespace LiebeOS

open MachineInt Bytes

/-- What the pointer to the constant `"0:/"` shows. -/
def drivePrefix (_ : Memory) (i : Nat) : UInt8 := [0x30, 0x3A, 0x2F].getD i 0

/-- A call refuses, or it hands `path` to `process_load_switch`. -/
inductive StartCall where
  | refused
  | load (path : Nat) (s : Stores)

def loadWordThrough (t : Translation) (mem : Memory) (p : Nat) : Option Nat := do
  let b0 ← t.load mem (behind p 0)
  let b1 ← t.load mem (behind p 1)
  let b2 ← t.load mem (behind p 2)
  let b3 ← t.load mem (behind p 3)
  return b0.toNat + 256 * b1.toNat + 65536 * b2.toNat + 16777216 * b3.toNat

/-- The word is read under the directory of the task. -/
def taskGetStackItem (m : Machine) (directory esp index : Nat) : Option (Nat × Machine) := do
  let m := pageSwitch m directory
  let item ← loadWordThrough (pageTranslation directory) m.kernel.mem (behind esp (4 * index))
  return (item, kernelPage m)

@[irreducible] def isr80hCommand6ProcessLoadStartPath (m : Machine)
    (directory esp filename path : Nat) : Option StartCall := do
  let (filenameUserPtr, m) ← taskGetStackItem m directory esp 0
  let (res, m) ← copyStringFromTask m directory filenameUserPtr filename liebeOsMaxPathLen
  if res < 0 then return .refused
  else
    let s ← kernelStrcpy drivePrefix path ⟨m.kernel.mem, []⟩
    let s ← kernelStrcpy (fun mem i => mem (behind filename i)) (path + 3) s
    return .load path s

@[irreducible] def isr80hCommand7InvokeSystemCommandPath (m : Machine)
    (directory esp path : Nat) : Option StartCall := do
  let (item, m) ← taskGetStackItem m directory esp 0
  let arguments := pagingGetPhysicalAddress m.kernel.mem directory item
  if arguments = 0 then return .refused
  else
    let len ← kernelStrlen m.kernel.mem arguments
    if len = 0 then return .refused
    else
      let s ← kernelStrcpy drivePrefix path ⟨m.kernel.mem, []⟩
      let s ← kernelStrncpy identityTranslation (path + 3) arguments liebeOsMaxPathLen s
      return .load path s

/-- At `ptr` the task sees the string `name`. -/
structure NameSupplied (mem : Memory) (directory ptr : Nat) (name : List UInt8) : Prop where
  chars : ∀ i < name.length, taskByte mem directory ptr i = name[i]?
  ends : taskByte mem directory ptr name.length = some 0
  nonzero : 0 ∉ name

/-- The buffer holds the drive, the first `n` characters of the name and a NUL. -/
structure PathHeld (mem : Memory) (path : Nat) (name : List UInt8) (n : Nat) : Prop where
  short : n ≤ name.length
  drive : ∀ i < 3, mem (path + i) = drivePrefix mem i
  chars : ∀ i < n, some (mem (path + 3 + i)) = name[i]?
  ends : mem (path + 3 + n) = 0

/-- The call comes back, and if it starts a program, then with the path of the
name, having stored to the buffer only. -/
def StartProper (path : Nat) (name : List UInt8) : Option StartCall → Prop
  | none => False
  | some .refused => True
  | some (.load p s) => p = path ∧ (∃ n, PathHeld s.mem path name n) ∧
      ∀ a ∈ s.written, path ≤ a ∧ a < path + liebeOsMaxPathLen

section Paths

variable {mem : Memory} {path n m : Nat} {name : List UInt8} {s s₁ s₂ : Stores}

/-- The drive fits, whatever was in the buffer. -/
theorem kernelStrcpy_drive (path : Nat) (hRoom : path + 3 ≤ 4294967296) (s : Stores) :
    ∃ fin, kernelStrcpy drivePrefix path s = some fin ∧ Wrote path 3 s fin ∧
      ∀ j < 3, fin.mem (path + j) = drivePrefix s.mem j := by
  refine kernelStrcpy_copies hRoom (by decide) (fun _ _ _ _ => rfl) (fun i hi => ?_) rfl
  have hCase : i = 0 ∨ i = 1 ∨ i = 2 := by omega
  rcases hCase with rfl | rfl | rfl
  · exact show (0x30 : UInt8) ≠ 0 by decide
  · exact show (0x3A : UInt8) ≠ 0 by decide
  · exact show (0x2F : UInt8) ≠ 0 by decide

/-- Two stretches of stores that follow each other. -/
theorem Wrote.append (hFirst : Wrote path n s s₁) (hSecond : Wrote (path + n) m s₁ s₂) :
    Wrote path (n + m) s s₂ := by
  refine ⟨fun a ha => ?_, fun a => ?_⟩
  · rw [hSecond.outside a (by omega)]
    exact hFirst.outside a (by omega)
  · rw [hSecond.written, hFirst.written]
    have hJoin : (path ≤ a ∧ a < path + n) ∨ (path + n ≤ a ∧ a < path + n + m) ↔
        path ≤ a ∧ a < path + (n + m) := by omega
    rw [or_assoc, hJoin]

/-- The name in a path is at least as long as the characters that are there. -/
theorem PathHeld.le {k : Nat} (h : PathHeld mem path name k)
    (hChars : ∀ i < n, mem (path + 3 + i) ≠ 0) : n ≤ k := by
  by_contra hLess
  exact hChars k (by omega) h.ends

/-- It ends with the first NUL. -/
theorem PathHeld.ge {k : Nat} (h : PathHeld mem path name k) (hName : 0 ∉ name)
    (hEnd : mem (path + 3 + n) = 0) : k ≤ n := by
  by_contra hLess
  have hChar := h.chars n (by omega)
  rw [hEnd] at hChar
  exact hName (List.mem_of_getElem? hChar.symm)

/-- What the second call has built is a path if all of the string has been copied
into the buffer, and the string is the name or the front of it. -/
theorem startProper_terminated_iff {seen : Nat → UInt8} (hName : 0 ∉ name)
    (hWrote : Wrote path (3 + (n + 1)) ⟨mem, []⟩ s)
    (hDrive : ∀ i < 3, s.mem (path + i) = drivePrefix s.mem i)
    (hCopied : StringCopied (fun i => some (seen i)) 108 (fun i => s.mem (path + 3 + i)) n) :
    StartProper path name (some (.load path s)) ↔
      ∃ k ≤ 104, k ≤ name.length ∧ (∀ i < k, some (seen i) = name[i]?) ∧ seen k = 0 := by
  have hSeen : ∀ i < n, seen i = s.mem (path + 3 + i) ∧ s.mem (path + 3 + i) ≠ 0 :=
    fun i hi => ⟨Option.some.inj (hCopied.bytes i hi).1, (hCopied.bytes i hi).2⟩
  constructor
  · rintro ⟨_, ⟨k, hHeld⟩, hInside⟩
    have hLast := hInside (path + (3 + n)) ((hWrote.written _).mpr (Or.inr (by omega)))
    have hEnough : n ≤ 104 := by
      have hHigh := hLast.2
      unfold liebeOsMaxPathLen at hHigh
      omega
    obtain rfl : k = n :=
      Nat.le_antisymm (hHeld.ge hName hCopied.ends) (hHeld.le fun i hi => (hSeen i hi).2)
    refine ⟨k, hEnough, hHeld.short, fun i hi => ?_, ?_⟩
    · rw [(hSeen i hi).1]
      exact hHeld.chars i hi
    · rcases hCopied.whole with hFull | hZero
      · omega
      · exact Option.some.inj hZero
  · rintro ⟨k, hShort, hLength, hChars, hEnd⟩
    have hLe : n ≤ k := by
      by_contra hLess
      exact (hSeen k (by omega)).2 ((hSeen k (by omega)).1.symm.trans hEnd)
    have hSame : n = k := by
      rcases hCopied.whole with hFull | hZero
      · omega
      · by_contra hOther
        have hChar := hChars n (by omega)
        rw [Option.some.inj hZero] at hChar
        exact hName (List.mem_of_getElem? hChar.symm)
    subst hSame
    refine ⟨rfl, ⟨n, hLength, hDrive, fun i hi => ?_, hCopied.ends⟩, fun a ha => ?_⟩
    · rw [← (hSeen i hi).1]
      exact hChars i hi
    · rcases (hWrote.written a).mp ha with hNone | hIn
      · exact absurd hNone (List.not_mem_nil)
      · unfold liebeOsMaxPathLen
        omega

/-- What the first call has built is a path if all of the name has been copied
into the buffer, and a NUL was there already. -/
theorem startProper_unterminated_iff (hName : 0 ∉ name) (hCount : n = min name.length 107)
    (hWrote : Wrote path (3 + n) ⟨mem, []⟩ s)
    (hDrive : ∀ i < 3, s.mem (path + i) = drivePrefix s.mem i)
    (hChars : ∀ i < n, some (s.mem (path + 3 + i)) = name[i]?) :
    StartProper path name (some (.load path s)) ↔
      name.length ≤ 105 ∧ mem (path + 3 + name.length) = 0 := by
  have hNonzero : ∀ i < n, s.mem (path + 3 + i) ≠ 0 := fun i hi hZero => by
    have hChar := hChars i hi
    rw [hZero] at hChar
    exact hName (List.mem_of_getElem? hChar.symm)
  constructor
  · rintro ⟨_, ⟨k, hHeld⟩, hInside⟩
    have hShort : n ≤ 105 := by
      by_contra hLong
      have hLast := (hInside (path + (3 + 105)) ((hWrote.written _).mpr (Or.inr (by omega)))).2
      unfold liebeOsMaxPathLen at hLast
      omega
    have hLe := hHeld.le hNonzero
    have hLength := hHeld.short
    obtain rfl : k = name.length := by omega
    refine ⟨by omega, ?_⟩
    rw [← hHeld.ends]
    exact (hWrote.outside _ (by omega)).symm
  · rintro ⟨hShort, hEnd⟩
    obtain rfl : n = name.length := by omega
    refine ⟨rfl, ⟨name.length, Nat.le_refl _, hDrive, hChars, ?_⟩, fun a ha => ?_⟩
    · rw [hWrote.outside _ (by omega)]
      exact hEnd
    · rcases (hWrote.written a).mp ha with hNone | hIn
      · exact absurd hNone (List.not_mem_nil)
      · unfold liebeOsMaxPathLen
        omega

end Paths

section Name

variable {mem : Memory} {directory ptr : Nat} {name : List UInt8}

/-- Only the name and its end are looked at. -/
theorem NameSupplied.read (h : NameSupplied mem directory ptr name) {count i : Nat}
    (hRead : ByteRead (taskByte mem directory ptr) count i) :
    i ≤ name.length ∧ taskByte mem directory ptr i ≠ none := by
  have hShort : i ≤ name.length := by
    by_contra hLong
    exact hRead.2 name.length (by omega) h.ends
  refine ⟨hShort, fun hNone => ?_⟩
  by_cases hLast : i = name.length
  · rw [hLast, h.ends] at hNone
    exact absurd hNone (by simp)
  · rw [h.chars i (by omega), List.getElem?_eq_none_iff] at hNone
    omega

/-- A copy of the name is the name, as far as there is room. -/
theorem NameSupplied.copied (h : NameSupplied mem directory ptr name) {count n : Nat}
    {out : Nat → UInt8} (hCopied : StringCopied (taskByte mem directory ptr) count out n) :
    n = min name.length (count - 1) ∧ ∀ i < n, some (out i) = name[i]? := by
  have hInside := hCopied.inside
  have hShort : n ≤ name.length := by
    by_contra hLong
    have hByte := hCopied.bytes name.length (by omega)
    rw [h.ends] at hByte
    exact hByte.2 (Option.some.inj hByte.1).symm
  refine ⟨?_, fun i hi => ?_⟩
  · rcases hCopied.whole with hFull | hZero
    · omega
    · by_contra hOther
      rw [h.chars n (by omega)] at hZero
      exact h.nonzero (List.mem_of_getElem? hZero)
  · rw [← (hCopied.bytes i hi).1]
    exact h.chars i (by omega)

end Name

section Calls

variable {m : Machine} {directory esp ptr filename path : Nat} {table : Nat → Nat}
  {name : List UInt8}

/-- The second call: the path is proper if the string that the kernel sees is
short enough for the buffer, and if it is the name of the program. -/
theorem isr80hCommand7InvokeSystemCommandPath_iff (hItem : taskGetStackItem m directory esp 0 = some (ptr, m))
    (hName : 0 ∉ name) (hRoom : path + 111 ≤ 4294967296)
    (hApart : ∀ i < 108, behind (pagingGetPhysicalAddress m.kernel.mem directory ptr) i < path ∨
      path + 111 ≤ behind (pagingGetPhysicalAddress m.kernel.mem directory ptr) i) :
    StartProper path name (isr80hCommand7InvokeSystemCommandPath m directory esp path) ↔
      pagingGetPhysicalAddress m.kernel.mem directory ptr = 0 ∨
        ∃ n ≤ 104, n ≤ name.length ∧
          (∀ i < n, some (m.kernel.mem (behind (pagingGetPhysicalAddress m.kernel.mem directory ptr)
            i)) = name[i]?) ∧
          m.kernel.mem (behind (pagingGetPhysicalAddress m.kernel.mem directory ptr) n) = 0 := by
  simp only [isr80hCommand7InvokeSystemCommandPath, hItem, Option.bind_eq_bind, Option.bind_some]
  generalize pagingGetPhysicalAddress m.kernel.mem directory ptr = arguments at hApart ⊢
  by_cases hNull : arguments = 0
  · rw [if_pos hNull]
    exact ⟨fun _ => Or.inl hNull, fun _ => trivial⟩
  rw [if_neg hNull, or_iff_right hNull]
  rcases kernelStrlen_cases m.kernel.mem arguments with
    ⟨hEndless, hNonzero⟩ | ⟨len, hLen, hZero, hNonzero⟩
  · rw [hEndless, Option.bind_none]
    exact ⟨False.elim, fun ⟨n, hShort, _, _, hZero⟩ => hNonzero n (by omega) hZero⟩
  rw [hLen, Option.bind_some]
  by_cases hEmpty : len = 0
  · rw [if_pos hEmpty]
    subst hEmpty
    exact ⟨fun _ => ⟨0, by omega, by omega, fun i hi => absurd hi (Nat.not_lt_zero i), hZero⟩,
      fun _ => trivial⟩
  rw [if_neg hEmpty]
  obtain ⟨s₁, hFirst, hWrote, hDrive⟩ :=
    kernelStrcpy_drive path (by omega) ⟨m.kernel.mem, []⟩
  rw [hFirst, Option.bind_some]
  have hSource : StableSource identityTranslation s₁.mem arguments (path + 3) 108 :=
    stableSource_identity s₁.mem fun i hi => by
      rcases hApart i (by omega) with hFront | hBack
      · exact Or.inl (by omega)
      · exact Or.inr (by omega)
  have hDest : Reaches identityTranslation s₁.mem (path + 3) (path + 3) 108 :=
    reaches_identity s₁.mem (by omega)
  rcases @kernelStrncpy_copies _ s₁ _ _ _ _ liebeOsMaxPathLen hDest hSource rfl (by decide) with
    ⟨_, j, _, hMissing⟩ | ⟨s₂, n, hSecond, hWrote', hCopied⟩
  · exact absurd hMissing (by simp [identityTranslation_load])
  rw [hSecond, Option.bind_some]
  refine startProper_terminated_iff hName (hWrote.append hWrote') (fun i hi => ?_)
    (hCopied.congr fun i hRead => ?_)
  · rw [hWrote'.outside _ (by omega)]
    exact hDrive i hi
  · have hi := hRead.1
    rw [identityTranslation_load, hWrote.outside _ ?_]
    rcases hApart i (by omega) with hFront | hBack
    · exact Or.inl hFront
    · exact Or.inr (by omega)

/-- From the copy of the name on: what is built behind the drive is the copy,
without its NUL. -/
theorem kernelStrcpy_path {mem : Memory} {n : Nat} (hCount : n < 108)
    (hLayout : filename + 108 ≤ path ∨ path + 108 ≤ filename) (hInside : filename + 108 ≤ 4294967296)
    (hRoom : path + 111 ≤ 4294967296) (hChars : ∀ i < n, mem (filename + i) ≠ 0)
    (hEnd : mem (filename + n) = 0) :
    ∃ s₁ s₂, kernelStrcpy drivePrefix path ⟨mem, []⟩ = some s₁ ∧
      kernelStrcpy (fun mem i => mem (behind filename i)) (path + 3) s₁ = some s₂ ∧
      Wrote path (3 + n) ⟨mem, []⟩ s₂ ∧ (∀ i < 3, s₂.mem (path + i) = drivePrefix s₂.mem i) ∧
      ∀ i < n, s₂.mem (path + 3 + i) = mem (filename + i) := by
  obtain ⟨s₁, hFirst, hWrote, hDrive⟩ := kernelStrcpy_drive path (by omega) ⟨mem, []⟩
  have hSeen : ∀ i ≤ n, s₁.mem (behind filename i) = mem (filename + i) := fun i hi => by
    rw [behind_of_lt (by omega)]
    exact hWrote.outside _ (by omega)
  obtain ⟨s₂, hSecond, hWrote', hCopied⟩ :=
    @kernelStrcpy_copies (fun mem i => mem (behind filename i)) (path + 3) n s₁ (by omega) (by omega)
      (fun i hi mem' hSame => hSame _ (by rw [behind_of_lt (by omega)]; omega))
      (fun i hi => by
        rw [hSeen i (by omega)]
        exact hChars i hi)
      (by rw [hSeen n (Nat.le_refl n)]; exact hEnd)
  refine ⟨s₁, s₂, hFirst, hSecond, hWrote.append hWrote', fun i hi => ?_, fun i hi => ?_⟩
  · rw [hWrote'.outside _ (by omega)]
    exact hDrive i hi
  · rw [hCopied i hi]
    exact hSeen i (by omega)

/-- The first call: the path is proper if the name is short enough for the buffer
and a NUL was in the buffer already, just behind the place for the name. -/
theorem isr80hCommand6ProcessLoadStartPath_iff (h : TaskSpace m.kernel directory table)
    (hItem : taskGetStackItem m directory esp 0 = some (ptr, m))
    (hName : NameSupplied m.kernel.mem directory ptr name)
    (hApart : ∀ i ≤ name.length, ByteApart m.kernel.mem directory table
      (kzalloc m.kernel liebeOsMaxPathLen).1 (behind ptr i))
    (hFilename : KernelBuffer m.kernel.heap directory table filename 108)
    (hPath : KernelBuffer m.kernel.heap directory table path 111)
    (hLayout : filename + 108 ≤ path ∨ path + 108 ≤ filename) :
    StartProper path name (isr80hCommand6ProcessLoadStartPath m directory esp filename path) ↔
      ¬ HasFree m.kernel.heap ∨
        (name.length ≤ 105 ∧ m.kernel.mem (path + 3 + name.length) = 0 ∧
          (name.length = 105 → filename ≠ path + 108)) := by
  have hRoom := hPath.inside
  have hInside := hFilename.inside
  simp only [isr80hCommand6ProcessLoadStartPath, hItem, Option.bind_eq_bind, Option.bind_some]
  rcases kzalloc_page m.kernel liebeOsMaxPathLen h.heap (by decide) (by decide) with
    ⟨hFull, hRefused⟩ | ⟨p, k', hGrant, hNull, _⟩
  · rw [copyStringFromTask_refused (by decide) hRefused, Option.bind_some,
      if_pos (show -enomem < 0 by decide)]
    exact ⟨fun _ => Or.inl hFull, fun _ => trivial⟩
  have hGranted : (kzalloc m.kernel liebeOsMaxPathLen).1 ≠ 0 := by
    rw [hGrant]
    exact hNull
  have hFree := HasFree.of_kzalloc (by decide) (by decide) hGranted
  obtain ⟨m', n, hCode, hDone, hCopied⟩ := copyStringFromTask_fetches h hGranted (by decide)
    (by decide) hFilename fun i hRead =>
      ⟨hApart i (hName.read hRead).1, (hName.read hRead).2⟩
  obtain ⟨hCount, hChars⟩ := hName.copied hCopied
  have hLimit : liebeOsMaxPathLen = 108 := rfl
  have hLength : n = min name.length 107 := hCount
  obtain ⟨s₁, s₂, hFirst, hSecond, hWrote, hDrive, hBehind⟩ :=
    kernelStrcpy_path hCopied.inside hLayout hInside hRoom (fun i hi => (hCopied.bytes i hi).2)
      hCopied.ends
  rw [hCode, Option.bind_some, if_neg (Int.lt_irrefl 0), hFirst, Option.bind_some, hSecond,
    Option.bind_some, or_iff_right (not_not_intro hFree)]
  refine (startProper_unterminated_iff hName.nonzero hLength hWrote hDrive fun i hi => ?_).trans
    (and_congr_right fun hShort => ?_)
  · rw [hBehind i hi]
    exact hChars i hi
  · by_cases hTouching : path + 3 + name.length = filename
    · -- the byte behind a full buffer is the first one of the copied name
      have hFull : name.length = 105 := by omega
      have hFirstByte := (hCopied.bytes 0 (by omega)).2
      rw [Nat.add_zero, ← hTouching] at hFirstByte
      refine ⟨fun hZero => absurd hZero hFirstByte, fun hOther => ?_⟩
      exact absurd (show filename = path + 108 by omega) (hOther.2 hFull)
    · have hSame : m'.kernel.mem (path + 3 + name.length) =
          m.kernel.mem (path + 3 + name.length) := by
        have hOut := hPath.tables (3 + name.length) (by omega)
        have hPage := hPath.scratch h.heap (show 1 ≤ liebeOsMaxPathLen by decide) (by decide)
          hGranted (show 3 + name.length < 111 by omega)
        rw [← Nat.add_assoc] at hOut hPage
        exact hDone.others _ (by omega) hOut hPage (by omega)
      rw [hSame]
      exact ⟨fun hZero => ⟨hZero, fun hFull => by omega⟩, And.left⟩

/-- Exactly when the two calls pass a proper path on. The first one leaves it to
the buffer to end the path, and the second one takes the bytes behind the
physical address of the name for the name. -/
theorem startProgram_path_iff (h : TaskSpace m.kernel directory table)
    (hItem : taskGetStackItem m directory esp 0 = some (ptr, m))
    (hName : NameSupplied m.kernel.mem directory ptr name)
    (hApart : ∀ i ≤ name.length, ByteApart m.kernel.mem directory table
      (kzalloc m.kernel liebeOsMaxPathLen).1 (behind ptr i))
    (hFilename : KernelBuffer m.kernel.heap directory table filename 108)
    (hPath : KernelBuffer m.kernel.heap directory table path 111)
    (hLayout : filename + 108 ≤ path ∨ path + 108 ≤ filename)
    (hArgument : ∀ i < 108,
      behind (pagingGetPhysicalAddress m.kernel.mem directory ptr) i < path ∨
        path + 111 ≤ behind (pagingGetPhysicalAddress m.kernel.mem directory ptr) i) :
    (StartProper path name (isr80hCommand6ProcessLoadStartPath m directory esp filename path) ↔
      ¬ HasFree m.kernel.heap ∨
        (name.length ≤ 105 ∧ m.kernel.mem (path + 3 + name.length) = 0 ∧
          (name.length = 105 → filename ≠ path + 108))) ∧
    (name.length ≤ 511 →
      (StartProper path name (isr80hCommand7InvokeSystemCommandPath m directory esp path) ↔
        pagingGetPhysicalAddress m.kernel.mem directory ptr = 0 ∨
          ∃ n ≤ 104, n ≤ name.length ∧
            (∀ i < n, some (m.kernel.mem (behind
              (pagingGetPhysicalAddress m.kernel.mem directory ptr) i)) = name[i]?) ∧
            m.kernel.mem (behind (pagingGetPhysicalAddress m.kernel.mem directory ptr) n) = 0)) :=
  ⟨isr80hCommand6ProcessLoadStartPath_iff h hItem hName hApart hFilename hPath hLayout,
    fun _ => isr80hCommand7InvokeSystemCommandPath_iff hItem hName.nonzero hPath.inside hArgument⟩

/-- The first task with the name `sh` and, on its stack, the pointer to it. -/
def namedTask : Machine where
  kernel :=
    { firstTask with
      mem := storeRange (storeWord firstTask.mem 0x0D402000 0x0C000000) 0x0D401000 3 fun i =>
        [0x73, 0x68, 0].getD i 0 }
  kernelDirectory := 0x2000
  loaded := 0x2000

theorem namedTask_same {x : Nat} (hx : x < 0x0D401000) :
    namedTask.kernel.mem x = firstTask.mem x := by
  simp only [namedTask, storeWord]
  rw [storeRange_outside, storeRange_outside]
  · unfold offsetFrom toWord
    omega
  · unfold offsetFrom toWord
    omega

theorem namedTask_space :
    TaskSpace namedTask.kernel 0x01000000 fun d => 0x01001000 + 4096 * d := by
  have hSpace := firstTask_space
  have hBelow : ∀ x < 4294967296, x / 4096 * 4096 = 0x01000000 ∨
      InTables (fun d => 0x01001000 + 4096 * d) x → namedTask.kernel.mem x = firstTask.mem x := by
    rintro x _ (hDirectory | ⟨d, hd, hTable⟩)
    · exact namedTask_same (by omega)
    · dsimp only at hTable
      exact namedTask_same (by omega)
  obtain ⟨hTables, hSame⟩ := hSpace.tables.remapped hBelow
  exact
    { heap := hSpace.heap
      clear := hSpace.clear
      tables := hTables
      held := hSpace.held
      present := fun d hd => by
        rw [hSame.pointers d hd, firstTask_pointer hd]
        omega }

theorem namedTask_item : taskGetStackItem namedTask 0x01000000 0x0C001000 0 =
    some (0x0C000000, namedTask) := by
  have hWord : loadWordThrough (pageTranslation 0x01000000) namedTask.kernel.mem
      (behind 0x0C001000 (4 * 0)) = some 0x0C000000 := by decide
  simp only [taskGetStackItem, pageSwitch, hWord, Option.bind_eq_bind, Option.bind_some]
  rfl

theorem namedTask_name : NameSupplied namedTask.kernel.mem 0x01000000 0x0C000000 [0x73, 0x68] := by
  refine ⟨fun i hi => ?_, by decide, by decide⟩
  have hCase : i = 0 ∨ i = 1 := by
    have hShort : i < 2 := hi
    omega
  rcases hCase with rfl | rfl
  · decide
  · decide

theorem namedTask_apart (i : Nat) (hi : i ≤ [0x73, 0x68].length) :
    ByteApart namedTask.kernel.mem 0x01000000 (fun d => 0x01001000 + 4096 * d)
      (kzalloc namedTask.kernel liebeOsMaxPathLen).1 (behind 0x0C000000 i) := by
  have hCase : i = 0 ∨ i = 1 ∨ i = 2 := by
    have hShort : i ≤ 2 := hi
    omega
  rcases hCase with rfl | rfl | rfl
  · exact firstTask_apart rfl (by decide) (by decide)
  · exact firstTask_apart rfl (by decide) (by decide)
  · exact firstTask_apart rfl (by decide) (by decide)

/-- In a buffer with a NUL at the right place the name makes a path. -/
theorem startProgram_path_iff_shell :
    StartProper 0x00200001 [0x73, 0x68] (isr80hCommand6ProcessLoadStartPath namedTask 0x01000000
        0x0C001000 0x00100000 0x00200001) ∧
      StartProper 0x00200001 [0x73, 0x68] (isr80hCommand7InvokeSystemCommandPath namedTask 0x01000000
        0x0C001000 0x00200001) := by
  have hPlace : pagingGetPhysicalAddress namedTask.kernel.mem 0x01000000 0x0C000000 = 0x0D401000 := by
    decide
  have hEnd : namedTask.kernel.mem (0x00200001 + 3 + [0x73, 0x68].length) = 0 := by decide
  obtain ⟨hFirst, hSecond⟩ := @startProgram_path_iff namedTask 0x01000000 0x0C001000 0x0C000000
    0x00100000 0x00200001 (fun d => 0x01001000 + 4096 * d) [0x73, 0x68] namedTask_space
    namedTask_item namedTask_name namedTask_apart (firstTask_buffer (by decide) (by decide))
    (firstTask_buffer (by decide) (by decide)) (Or.inl (by decide)) fun i hi => by
      rw [hPlace, behind_of_lt (by omega)]
      omega
  refine ⟨hFirst.mpr (Or.inr ⟨by decide, hEnd, fun hFull => absurd hFull (by decide)⟩),
    (hSecond (by decide)).mpr ?_⟩
  refine Or.inr ⟨2, by decide, by decide, fun i hi => ?_, by decide⟩
  have hCase : i = 0 ∨ i = 1 := by omega
  rcases hCase with rfl | rfl
  · decide
  · decide

/-- In the buffer one byte below, the path goes on behind the name. -/
theorem startProgram_path_unterminated :
    NameSupplied namedTask.kernel.mem 0x01000000 0x0C000000 [0x73, 0x68] ∧
      ¬ StartProper 0x00200000 [0x73, 0x68] (isr80hCommand6ProcessLoadStartPath namedTask 0x01000000
        0x0C001000 0x00100000 0x00200000) := by
  refine ⟨namedTask_name, fun hProper => ?_⟩
  have hOther : namedTask.kernel.mem (0x00200000 + 3 + [0x73, 0x68].length) ≠ 0 := by decide
  rcases (@isr80hCommand6ProcessLoadStartPath_iff namedTask 0x01000000 0x0C001000 0x0C000000
    0x00100000 0x00200000 (fun d => 0x01001000 + 4096 * d) [0x73, 0x68] namedTask_space
    namedTask_item namedTask_name namedTask_apart (firstTask_buffer (by decide) (by decide))
    (firstTask_buffer (by decide) (by decide)) (Or.inl (by decide))).mp hProper with
    hFull | ⟨_, hZero, _⟩
  · exact hFull (HasFree.of_kzalloc (by decide) (by decide) (firstTask_granted rfl))
  · exact hOther hZero

end Calls

end LiebeOS
