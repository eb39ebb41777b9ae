import LiebeOS.Fs.Fat16Open

/-! The walk along a path, against what the lookups in the directories on the
way yield. The lookup in one directory is the one of `fat16.c`; what is compared
is how the walk goes on from what it has found. -/
namespace LiebeOS

open Attempts

/-- How the lookups along a path end: with an item behind the last part, at a
part that is not found, with parts looked up before it and parts left behind it,
at a file that has parts left, or at a directory whose record or entries are null.
An item may have been found through entries that could not be read. -/
inductive Walked where
  | found (item : FatItem) (through last : Bool)
  | missing (before left : Nat)
  | notDirectory
  | noDirectory

/-- Whether the lookup hands out a directory whose entries cannot be read.
`unread` tells it of the directory at a cluster. -/
def handsOutUnread (unread : Nat → Bool) (directory : FatDirectoryRecord) (name : List UInt8) :
    Bool :=
  ((List.range directory.total.toNat).reverse.find? fun i =>
    istrncmp (directory.item i).fullName name liebeOsMaxPathLen = 0).any fun i =>
      (directory.item i).attr &&& fatFileSubdirectory ≠ 0 ∧
        unread (directory.item i).firstCluster

/-- Whether the item is a directory without record or entries. -/
def FatItem.unloaded : FatItem → Bool
  | .file _ _ _ => false
  | .directory _ none => true
  | .directory _ (some record) => record.items = 0 ∨ record.total < 0

/-- The lookups from an item on, with `before` parts looked up already. A
directory is given back once the next part has been looked up in it. -/
def walkFrom (v : FatVolume) (unread : Nat → Bool) :
    List PathPart → Nat → FatItem → Bool → Bool → Heap → Attempt Walked
  | [], _, item, through, last, _ => .returned (.found item through (last || item.unloaded))
  | _ :: _, _, .file _ _ _, _, _, _ => .returned .notDirectory
  | _ :: _, _, .directory _ none, _, _, _ => .returned .noDirectory
  | nextPart :: rest, before, .directory fatItem (some directory), through, last, heap =>
      if directory.items = 0 ∧ 0 < directory.total then .returned .noDirectory
      else do
        let (found, heap) ← fat16FindItemInDirectory v heap (some directory) nextPart.part
        match found with
        | none => .returned (.missing before rest.length)
        | some item =>
            walkFrom v unread rest (before + 1) item (through || last)
              (handsOutUnread unread directory nextPart.part)
              (fat16FatItemFree heap (.directory fatItem (some directory)))

/-- The lookups along a path, from the root directory on. -/
def walk (v : FatVolume) (unread : Nat → Bool) (heap : Heap) (first : PathPart)
    (rest : List PathPart) : Attempt Walked := do
  let (found, heap) ← fat16FindItemInDirectory v heap (some v.rootDirectory) first.part
  match found with
  | none => .returned (.missing 0 rest.length)
  | some item =>
      walkFrom v unread rest 1 item false (handsOutUnread unread v.rootDirectory first.part) heap

/-- Whether a directory that could not be loaded counts: one that was looked up
in does, one that the path ends at if `lastToo` says so. -/
def Walked.failedLoad (lastToo through last : Bool) : Bool := through || (lastToo && last)

/-- What is to be returned for a path. -/
def Walked.result (lastToo : Bool) : Walked → Option FatItem
  | .found item through last => if failedLoad lastToo through last then none else some item
  | _ => none

/-- The outcomes that the walk deals with. A part that is not found is dealt
with at the root and at the end of the path. -/
def Walked.Handled (lastToo : Bool) : Walked → Prop
  | .found _ through last => failedLoad lastToo through last = false
  | .missing before left => before = 0 ∨ left = 0
  | .notDirectory => True
  | .noDirectory => False

/-- What the loop leaves behind an outcome, if it comes back at all. -/
def Walked.Leaves : Walked → Option FatItem → Prop
  | .found item _ _, item' => item' = some item
  | .missing _ left, item' => left = 0 ∧ item' = none
  | .notDirectory, item' => item' = none
  | .noDirectory, _ => False

section Walk

variable {v : FatVolume} {unread : Nat → Bool} {heap : Heap} {r : Walked}

/-- After a part that was not found the loop comes back only if it was the last. -/
theorem directoryEntryLoop_none {rest : List PathPart} {item : Option FatItem} :
    (∃ heap', directoryEntryLoop v rest none heap = .returned (item, heap')) ↔
      rest.length = 0 ∧ item = none := by
  cases rest with
  | nil =>
      constructor
      · rintro ⟨heap', h⟩
        cases h
        exact ⟨rfl, rfl⟩
      · rintro ⟨_, rfl⟩
        exact ⟨heap, rfl⟩
  | cons nextPart rest =>
      constructor
      · rintro ⟨heap', h⟩
        exact absurd h (by simp [directoryEntryLoop])
      · intro h
        exact absurd h.1 (Nat.succ_ne_zero _)

/-- The loop makes the lookups of the walk, whatever they end with. -/
theorem directoryEntryLoop_leaves {rest : List PathPart} {before : Nat} {item : FatItem}
    {through last : Bool} (hWalk : walkFrom v unread rest before item through last heap = .returned r)
    (item' : Option FatItem) :
    (∃ heap', directoryEntryLoop v rest (some item) heap = .returned (item', heap')) ↔
      r.Leaves item' := by
  induction rest generalizing before item through last heap with
  | nil =>
      cases hWalk
      constructor
      · rintro ⟨heap', h⟩
        cases h
        rfl
      · rintro rfl
        exact ⟨heap, rfl⟩
  | cons nextPart rest ih =>
      cases item with
      | file fatItem item entry =>
          cases hWalk
          constructor
          · rintro ⟨heap', h⟩
            cases h
            rfl
          · rintro rfl
            exact ⟨heap, rfl⟩
      | directory fatItem directory =>
          cases directory with
          | none =>
              cases hWalk
              exact ⟨fun ⟨_, h⟩ => (nomatch h), False.elim⟩
          | some directory =>
              rw [walkFrom] at hWalk
              rw [directoryEntryLoop]
              by_cases hNull : directory.items = 0 ∧ 0 < directory.total
              · rw [if_pos hNull] at hWalk
                cases hWalk
                rw [fat16FindItemInDirectory, if_pos hNull]
                exact ⟨fun ⟨_, h⟩ => (nomatch h), False.elim⟩
              · rw [if_neg hNull] at hWalk
                obtain ⟨⟨found, mid⟩, hFind, hRest⟩ := Attempt.bind_returned_iff.mp hWalk
                rw [hFind]
                change (∃ heap', directoryEntryLoop v rest found
                  (fat16FatItemFree mid (.directory fatItem (some directory))) =
                    .returned (item', heap')) ↔ _
                cases found with
                | none =>
                    cases hRest
                    exact directoryEntryLoop_none
                | some found => exact ih hRest

theorem Walked.leaves_result_iff {lastToo : Bool} (hBehind : ∀ left, r ≠ .missing 0 left) :
    r.Leaves (r.result lastToo) ↔ r.Handled lastToo := by
  cases r with
  | found item through last =>
      rw [Leaves, Handled, result]
      cases failedLoad lastToo through last with
      | false => exact ⟨fun _ => rfl, fun _ => rfl⟩
      | true => exact ⟨fun h => (nomatch h), fun h => (nomatch h)⟩
  | missing before left =>
      have hLater : before ≠ 0 := fun h => hBehind left (by rw [h])
      exact ⟨fun h => Or.inr h.1, fun h => ⟨h.resolve_left hLater, rfl⟩⟩
  | notDirectory => exact ⟨fun _ => trivial, fun _ => rfl⟩
  | noDirectory => exact Iff.rfl

/-- Behind the root directory a part has been looked up. -/
theorem walkFrom_before {rest : List PathPart} {before : Nat} {item : FatItem}
    {through last : Bool} (hBefore : before ≠ 0)
    (hWalk : walkFrom v unread rest before item through last heap = .returned r) (left : Nat) :
    r ≠ .missing 0 left := by
  induction rest generalizing before item through last heap with
  | nil =>
      cases hWalk
      exact fun h => nomatch h
  | cons nextPart rest ih =>
      cases item with
      | file fatItem item entry =>
          cases hWalk
          exact fun h => nomatch h
      | directory fatItem directory =>
          cases directory with
          | none =>
              cases hWalk
              exact fun h => nomatch h
          | some directory =>
              rw [walkFrom] at hWalk
              by_cases hNull : directory.items = 0 ∧ 0 < directory.total
              · rw [if_pos hNull] at hWalk
                cases hWalk
                exact fun h => nomatch h
              · rw [if_neg hNull] at hWalk
                obtain ⟨⟨found, mid⟩, _, hRest⟩ := Attempt.bind_returned_iff.mp hWalk
                cases found with
                | none =>
                    cases hRest
                    exact fun h => hBefore (Walked.missing.inj h).1
                | some found => exact ih (Nat.succ_ne_zero before) hRest

/-- The walk returns what it is to return exactly if it deals with the outcome
of its lookups. -/
theorem directoryEntry_result_iff {lastToo : Bool} {first : PathPart} {rest : List PathPart}
    (hWalk : walk v unread heap first rest = .returned r) :
    (∃ heap', fat16GetDirectoryEntry v heap (first :: rest) =
      .returned (r.result lastToo, heap')) ↔ r.Handled lastToo := by
  obtain ⟨⟨found, mid⟩, hFind, hRest⟩ := Attempt.bind_returned_iff.mp hWalk
  rw [fat16GetDirectoryEntry, hFind]
  cases found with
  | none =>
      cases hRest
      exact ⟨fun _ => Or.inl rfl, fun _ => ⟨mid, rfl⟩⟩
  | some item =>
      exact (directoryEntryLoop_leaves hRest _).trans
        (Walked.leaves_result_iff (walkFrom_before Nat.one_ne_zero hRest))

/-- For a path of any length: the lookups along it come back, and the walk
returns the item they reach, or nothing where one of them fails, exactly if the
lookups come back with an outcome that the walk deals with. -/
theorem fat16GetDirectoryEntry_walk_iff (v : FatVolume) (unread : Nat → Bool) (lastToo : Bool)
    (heap : Heap) (first : PathPart) (rest : List PathPart) :
    (∃ r heap', walk v unread heap first rest = .returned r ∧
      fat16GetDirectoryEntry v heap (first :: rest) = .returned (r.result lastToo, heap')) ↔
      ∃ r, walk v unread heap first rest = .returned r ∧ r.Handled lastToo := by
  constructor
  · rintro ⟨r, heap', hWalk, hEntry⟩
    exact ⟨r, hWalk, (directoryEntry_result_iff hWalk).mp ⟨heap', hEntry⟩⟩
  · rintro ⟨r, hWalk, hHandled⟩
    obtain ⟨heap', hEntry⟩ := (directoryEntry_result_iff hWalk).mpr hHandled
    exact ⟨r, heap', hWalk, hEntry⟩

end Walk

/-- A volume with the directory `a` and, in it, the file `b`. -/
def oneSubdirectory : FatVolume where
  rootDirectory := ⟨0x2000000, 0x2001000, 1, fun _ => ⟨[0x61], fatFileSubdirectory, 5, 0⟩⟩
  subdirectory _ := some (1, fun _ => ⟨[0x62], 0x20, 6, 1⟩)

def fourBlockHeap : Heap := ⟨⟨fun _ => 0, 4, []⟩, 0x1000000⟩

/-- For `a/c/d` the lookups come back, `c` is not found, and the walk goes
through null. -/
theorem fat16GetDirectoryEntry_not_walk :
    walk oneSubdirectory (fun _ => false) fourBlockHeap ⟨0, 0, [0x61]⟩
      [⟨0, 0, [0x63]⟩, ⟨0, 0, [0x64]⟩] = .returned (.missing 1 1) ∧
    fat16GetDirectoryEntry oneSubdirectory fourBlockHeap
      [⟨0, 0, [0x61]⟩, ⟨0, 0, [0x63]⟩, ⟨0, 0, [0x64]⟩] = .undefined ∧
    ¬ ∀ v unread lastToo heap first rest r, walk v unread heap first rest = .returned r →
      ∃ heap', fat16GetDirectoryEntry v heap (first :: rest) =
        .returned (r.result lastToo, heap') := by
  have hWalk : walk oneSubdirectory (fun _ => false) fourBlockHeap ⟨0, 0, [0x61]⟩
      [⟨0, 0, [0x63]⟩, ⟨0, 0, [0x64]⟩] = .returned (.missing 1 1) := rfl
  have hEntry : fat16GetDirectoryEntry oneSubdirectory fourBlockHeap
      [⟨0, 0, [0x61]⟩, ⟨0, 0, [0x63]⟩, ⟨0, 0, [0x64]⟩] = .undefined := rfl
  refine ⟨hWalk, hEntry, fun h => ?_⟩
  obtain ⟨heap', hReturned⟩ := h _ _ true _ _ _ _ hWalk
  exact absurd (hEntry.symm.trans hReturned) (by simp)

end LiebeOS
