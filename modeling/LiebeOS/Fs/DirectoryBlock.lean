import Mathlib.Data.List.Induction
import LiebeOS.Lib.Run
import LiebeOS.Fs.Fat16Open

/-! Looking a name up among the loaded bytes of a directory. The number of
entries that are looked at is the number of entries in use, while the entries
are numbered with the deleted ones among them. -/
namespace LiebeOS

open MachineInt Bytes Attempts Transition

/-- A directory with the block its entries were loaded into. There are no bytes
at a null pointer. -/
structure FatDirectoryBlock where
  items : Nat
  total : Int
  size : Nat
  byte : Nat → UInt8
  null : items = 0 → size = 0

/-- A byte of the block. Reading behind it is undefined. -/
def FatDirectoryBlock.read (d : FatDirectoryBlock) (i : Nat) : Option UInt8 :=
  if i < d.size then some (d.byte i) else none

/-- The characters from byte `i` on, with `room` of them left in the buffer.
Only a null or a space ends them, whatever field it stands in; for a space a
null is written behind them. -/
def fat16ToProperString (d : FatDirectoryBlock) : Nat → Nat → Option (List UInt8)
  | 0, i =>
      match d.read i with
      | none => none
      | some c => if c = 0x00 then some [] else none
  | room + 1, i =>
      match d.read i with
      | none => none
      | some c =>
          if c = 0x00 ∨ c = 0x20 then some []
          else (fat16ToProperString d room (i + 1)).map (c :: ·)

/-- The name of entry `i`, unless it leaves its block or the buffer. -/
def fat16GetFullRelativeFilename (d : FatDirectoryBlock) (i : Nat) : Option (List UInt8) :=
  match fat16ToProperString d liebeOsMaxPathLen (32 * i), d.read (32 * i + 8) with
  | some filename, some ext =>
      if ext ≠ 0x00 ∧ ext ≠ 0x20 then
        if filename.length < liebeOsMaxPathLen then
          (fat16ToProperString d (liebeOsMaxPathLen - filename.length - 1) (32 * i + 8)).map
            (filename ++ 0x2E :: ·)
        else none
      else some filename
  | _, _ => none

/-- Entry `i` with its name. -/
def directoryItemAt (d : FatDirectoryBlock) (i : Nat) : FatDirectoryItem where
  fullName := (fat16GetFullRelativeFilename d i).getD []
  attr := d.byte (32 * i + 11)
  firstCluster := le16 d.byte (32 * i + 20) ||| le16 d.byte (32 * i + 26)
  filesize := le16 d.byte (32 * i + 28) + 65536 * le16 d.byte (32 * i + 30)

/-- The loop of `fat16_find_item_in_directory` at entry `i`. With the item goes
the number of the entry it was made for. -/
def findBlockItemLoop (v : FatVolume) (d : FatDirectoryBlock) (name : List UInt8) :
    Nat → Nat → Option (Nat × FatItem) → Heap → Attempt (Option (Nat × FatItem) × Heap)
  | 0, _, tmpItem, heap => .returned (tmpItem, heap)
  | left + 1, i, tmpItem, heap =>
      match fat16GetFullRelativeFilename d i with
      | none => .undefined
      | some tmpFilename =>
          if istrncmp tmpFilename name liebeOsMaxPathLen = 0 then do
            let (item, heap) ← fat16NewFatItemForDirectoryItem v heap (directoryItemAt d i)
            findBlockItemLoop v d name left (i + 1) (item.map (i, ·)) heap
          else findBlockItemLoop v d name left (i + 1) tmpItem heap

def fat16FindItemInBlock (v : FatVolume) (heap : Heap) (d : FatDirectoryBlock)
    (name : List UInt8) : Attempt (Option (Nat × FatItem) × Heap) :=
  findBlockItemLoop v d name d.total.toNat 0 none heap

/-! ### One call -/

/-- None of the first `used` entries has a name that leaves its block or the
buffer. -/
def NamesShown (d : FatDirectoryBlock) (used : Nat) : Prop :=
  ∀ i < used, (fat16GetFullRelativeFilename d i).isSome

/-- Entry `i` has the name, as far as the comparison sees. -/
def shownAs (d : FatDirectoryBlock) (name : List UInt8) (i : Nat) : Bool :=
  (fat16GetFullRelativeFilename d i).any fun shown => istrncmp shown name liebeOsMaxPathLen = 0

/-- The entries for which an item is requested. -/
def shownItems (d : FatDirectoryBlock) (used : Nat) (name : List UInt8) : List Nat :=
  (List.range used).filter (shownAs d name)

def LastShown (d : FatDirectoryBlock) (used : Nat) (name : List UInt8) (i : Nat) : Prop :=
  i < used ∧ shownAs d name i ∧ ∀ j < used, i < j → ¬ shownAs d name j

/-- Requesting an item for entry `i`, whatever the answer. -/
def ItemRequest (v : FatVolume) (d : FatDirectoryBlock) (heap : Heap) (i : Nat) (heap' : Heap) :
    Prop :=
  ∃ item, fat16NewFatItemForDirectoryItem v heap (directoryItemAt d i) = .returned (item, heap')

/-- There is memory for the item, and the directory behind it can be loaded. -/
def ItemGranted (v : FatVolume) (heap : Heap) (entry : FatDirectoryItem) : Prop :=
  (heapMalloc heap 8).1 ≠ 0 ∧ (entry.attr &&& fatFileSubdirectory ≠ 0 →
    ∃ loaded, fat16LoadFatDirectory v (heapMalloc heap 8).2 entry = .returned loaded)

/-- The requests come back, and the last of them is granted. -/
def LastGranted (v : FatVolume) (heap : Heap) (d : FatDirectoryBlock) (items : List Nat) : Prop :=
  ∃ before i heap', items = before ++ [i] ∧ Run (ItemRequest v d) heap before heap' ∧
    ItemGranted v heap' (directoryItemAt d i)

/-- The requests come back, and the last of them is not granted. -/
def LastRefused (v : FatVolume) (heap : Heap) (d : FatDirectoryBlock) (items : List Nat) : Prop :=
  items = [] ∨ ∃ before i heap', items = before ++ [i] ∧
    Run (ItemRequest v d) heap before heap' ∧ (heapMalloc heap' 8).1 = 0

theorem itemGranted_iff {v : FatVolume} {heap : Heap} {entry : FatDirectoryItem} :
    ItemGranted v heap entry ↔ ∃ item heap',
      fat16NewFatItemForDirectoryItem v heap entry = .returned (some item, heap') := by
  unfold ItemGranted fat16NewFatItemForDirectoryItem
  dsimp only
  by_cases hFull : (heapMalloc heap 8).1 = 0
  · rw [if_pos hFull]
    exact ⟨fun h => absurd hFull h.1, fun ⟨_, _, h⟩ => (nomatch h)⟩
  · rw [if_neg hFull]
    by_cases hDirectory : entry.attr &&& fatFileSubdirectory ≠ 0
    · rw [if_pos hDirectory]
      constructor
      · rintro ⟨_, hLoads⟩
        obtain ⟨loaded, hLoad⟩ := hLoads hDirectory
        exact ⟨_, _, Attempt.bind_returned_iff.mpr ⟨loaded, hLoad, rfl⟩⟩
      · rintro ⟨_, _, h⟩
        obtain ⟨loaded, hLoad, _⟩ := Attempt.bind_returned_iff.mp h
        exact ⟨hFull, fun _ => ⟨loaded, hLoad⟩⟩
    · rw [if_neg hDirectory]
      exact ⟨fun _ => ⟨_, _, rfl⟩, fun _ => ⟨hFull, fun h => absurd h hDirectory⟩⟩

theorem newFatItem_refused_iff {v : FatVolume} {heap : Heap} {entry : FatDirectoryItem} :
    (heapMalloc heap 8).1 = 0 ↔ ∃ heap',
      fat16NewFatItemForDirectoryItem v heap entry = .returned (none, heap') := by
  unfold fat16NewFatItemForDirectoryItem
  dsimp only
  by_cases hFull : (heapMalloc heap 8).1 = 0
  · rw [if_pos hFull]
    exact ⟨fun _ => ⟨_, rfl⟩, fun _ => hFull⟩
  · rw [if_neg hFull]
    refine ⟨fun h => absurd h hFull, fun ⟨heap', h⟩ => ?_⟩
    split at h
    · obtain ⟨loaded, _, hItem⟩ := Attempt.bind_returned_iff.mp h
      exact nomatch hItem
    · exact nomatch h

/-- The requests of a lookup, one for each entry of the list. -/
def requestItems (v : FatVolume) (d : FatDirectoryBlock) :
    List Nat → Option (Nat × FatItem) → Heap → Attempt (Option (Nat × FatItem) × Heap)
  | [], tmpItem, heap => .returned (tmpItem, heap)
  | i :: rest, _, heap => do
      let (item, heap) ← fat16NewFatItemForDirectoryItem v heap (directoryItemAt d i)
      requestItems v d rest (item.map (i, ·)) heap

section Lookup

variable {v : FatVolume} {d : FatDirectoryBlock} {name : List UInt8} {heap heap' : Heap}

theorem requestItems_snoc (before : List Nat) (i : Nat) (tmpItem : Option (Nat × FatItem)) :
    requestItems v d (before ++ [i]) tmpItem heap = (do
      let (_, heap) ← requestItems v d before tmpItem heap
      let (item, heap) ← fat16NewFatItemForDirectoryItem v heap (directoryItemAt d i)
      .returned (item.map (i, ·), heap)) := by
  induction before generalizing tmpItem heap with
  | nil => rfl
  | cons j rest ih =>
      rw [List.cons_append, requestItems, requestItems]
      cases fat16NewFatItemForDirectoryItem v heap (directoryItemAt d j) with
      | returned made => exact ih _
      | endless => rfl
      | undefined => rfl

/-- The loop ends after the requests for the entries that are shown with the
name, provided that every entry has a name. -/
theorem findBlockItemLoop_returned_iff {left i : Nat} {tmpItem : Option (Nat × FatItem)}
    {result : Option (Nat × FatItem) × Heap} :
    findBlockItemLoop v d name left i tmpItem heap = .returned result ↔
      (∀ j < left, (fat16GetFullRelativeFilename d (i + j)).isSome) ∧
        requestItems v d ((List.range' i left).filter (shownAs d name)) tmpItem heap =
          .returned result := by
  induction left generalizing i tmpItem heap with
  | zero => exact ⟨fun h => ⟨fun j hj => absurd hj (Nat.not_lt_zero j), h⟩, fun h => h.2⟩
  | succ left ih =>
      have hSplit : (∀ j < left + 1, (fat16GetFullRelativeFilename d (i + j)).isSome) ↔
          (fat16GetFullRelativeFilename d i).isSome ∧
            ∀ j < left, (fat16GetFullRelativeFilename d (i + 1 + j)).isSome := by
        rw [Nat.forall_lt_succ_left]
        simp only [Nat.add_zero, Nat.add_assoc, Nat.add_comm 1]
      rw [hSplit, List.range'_succ, findBlockItemLoop]
      cases hShown : fat16GetFullRelativeFilename d i with
      | none => exact ⟨fun h => (nomatch h), fun h => (nomatch h.1.1)⟩
      | some shown =>
          dsimp only
          by_cases hSame : istrncmp shown name liebeOsMaxPathLen = 0
          · have hPicked : shownAs d name i := by
              rw [shownAs, hShown]
              exact decide_eq_true hSame
            rw [if_pos hSame, List.filter_cons_of_pos hPicked, requestItems]
            cases fat16NewFatItemForDirectoryItem v heap (directoryItemAt d i) with
            | returned made =>
                refine ih.trans ?_
                simp only [Option.isSome_some, true_and]
                rfl
            | endless => exact ⟨fun h => (nomatch h), fun h => (nomatch h.2)⟩
            | undefined => exact ⟨fun h => (nomatch h), fun h => (nomatch h.2)⟩
          · have hPassed : ¬ shownAs d name i := by
              rw [shownAs, hShown]
              exact fun h => hSame (of_decide_eq_true h)
            rw [if_neg hSame, List.filter_cons_of_neg hPassed, ih]
            simp only [Option.isSome_some, true_and]

/-- The requests come back in a heap that a run of them leads to. -/
theorem requestItems_run {items : List Nat} (tmpItem : Option (Nat × FatItem)) :
    (∃ tmpItem', requestItems v d items tmpItem heap = .returned (tmpItem', heap')) ↔
      Run (ItemRequest v d) heap items heap' := by
  induction items using List.reverseRecOn generalizing heap' with
  | nil =>
      constructor
      · rintro ⟨tmpItem', h⟩
        cases h
        exact Run.nil _
      · intro hRun
        generalize hNil : ([] : List Nat) = items at hRun
        cases hRun with
        | nil => exact ⟨tmpItem, rfl⟩
        | snoc => exact absurd hNil.symm (List.append_ne_nil_of_right_ne_nil _ (List.cons_ne_nil _ _))
  | append_singleton before i ih =>
      rw [requestItems_snoc]
      constructor
      · rintro ⟨tmpItem', h⟩
        obtain ⟨made, hBefore, hRest⟩ := Attempt.bind_returned_iff.mp h
        obtain ⟨item, hLast, hEnd⟩ := Attempt.bind_returned_iff.mp hRest
        cases hEnd
        exact (ih.mp ⟨made.1, hBefore⟩).snoc ⟨item.1, hLast⟩
      · intro hRun
        obtain ⟨mid, hBefore, item, hLast⟩ := hRun.unsnoc
        obtain ⟨tmpItem', hBefore⟩ := ih.mpr hBefore
        exact ⟨item.map (i, ·), Attempt.bind_returned_iff.mpr ⟨_, hBefore,
          Attempt.bind_returned_iff.mpr ⟨_, hLast, rfl⟩⟩⟩

/-- The last entry that the lookup requests an item for. -/
theorem shownItems_last_iff {used i : Nat} :
    (∃ before, shownItems d used name = before ++ [i]) ↔ LastShown d used name i := by
  unfold shownItems LastShown
  induction used with
  | zero => simp
  | succ used ih =>
      rw [List.range_succ, List.filter_append, Nat.forall_lt_succ_right]
      by_cases hShown : shownAs d name used
      · rw [List.filter_cons_of_pos hShown, List.filter_nil]
        constructor
        · rintro ⟨before, h⟩
          obtain ⟨_, hLast⟩ := List.append_inj' h rfl
          obtain rfl := List.head_eq_of_cons_eq hLast
          exact ⟨Nat.lt_succ_self used, hShown, fun j hj hBehind => absurd hj (by omega),
            fun h => absurd h (Nat.lt_irrefl used)⟩
        · rintro ⟨hi, _, _, hLast⟩
          obtain rfl : i = used := by
            by_contra hOther
            exact hLast (by omega) hShown
          exact ⟨_, rfl⟩
      · rw [List.filter_cons_of_neg hShown, List.filter_nil, List.append_nil, ih]
        constructor
        · rintro ⟨hi, hLast, hBehind⟩
          exact ⟨by omega, hLast, hBehind, fun _ => hShown⟩
        · rintro ⟨hi, hLast, hBehind, _⟩
          have hOther : i ≠ used := fun h => hShown (h ▸ hLast)
          exact ⟨by omega, hLast, hBehind⟩

theorem fat16FindItemInBlock_returned_iff {result : Option (Nat × FatItem) × Heap} :
    fat16FindItemInBlock v heap d name = .returned result ↔
      NamesShown d d.total.toNat ∧
        requestItems v d (shownItems d d.total.toNat name) none heap = .returned result := by
  rw [fat16FindItemInBlock, findBlockItemLoop_returned_iff, NamesShown, shownItems,
    List.range_eq_range']
  simp only [Nat.zero_add]

/-- A lookup that hands out an item hands out that of the last entry it was
requested for. -/
theorem fat16FindItemInBlock_some_iff {i : Nat} :
    (∃ item heap', fat16FindItemInBlock v heap d name = .returned (some (i, item), heap')) ↔
      NamesShown d d.total.toNat ∧ LastShown d d.total.toNat name i ∧
        LastGranted v heap d (shownItems d d.total.toNat name) := by
  rw [← shownItems_last_iff]
  constructor
  · rintro ⟨item, heap', h⟩
    obtain ⟨hNames, hRequests⟩ := fat16FindItemInBlock_returned_iff.mp h
    rcases List.eq_nil_or_concat (shownItems d d.total.toNat name) with hNone | ⟨before, k, hLast⟩
    · rw [hNone] at hRequests
      exact nomatch hRequests
    · rw [List.concat_eq_append] at hLast
      rw [hLast, requestItems_snoc] at hRequests
      obtain ⟨⟨_, mid⟩, hBefore, hRest⟩ := Attempt.bind_returned_iff.mp hRequests
      obtain ⟨⟨made, _⟩, hItem, hEnd⟩ := Attempt.bind_returned_iff.mp hRest
      cases made with
      | none => exact nomatch hEnd
      | some made =>
          cases hEnd
          exact ⟨hNames, ⟨before, hLast⟩, before, i, mid, hLast, (requestItems_run none).mp ⟨_, hBefore⟩,
            itemGranted_iff.mpr ⟨_, _, hItem⟩⟩
  · rintro ⟨hNames, ⟨before, hLast⟩, before', i', mid, hLast', hRun, hGranted⟩
    obtain ⟨rfl, hSame⟩ := List.append_inj' (hLast.symm.trans hLast') rfl
    obtain rfl := List.head_eq_of_cons_eq hSame
    obtain ⟨tmpItem, hBefore⟩ := (requestItems_run none).mpr hRun
    obtain ⟨item, heap', hItem⟩ := itemGranted_iff.mp hGranted
    refine ⟨item, heap', fat16FindItemInBlock_returned_iff.mpr ⟨hNames, ?_⟩⟩
    rw [hLast, requestItems_snoc]
    exact Attempt.bind_returned_iff.mpr ⟨_, hBefore, Attempt.bind_returned_iff.mpr ⟨_, hItem, rfl⟩⟩

/-- A lookup that comes back with nothing has requested nothing, or was refused
its last request. -/
theorem fat16FindItemInBlock_none_iff :
    (∃ heap', fat16FindItemInBlock v heap d name = .returned (none, heap')) ↔
      NamesShown d d.total.toNat ∧ LastRefused v heap d (shownItems d d.total.toNat name) := by
  constructor
  · rintro ⟨heap', h⟩
    obtain ⟨hNames, hRequests⟩ := fat16FindItemInBlock_returned_iff.mp h
    refine ⟨hNames, ?_⟩
    rcases List.eq_nil_or_concat (shownItems d d.total.toNat name) with hNone | ⟨before, k, hLast⟩
    · exact Or.inl hNone
    · rw [List.concat_eq_append] at hLast
      rw [hLast, requestItems_snoc] at hRequests
      obtain ⟨⟨_, mid⟩, hBefore, hRest⟩ := Attempt.bind_returned_iff.mp hRequests
      obtain ⟨⟨made, _⟩, hItem, hEnd⟩ := Attempt.bind_returned_iff.mp hRest
      cases made with
      | none =>
          exact Or.inr ⟨before, k, mid, hLast, (requestItems_run none).mp ⟨_, hBefore⟩,
            newFatItem_refused_iff.mpr ⟨_, hItem⟩⟩
      | some made => exact nomatch hEnd
  · rintro ⟨hNames, hNone | ⟨before, i, mid, hLast, hRun, hRefused⟩⟩
    · refine ⟨heap, fat16FindItemInBlock_returned_iff.mpr ⟨hNames, ?_⟩⟩
      rw [hNone]
      rfl
    · obtain ⟨tmpItem, hBefore⟩ := (requestItems_run none).mpr hRun
      obtain ⟨heap', hItem⟩ := newFatItem_refused_iff.mp hRefused
      refine ⟨heap', fat16FindItemInBlock_returned_iff.mpr ⟨hNames, ?_⟩⟩
      rw [hLast, requestItems_snoc]
      exact Attempt.bind_returned_iff.mpr
        ⟨_, hBefore, Attempt.bind_returned_iff.mpr ⟨_, hItem, rfl⟩⟩

/-! ### The lookup in a directory whose names are given -/

/-- The record of a directory, with its entries as they are shown. -/
def FatDirectoryBlock.record (d : FatDirectoryBlock) (directory : Nat) : FatDirectoryRecord where
  directory := directory
  items := d.items
  total := d.total
  item := directoryItemAt d

/-- The item without the number of its entry. -/
def foundItem (found : Option (Nat × FatItem) × Heap) : Option FatItem × Heap :=
  (found.1.map Prod.snd, found.2)

theorem findItemLoop_block (directory : Nat) {left i : Nat} {tmpItem : Option (Nat × FatItem)}
    (hNames : ∀ j < left, (fat16GetFullRelativeFilename d (i + j)).isSome) :
    findItemLoop v (d.record directory) name left i (tmpItem.map Prod.snd) heap =
      findBlockItemLoop v d name left i tmpItem heap >>= fun found =>
        .returned (foundItem found) := by
  induction left generalizing i tmpItem heap with
  | zero => rfl
  | succ left ih =>
      obtain ⟨shown, hShown⟩ := Option.isSome_iff_exists.mp (hNames 0 (Nat.succ_pos left))
      rw [Nat.add_zero] at hShown
      have hRest : ∀ j < left, (fat16GetFullRelativeFilename d (i + 1 + j)).isSome := fun j hj => by
        rw [Nat.add_assoc, Nat.add_comm 1]
        exact hNames (j + 1) (Nat.succ_lt_succ hj)
      have hName : ((d.record directory).item i).fullName = shown := by
        show (fat16GetFullRelativeFilename d i).getD [] = shown
        rw [hShown]
        rfl
      rw [findItemLoop, findBlockItemLoop, hShown, hName]
      dsimp only
      by_cases hSame : istrncmp shown name liebeOsMaxPathLen = 0
      · rw [if_pos hSame, if_pos hSame, Attempt.bind_bind]
        change fat16NewFatItemForDirectoryItem v heap (directoryItemAt d i) >>= _ = _
        cases fat16NewFatItemForDirectoryItem v heap (directoryItemAt d i) with
        | returned made =>
            have hErased : (made.1.map (i, ·)).map Prod.snd = made.1 := by
              rw [Option.map_map]
              exact Option.map_id_apply
            have hTail := @ih made.2 (i + 1) (made.1.map (i, ·)) hRest
            rw [hErased] at hTail
            exact hTail
        | endless => rfl
        | undefined => rfl
      · rw [if_neg hSame, if_neg hSame]
        exact ih hRest

/-- Where every entry has a name, the lookup is the one that is made while a
path is walked. -/
theorem fat16FindItemInDirectory_block (directory : Nat)
    (hNames : NamesShown d d.total.toNat) :
    fat16FindItemInDirectory v heap (some (d.record directory)) name =
      fat16FindItemInBlock v heap d name >>= fun found => .returned (foundItem found) := by
  have hThere : ¬ ((d.record directory).items = 0 ∧ 0 < (d.record directory).total) := by
    rintro ⟨hNull, hSome⟩
    change 0 < d.total at hSome
    obtain ⟨shown, hShown⟩ := Option.isSome_iff_exists.mp (hNames 0 (by omega))
    have hNone : d.read (32 * 0 + 8) = none := by
      rw [FatDirectoryBlock.read, d.null hNull]
      rfl
    rw [fat16GetFullRelativeFilename, hNone] at hShown
    cases hFilename : fat16ToProperString d liebeOsMaxPathLen (32 * 0) with
    | none =>
        rw [hFilename] at hShown
        exact nomatch hShown
    | some filename =>
        rw [hFilename] at hShown
        exact nomatch hShown
  rw [fat16FindItemInDirectory]
  rw [if_neg hThere]
  exact @findItemLoop_block v d name heap directory _ 0 none fun j hj => by
    rw [Nat.zero_add]
    exact hNames j hj

end Lookup

end LiebeOS
