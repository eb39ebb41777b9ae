import LiebeOS.Memory.HeapSafety

/-! Runs of blocks, marked and freed directly in the table. The length of a run
is not stored: the bits that `heap_mark_blocks_taken` leaves must tell
`heap_mark_blocks_free` where the run ends. -/
namespace LiebeOS

open MachineInt Transition

structure BlockRun where
  start : Int
  count : Nat

/-- A heap with the runs that are still marked in its table. -/
structure MarkedHeap where
  heap : Heap
  runs : List BlockRun

def BlockRun.Covers (r : BlockRun) (j : Int) : Prop := r.start ≤ j ∧ j < r.start + r.count

instance (r : BlockRun) (j : Int) : Decidable (r.Covers j) := inferInstanceAs (Decidable (_ ∧ _))

def BlockRun.Apart (r r' : BlockRun) : Prop := RangesApart r.start r.count r'.start r'.count

inductive BlockEvent where
  | mark (r : BlockRun)
  | free (k : Nat)

/-- One call. `free k` frees the start address of the `k`-th marked run. -/
inductive BlockStep : MarkedHeap → BlockEvent → MarkedHeap → Prop where
  | mark (s : MarkedHeap) (r : BlockRun) (hSome : 1 ≤ r.count)
      (hInside : 0 ≤ r.start ∧ r.start + r.count ≤ s.heap.table.total)
      (hFree : FreeRun s.heap.table.entries r.start r.count) :
      BlockStep s (.mark r) ⟨heapMarkBlocksTaken s.heap r.start r.count, r :: s.runs⟩
  | free (s : MarkedHeap) (k : Nat) (r : BlockRun) (hMarked : s.runs[k]? = some r) :
      BlockStep s (.free k) ⟨heapFree s.heap (heapBlockToAddress s.heap r.start), s.runs.eraseIdx k⟩

def AllFree (heap : Heap) : Prop :=
  ∀ j : Int, 0 ≤ j → j < heap.table.total → heap.table.entries j = heapBlockTableEntryFree

/-- Freeing the run sets its own entries to free and no other. -/
def FreesExactly (heap : Heap) (r : BlockRun) : Prop :=
  ∀ j, (heapFree heap (heapBlockToAddress heap r.start)).table.entries j =
    if r.Covers j then heapBlockTableEntryFree else heap.table.entries j

/-! ### The invariant of a run -/

/-- Marked runs lie inside the table, apart from each other. All other entries
are those of the start. -/
structure RunsMarked (start : Heap) (s : MarkedHeap) : Prop where
  total : s.heap.table.total = start.table.total
  inside : ∀ r ∈ s.runs, 0 ≤ r.start ∧ r.start + r.count ≤ start.table.total
  marked : ∀ r ∈ s.runs, MarkedRun s.heap.table.entries r.start r.count
  apart : s.runs.Pairwise BlockRun.Apart
  rest : ∀ j, (∀ r ∈ s.runs, ¬ r.Covers j) → s.heap.table.entries j = start.table.entries j

section Runs

variable {start : Heap} {s : MarkedHeap} {r : BlockRun} {k : Nat}

theorem BlockRun.Apart.not_covers {r' : BlockRun} (h : r.Apart r') {j : Int} (hj : r'.Covers j) :
    ¬ r.Covers j := by
  unfold BlockRun.Apart RangesApart at h
  unfold BlockRun.Covers at hj ⊢
  omega

/-- Block numbers survive the trip through an address, as long as offsets into
the heap are signed numbers. -/
theorem heapAddressToBlock_start (heap : Heap) {b : Int} (hb : 0 ≤ b) (hLt : b * 4096 < 2147483648) :
    heapAddressToBlock heap (heapBlockToAddress heap b) = b := by
  have hOffset : toInt ((heapBlockToAddress heap b : Int) - heap.saddr) = b * 4096 := by
    unfold heapBlockToAddress toInt toWord liebeOsHeapBlockSize
    omega
  unfold heapAddressToBlock
  rw [hOffset, liebeOsHeapBlockSize]
  exact Int.mul_tdiv_cancel b (by decide)

/-- The loop that frees a run decodes what the loop that marked it has encoded. -/
theorem RunsMarked.freesExactly (h : RunsMarked start s)
    (hSize : start.table.total * 4096 ≤ 2147483648) (hr : r ∈ s.runs) : FreesExactly s.heap r := by
  obtain ⟨hLow, hHigh⟩ := h.inside r hr
  have hMarked := h.marked r hr
  have hSome := hMarked.1
  have hBlock : heapAddressToBlock s.heap (heapBlockToAddress s.heap r.start) = r.start :=
    heapAddressToBlock_start s.heap hLow (by omega)
  have hEnd : heapAddressToBlock s.heap (heapBlockToAddress s.heap r.start) + r.count ≤
      s.heap.table.total := by
    rw [hBlock, h.total]
    exact hHigh
  obtain ⟨hCleared, hKept, _⟩ := heapFree_marked hEnd (by rw [hBlock]; exact hMarked)
  rw [hBlock] at hCleared hKept
  intro j
  by_cases hIn : r.Covers j
  · rw [if_pos hIn]
    exact hCleared j hIn.1 hIn.2
  · rw [if_neg hIn]
    refine hKept j ?_
    unfold BlockRun.Covers at hIn
    omega

theorem RunsMarked.mark (h : RunsMarked start s) (hSome : 1 ≤ r.count)
    (hInside : 0 ≤ r.start ∧ r.start + r.count ≤ s.heap.table.total)
    (hFree : FreeRun s.heap.table.entries r.start r.count) :
    RunsMarked start ⟨heapMarkBlocksTaken s.heap r.start r.count, r :: s.runs⟩ := by
  have hApart : ∀ r' ∈ s.runs, r.Apart r' := fun r' hr' => hFree.apart hSome (h.marked r' hr')
  have hKept : ∀ j, ¬ r.Covers j →
      (heapMarkBlocksTaken s.heap r.start r.count).table.entries j = s.heap.table.entries j := by
    intro j hOut
    refine heapMarkBlocksTaken_entries_outside s.heap ?_
    unfold BlockRun.Covers at hOut
    omega
  refine ⟨?_, fun r' hr' => ?_, fun r' hr' => ?_, List.pairwise_cons.mpr ⟨hApart, h.apart⟩,
    fun j hOut => ?_⟩
  · rw [heapMarkBlocksTaken_total]
    exact h.total
  · rcases List.mem_cons.mp hr' with rfl | hOld
    · rw [← h.total]
      exact hInside
    · exact h.inside r' hOld
  · rcases List.mem_cons.mp hr' with rfl | hOld
    · exact heapMarkBlocksTaken_markedRun s.heap r'.start hSome
    · exact (h.marked r' hOld).of_eq fun j hLow hHigh =>
        hKept j ((hApart r' hOld).not_covers ⟨hLow, hHigh⟩)
  · have hOutside := List.forall_mem_cons.mp hOut
    rw [hKept j hOutside.1]
    exact h.rest j hOutside.2

theorem RunsMarked.free (h : RunsMarked start s) (hFree : AllFree start)
    (hSize : start.table.total * 4096 ≤ 2147483648) (hMarked : s.runs[k]? = some r) :
    RunsMarked start
      ⟨heapFree s.heap (heapBlockToAddress s.heap r.start), s.runs.eraseIdx k⟩ := by
  have hr := List.mem_of_getElem? hMarked
  have hExact := h.freesExactly hSize hr
  have hApart := pairwise_eraseIdx_apart RangesApart.symm h.apart hMarked
  have hOld : ∀ r' ∈ s.runs.eraseIdx k, r' ∈ s.runs := fun _ hr' => List.mem_of_mem_eraseIdx hr'
  refine ⟨?_, fun r' hr' => h.inside r' (hOld r' hr'), fun r' hr' => ?_,
    h.apart.sublist (List.eraseIdx_sublist _ _), fun j hOut => ?_⟩
  · refine Eq.trans ?_ h.total
    exact heapFreeLoop_total _ _ _
  · refine (h.marked r' (hOld r' hr')).of_eq fun j hLow hHigh => ?_
    rw [hExact j, if_neg (BlockRun.Apart.not_covers (hApart r' hr') ⟨hLow, hHigh⟩)]
  · rw [hExact j]
    by_cases hIn : r.Covers j
    · obtain ⟨hLow, hHigh⟩ := h.inside r hr
      obtain ⟨hFrom, hTo⟩ := hIn
      rw [if_pos ⟨hFrom, hTo⟩]
      exact (hFree j (by omega) (by omega)).symm
    · rw [if_neg hIn]
      refine h.rest j fun r' hr' => ?_
      obtain ⟨i, hi⟩ := List.getElem?_of_mem hr'
      by_cases hSame : i = k
      · rw [hSame, hMarked, Option.some.injEq] at hi
        rw [← hi]
        exact hIn
      · exact hOut r' (List.mem_eraseIdx_iff_getElem?.mpr ⟨i, hSame, hi⟩)

/-- What one call preserves. -/
theorem RunsMarked.step {t : MarkedHeap} {e : BlockEvent} (h : RunsMarked start s)
    (hFree : AllFree start) (hSize : start.table.total * 4096 ≤ 2147483648)
    (hStep : BlockStep s e t) : RunsMarked start t := by
  cases hStep with
  | mark r hSome hInside hRun => exact h.mark hSome hInside hRun
  | free k r hMarked => exact h.free hFree hSize hMarked

end Runs

/-- From a table of free entries on, in whatever order runs are marked and
freed: a run that has not been freed still has the entries it was marked with,
freeing it clears these and no other, and when all runs have been freed the
table is as it was. The heap spans no more bytes than a signed offset can tell
apart. -/
theorem blockRun_freesExactly {start : Heap} {events : List BlockEvent} {s : MarkedHeap}
    (hFree : AllFree start) (hSize : start.table.total * 4096 ≤ 2147483648)
    (run : Run BlockStep ⟨start, []⟩ events s) :
    (∀ r ∈ s.runs, MarkedRun s.heap.table.entries r.start r.count ∧ FreesExactly s.heap r) ∧
      (s.runs = [] → AllFree s.heap ∧ s.heap.table.entries = start.table.entries) := by
  have hStart : RunsMarked start ⟨start, []⟩ :=
    ⟨rfl, by simp, by simp, List.Pairwise.nil, fun _ _ => rfl⟩
  have hInv : RunsMarked start s :=
    run.invariant hStart fun _ _ _ h hStep => h.step hFree hSize hStep
  refine ⟨fun r hr => ⟨hInv.marked r hr, hInv.freesExactly hSize hr⟩, fun hNone => ?_⟩
  have hSame : s.heap.table.entries = start.table.entries :=
    funext fun j => hInv.rest j (by simp [hNone])
  refine ⟨fun j hLow hHigh => ?_, hSame⟩
  rw [hInv.total] at hHigh
  rw [hSame]
  exact hFree j hLow hHigh

/-- Two adjacent runs, the second one up to the last block. The first one is
freed while the second one stays marked. -/
theorem blockRun_freesExactly_adjacent :
    ∃ s, Run BlockStep ⟨⟨⟨fun _ => 0, 5, []⟩, 0x01000000⟩, []⟩
        [.mark ⟨0, 2⟩, .mark ⟨2, 3⟩, .free 1] s ∧ s.runs = [⟨2, 3⟩] ∧
      ∀ r ∈ s.runs, MarkedRun s.heap.table.entries r.start r.count ∧ FreesExactly s.heap r := by
  have hFree : ∀ (entries : Int → UInt8) (b : Int) (n : Nat),
      (∀ i < n, entryTaken (entries (b + i)) = false) → FreeRun entries b n := by
    intro entries b n hAll j hLow hHigh
    have hEntry := hAll (j - b).toNat (by omega)
    rwa [show b + ((j - b).toNat : Int) = j by omega] at hEntry
  have hFirst := Run.single (BlockStep.mark ⟨⟨⟨fun _ => 0, 5, []⟩, 0x01000000⟩, []⟩ ⟨0, 2⟩
    (by decide) (by decide) (hFree _ _ _ (by decide)))
  have hSecond := hFirst.snoc (BlockStep.mark _ ⟨2, 3⟩ (by decide) (by decide)
    (hFree _ _ _ (by decide)))
  have run := hSecond.snoc (BlockStep.free _ 1 ⟨0, 2⟩ rfl)
  exact ⟨_, run, rfl, (blockRun_freesExactly (fun _ _ _ => rfl) (by decide) run).1⟩

end LiebeOS
