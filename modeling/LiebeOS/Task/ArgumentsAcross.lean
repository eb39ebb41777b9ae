import LiebeOS.Fs.HeapLaw
import LiebeOS.Task.ArgumentsPassed
import LiebeOS.Task.ProgramParts
import LiebeOS.Task.StartProgram

/-! A command with its arguments, from the program that calls to the program that is
called. The caller sees its list through its own directory. The kernel is handed the
physical address of the first node, and follows the pointers from there as they are. -/
namespace LiebeOS

open Attempts MachineInt Bytes

/-- The list at `root` as the task sees it, by the addresses that the task uses. -/
inductive TaskArguments (mem : Memory) (directory : Nat) : Nat → List Nat → Prop where
  | nil : TaskArguments mem directory 0 []
  | cons {current next : Nat} {nodes : List Nat} (hNode : current ≠ 0)
      (hNext : loadWordThrough (pageTranslation directory) mem (behind current sizeOfArgument) =
        some next)
      (hRest : TaskArguments mem directory next nodes) :
      TaskArguments mem directory current (current :: nodes)

/-- The kernel comes to the node when it follows the list at `root`. -/
inductive Followed (mem : Memory) : Nat → Nat → Prop where
  | root {root : Nat} (hNode : root ≠ 0) : Followed mem root root
  | next {root node : Nat} (hNode : root ≠ 0)
      (hRest : Followed mem (commandArgumentNext mem root) node) : Followed mem root node

/-- Both hold the same string, of at most 511 characters. -/
def SameText (read read' : Nat → Option UInt8) : Prop :=
  ∃ n out, StringCopied read sizeOfArgument out n ∧ StringCopied read' sizeOfArgument out n

/-- Node for node the kernel finds the texts that the task sees in `nodes`. -/
structure SameArguments (mem : Memory) (directory : Nat) (nodes found : List Nat) : Prop where
  number : found.length = nodes.length
  text : ∀ i node other : Nat, nodes[i]? = some node → found[i]? = some other →
    SameText (taskByte mem directory node) fun j => some (mem (behind other j))

/-- The process has been given the arguments that the task with this directory saw in
`source`. It finds them through its own directory. -/
structure ArgumentsGiven (source : Memory) (directory : Nat) (nodes : List Nat) (mem : Memory)
    (p : ArgumentsProcess) : Prop where
  number : p.argc = nodes.length
  argument : ∀ i node : Nat, nodes[i]? = some node → ∃ q n out, q ≠ 0 ∧ q < 4294967296 ∧
    (∀ j < 4, taskByte mem p.process.directory p.argv (4 * i + j) = some (wordByte q j)) ∧
    StringCopied (taskByte source directory node) sizeOfArgument out n ∧
    ∀ j ≤ n, taskByte mem p.process.directory q j = some (out j)

/-- The call comes back, and when it succeeds the new program has the arguments that are in
the list at `ptr`. -/
def ArgumentsHandedOver (mem : Memory) (directory ptr : Nat) (call : Attempt Invoked) : Prop :=
  ∃ x, call = .returned x ∧ (0 ≤ x.res → ∀ nodes, TaskArguments mem directory ptr nodes →
    nodes ≠ [] → ArgumentsGiven mem directory nodes x.memory.mem x.process)

/-- The kernel's walk from `root` ends. If there is room for what it finds, it finds the list
at `ptr`. -/
def WalkFinds (mem : Memory) (directory ptr root : Nat) (room : Nat → Prop) : Prop :=
  ∃ found, ArgumentList mem root found ∧ (found ≠ [] → room found.length →
    ∀ nodes, TaskArguments mem directory ptr nodes → nodes ≠ [] →
      SameArguments mem directory nodes found)

/-- Memory that is neither in the heap nor the kernel's: not its table of the heap and its
image below 2 MB, nor the stack that is used in interrupts. -/
def SpareMemory (x : Nat) : Prop :=
  0x200000 ≤ x ∧ x < 0x500000 ∨ 0x600000 ≤ x ∧ x < 0x01000000 ∨ 0x07400000 ≤ x

/-- No part of the system call stores to this address: it is in an allocation, or in spare
memory. -/
def Steady (heap : Heap) (x : Nat) : Prop := (∃ ptr, InAllocation heap ptr x) ∨ SpareMemory x

/-! ### Lists -/

section Lists

variable {mem mem' : Memory} {root node n count fuel : Nat} {nodes : List Nat}

/-- A walk that ends has followed a list. -/
theorem processCountLoop_returned (h : processCountLoop mem fuel root count = .returned n) :
    ∃ nodes, ArgumentList mem root nodes := by
  induction fuel generalizing root count with
  | zero => cases h
  | succ fuel ih =>
      by_cases hNull : root = 0
      · subst hNull
        exact ⟨[], .nil⟩
      · rw [processCountLoop_node mem fuel count hNull] at h
        obtain ⟨nodes, hRest⟩ := ih h
        exact ⟨root :: nodes, .cons hNull hRest⟩

theorem ArgumentList.followed (h : ArgumentList mem root nodes) (hNode : node ∈ nodes) :
    Followed mem root node := by
  induction h with
  | nil => exact absurd hNode List.not_mem_nil
  | cons hFirst _ ih =>
      rcases List.mem_cons.mp hNode with rfl | hLater
      · exact .root hFirst
      · exact .next hFirst (ih hLater)

/-- The list is the same in memory with the same pointers. -/
theorem ArgumentList.congr_iff
    (hSame : ∀ node, Followed mem root node →
      commandArgumentNext mem' node = commandArgumentNext mem node) :
    ArgumentList mem' root nodes ↔ ArgumentList mem root nodes := by
  constructor
  · intro h
    induction h with
    | nil => exact .nil
    | cons hNode _ ih =>
        have hNext := hSame _ (.root hNode)
        rw [hNext] at ih
        exact .cons hNode (ih fun node hFollowed => hSame node (.next hNode hFollowed))
  · intro h
    induction h with
    | nil => exact .nil
    | cons hNode _ ih =>
        refine .cons hNode ?_
        rw [hSame _ (.root hNode)]
        exact ih fun node hFollowed => hSame node (.next hNode hFollowed)

theorem Followed.stays (h : Followed mem root node) (hRoot : root ∈ nodes)
    (hNext : ∀ node ∈ nodes,
      commandArgumentNext mem node = 0 ∨ commandArgumentNext mem node ∈ nodes) :
    node ∈ nodes := by
  induction h with
  | root _ => exact hRoot
  | next _ hRest ih =>
      rcases hNext _ hRoot with hEnd | hIn
      · rw [hEnd] at hRest
        cases hRest with
        | root hNull => exact absurd rfl hNull
        | next hNull _ => exact absurd rfl hNull
      · exact ih hIn

theorem TaskArguments.unique {directory : Nat} {nodes' : List Nat}
    (h : TaskArguments mem directory root nodes) (h' : TaskArguments mem directory root nodes') :
    nodes = nodes' := by
  induction h generalizing nodes' with
  | nil =>
      cases h' with
      | nil => rfl
      | cons hNode _ _ => exact absurd rfl hNode
  | cons hNode hNext _ ih =>
      cases h' with
      | nil => exact absurd rfl hNode
      | cons _ hNext' hRest' =>
          obtain rfl := Option.some.inj (hNext.symm.trans hNext')
          rw [ih hRest']

end Lists

/-! ### Texts -/

section Texts

variable {read read' : Nat → Option UInt8} {count n n' : Nat} {out out' : Nat → UInt8}

theorem StringCopied.length_le (h : StringCopied read count out n)
    (h' : StringCopied read count out' n') : n' ≤ n := by
  by_contra hLonger
  rcases h.whole with hFull | hEnd
  · have hInside := h'.inside
    omega
  · obtain ⟨hByte, hSome⟩ := h'.bytes n (by omega)
    exact hSome (Option.some.inj (hByte.symm.trans hEnd))

/-- There is one copy of a string. -/
theorem StringCopied.unique (h : StringCopied read count out n)
    (h' : StringCopied read count out' n') : n = n' ∧ ∀ i ≤ n, out i = out' i := by
  obtain rfl : n = n' := Nat.le_antisymm (h'.length_le h) (h.length_le h')
  refine ⟨rfl, fun i hi => ?_⟩
  rcases Nat.lt_or_eq_of_le hi with hLess | rfl
  · exact Option.some.inj ((h.bytes i hLess).1.symm.trans (h'.bytes i hLess).1)
  · exact h.ends.trans h'.ends.symm

/-- Two strings at the same place are of the same length. -/
theorem StringCopied.same_place (h : StringCopied read count out n)
    (h' : StringCopied read' count out' n') (hSame : ∀ i, i ≤ n → i ≤ n' → out i = out' i) :
    n = n' := by
  rcases Nat.lt_trichotomy n n' with hLess | hEqual | hMore
  · refine absurd ?_ (h'.bytes n hLess).2
    rw [← hSame n (Nat.le_refl n) (Nat.le_of_lt hLess)]
    exact h.ends
  · exact hEqual
  · refine absurd ?_ (h.bytes n' hMore).2
    rw [hSame n' (Nat.le_of_lt hMore) (Nat.le_refl n')]
    exact h'.ends

theorem StringCopied.of_out (h : StringCopied read count out n) (hSame : ∀ i ≤ n, out i = out' i) :
    StringCopied read count out' n where
  inside := h.inside
  bytes i hi := by
    rw [← hSame i (Nat.le_of_lt hi)]
    exact h.bytes i hi
  ends := (hSame n (Nat.le_refl n)).symm.trans h.ends
  whole := h.whole

end Texts

/-! ### What a load leaves alone -/

section Load

variable {d : DiskFiles} {m m' : Storage} {filename : List UInt8} {program : Program}
  {size ptr x : Nat} {table : Nat → Nat}

/-- Memory that is granted is in the heap. -/
theorem Storage.kzalloc_outside (hHeap : KernelHeap m.files.heap)
    (hCall : m.kzalloc size = .returned (ptr, m')) (hx : x < 4294967296) (hOut : OutsideHeap x) :
    m'.mem x = m.mem x ∧ (ptr ≠ 0 → (x < ptr ∨ ptr + size ≤ x) ∧ ptr + size ≤ 4294967296) := by
  obtain ⟨⟨p, k⟩, hRequest, hPair⟩ := Attempt.bind_returned_iff.mp hCall
  obtain ⟨rfl, rfl⟩ := Prod.mk.inj (Attempt.returned.inj hPair)
  obtain ⟨hInside, hSame⟩ := Attempt.guard_returned_iff.mp hRequest
  have hResult : LiebeOS.kzalloc m.memory size = (p, k) := Attempt.returned.inj hSame
  rcases kzalloc_newBlocks (k := m.memory) hHeap hInside with hNone | hNew
  · rw [hResult] at hNone
    obtain ⟨rfl, rfl⟩ := Prod.mk.inj hNone
    exact ⟨rfl, fun hSome => absurd rfl hSome⟩
  · rw [hResult] at hNew
    have hCovers := blocksOf_covers size
    obtain ⟨hLow, hHigh⟩ := hNew.inside
    dsimp only at hLow hHigh
    have hApart : x < p ∨ p + size ≤ x := by
      unfold OutsideHeap at hOut
      omega
    exact ⟨hNew.words x hx hApart, fun _ => ⟨hApart, by omega⟩⟩

theorem Storage.fopen_mem : (m.fopen d filename).Ensures fun res => res.2.mem = m.mem :=
  Attempt.ensures_bind (P := fun _ => True) (fun _ _ => trivial)
    fun _ _ => Attempt.ensures_returned rfl

theorem elfReadFile_outside (hHeap : KernelHeap m.files.heap) (fd : Int)
    (entry : FatDirectoryItem) (elfFile : Nat) (hx : x < 4294967296) (hOut : OutsideHeap x) :
    (elfReadFile d m fd entry elfFile).Ensures fun res => res.2.mem x = m.mem x := by
  intro res hCall
  obtain ⟨⟨elfMemory, m'⟩, hRequest, hRest⟩ := Attempt.bind_returned_iff.mp hCall
  obtain ⟨hSame, hBuffer⟩ := Storage.kzalloc_outside hHeap hRequest hx hOut
  obtain ⟨hFull, hRest⟩ := Attempt.guard_returned_iff.mp hRest
  obtain ⟨a, hRead, hDone⟩ := Attempt.bind_returned_iff.mp hRest
  have hSize := readAnswers_size a hRead
  obtain rfl := Attempt.returned.inj hDone
  refine Eq.trans ?_ hSame
  by_cases hNull : elfMemory = 0
  · exact elfLoad_outside hx (by omega) (by omega)
  · obtain ⟨hApart, hEnd⟩ := hBuffer hNull
    rw [← hSize] at hApart hEnd
    exact elfLoad_outside hx hApart hEnd

theorem elfLoadFile_outside (hHeap : HeapInOrder m.files.heap) (hx : x < 4294967296)
    (hOut : OutsideHeap x) :
    (elfLoadFile d m filename).Ensures fun res => res.2.mem x = m.mem x := by
  intro res hCall
  obtain ⟨⟨elfFile, m₁⟩, hRecord, hRest⟩ := Attempt.bind_returned_iff.mp hCall
  obtain ⟨⟨fd, m₂⟩, hOpen, hRest⟩ := Attempt.bind_returned_iff.mp hRest
  have hFirst := (Storage.kzalloc_outside hHeap.kernel hRecord hx hOut).1
  have hOrder := Storage.kzalloc_inOrder hHeap _ _ hRecord
  have hOpened := (Storage.fopen_inOrder hOrder _ hOpen).1
  have hMem : m₂.mem x = m₁.mem x := congrFun (Storage.fopen_mem _ hOpen) x
  have hSame := hMem.trans hFirst
  dsimp only at hRest
  by_cases hFd : fd ≤ 0
  · rw [if_pos hFd] at hRest
    obtain rfl := Attempt.returned.inj hRest
    exact hSame
  rw [if_neg hFd] at hRest
  obtain ⟨stat, _, hRest⟩ := Attempt.bind_returned_iff.mp hRest
  cases stat with
  | error code =>
      obtain rfl := Attempt.returned.inj hRest
      exact hSame
  | ok entry =>
      obtain ⟨_, hRead⟩ := Attempt.guard_returned_iff.mp hRest
      exact (elfReadFile_outside hOpened.kernel fd entry elfFile hx hOut res hRead).trans hSame

/-- Reading the program changes nothing outside of the heap. -/
theorem ProgramRead.outside (h : ProgramRead d m filename program m')
    (hHeap : HeapInOrder m.files.heap) (hx : x < 4294967296) (hOut : OutsideHeap x) :
    m'.mem x = m.mem x := by
  cases h with
  | elf hRecord hSome hOpen hFd hStat hBuffer hFull hRead hLoad hAccepted =>
      refine elfLoadFile_outside hHeap hx hOut _ (elfLoadFile_ok_iff.mpr
        ⟨_, _, _, _, _, hRecord, hOpen, hFd, hStat, hSome, elfReadFile_ok_iff.mpr
          ⟨_, _, _, hBuffer, hFull, hRead, ?_, rfl, ?_⟩⟩)
      · rw [hLoad]
        exact hAccepted
      · rw [hLoad]
        rfl
  | flat hElf hOpen hFd hStat hBuffer hSome hRead hAll =>
      have hRefused := elfLoadFile_outside hHeap hx hOut _ hElf
      have hOrder := elfLoadFile_inOrder hHeap _ hElf
      have hOpened := (Storage.fopen_inOrder hOrder _ hOpen).1
      obtain ⟨hSame, hBeside⟩ := Storage.kzalloc_outside hOpened.kernel hBuffer hx hOut
      obtain ⟨hApart, hEnd⟩ := hBeside hSome
      rw [← readAnswers_size _ hRead] at hApart hEnd
      refine (fread_outside hx hApart hEnd).trans (hSame.trans ?_)
      exact (congrFun (Storage.fopen_mem _ hOpen) x).trans hRefused

variable {p : ProgramStart d m filename}

theorem ProgramStart.Mapped.outside (h : p.Mapped table) (hHeap : HeapInOrder m.files.heap)
    (hx : x < 4294967296) (hOut : OutsideHeap x) : p.finish.mem x = m.mem x := by
  have hProcess := Storage.kzalloc_inOrder hHeap _ _ p.processGranted.1
  obtain ⟨hProgram, hTask⟩ := p.inOrder hHeap
  have hStack := Storage.kzalloc_inOrder hProgram _ _ p.stackGranted.1
  have hBuilt := h.record.built.grows
  calc p.finish.mem x
      = (taskDirectory p.afterTask).2.mem x := h.only x hx fun ⟨d, hd, hTable⟩ =>
        hOut.notHeld hBuilt.heap (hTable ▸ (h.record.built.tables d hd).1)
    _ = p.afterTask.mem x := hBuilt.outside x hx fun hHeld =>
      absurd hHeld (hOut.notHeld hBuilt.heap)
    _ = p.afterStack.mem x := (Storage.kzalloc_outside hStack.kernel p.taskGranted.1 hx hOut).1
    _ = p.afterProgram.mem x := (Storage.kzalloc_outside hProgram.kernel p.stackGranted.1 hx hOut).1
    _ = p.afterProcess.mem x := p.programRead.outside hProcess hx hOut
    _ = m.mem x := (Storage.kzalloc_outside hHeap.kernel p.processGranted.1 hx hOut).1

/-! The free entries of the heap stay clear. -/

theorem HeapLaw.kzalloc {P : Heap → Prop} (law : HeapLaw P) (h : P m.files.heap) (size : Nat) :
    (m.kzalloc size).Ensures fun res => P res.2.files.heap :=
  Storage.kzalloc_survives (law.malloc _ size h)

theorem HeapLaw.fopen {P : Heap → Prop} (law : HeapLaw P) (h : P m.files.heap) :
    (m.fopen d filename).Ensures fun res => P res.2.files.heap :=
  Attempt.ensures_bind (law.fopenFile h) fun _ hRes => Attempt.ensures_returned hRes

theorem HeapLaw.elfLoadFile {P : Heap → Prop} (law : HeapLaw P) (h : P m.files.heap) :
    (elfLoadFile d m filename).Ensures fun res => P res.2.files.heap := by
  refine Attempt.ensures_bind (law.kzalloc h sizeOfElfFile) fun first hFirst => ?_
  obtain ⟨elfFile, m₁⟩ := first
  refine Attempt.ensures_bind (law.fopen hFirst) fun opened hOpened => ?_
  obtain ⟨fd, m₂⟩ := opened
  dsimp only at hOpened ⊢
  by_cases hFd : fd ≤ 0
  · rw [if_pos hFd]
    exact Attempt.ensures_returned (law.fcloseFile hOpened 0)
  rw [if_neg hFd]
  refine Attempt.ensures_bind (P := fun _ => True) (fun _ _ => trivial) fun stat _ => ?_
  cases stat with
  | error res => exact Attempt.ensures_returned (law.fcloseFile hOpened fd)
  | ok entry =>
      dsimp only
      split_ifs
      · exact Attempt.ensures_undefined
      · refine Attempt.ensures_bind (law.kzalloc hOpened entry.filesize) fun res hRes => ?_
        dsimp only
        split_ifs
        · exact Attempt.ensures_undefined
        · exact Attempt.ensures_bind (P := fun _ => True) (fun _ _ => trivial) fun a _ =>
            Attempt.ensures_returned (law.fcloseFile hRes fd)

theorem ProgramRead.survives {P : Heap → Prop} (h : ProgramRead d m filename program m')
    (law : HeapLaw P) (hHeap : P m.files.heap) : P m'.files.heap := by
  cases h with
  | elf hRecord hSome hOpen hFd hStat hBuffer hFull hRead hLoad hAccepted =>
      have hOpened := law.fopen (law.kzalloc hHeap _ _ hRecord) _ hOpen
      exact law.fcloseFile (law.kzalloc hOpened _ _ hBuffer) _
  | flat hElf hOpen hFd hStat hBuffer hSome hRead hAll =>
      have hOpened := law.fopen (law.elfLoadFile hHeap _ hElf) _ hOpen
      exact law.fcloseFile (law.kzalloc hOpened _ _ hBuffer) _

theorem ProgramStart.survives {P : Heap → Prop} (p : ProgramStart d m filename) (law : HeapLaw P)
    (hHeap : P m.files.heap) : P p.finish.files.heap := by
  have hProgram := p.programRead.survives law (law.kzalloc hHeap _ _ p.processGranted.1)
  have hStack := law.kzalloc hProgram _ _ p.stackGranted.1
  have hTask : P p.afterTask.memory.heap := law.kzalloc hStack _ _ p.taskGranted.1
  rw [p.finish_heap]
  unfold taskDirectory
  exact createNewPageDirectory_survives law.malloc hTask _

/-- The directory of the new task is as `task_init` has it created. -/
theorem ProgramStart.Mapped.taskSpace (h : p.Mapped table) (hClear : FreeClear m.files.heap) :
    TaskSpace p.finish.memory p.directory table where
  heap := h.record.built.grows.heap
  clear := p.survives freeClear_law hClear
  tables := h.maps.toPageTables
  held := ⟨h.record.built.page.1, fun d hd => (h.record.built.tables d hd).1⟩
  present d hd := by
    obtain ⟨hAligned, _, hHigh⟩ := h.record.built.page.1.page h.record.built.grows.heap
    have hSame : loadWord p.finish.mem (p.directory + 4 * d) =
        loadWord (taskDirectory p.afterTask).2.mem (p.directory + 4 * d) :=
      loadWord_congr fun j hj => by
        rw [behind_of_lt (by omega)]
        refine h.only _ (by omega) fun ⟨e, he, hTable⟩ => (h.record.built.tables e he).2.2 ?_
        omega
    have hTable := ((h.record.built.tables d hd).1.page h.record.built.grows.heap).1
    change loadWord p.finish.mem (p.directory + 4 * d) % 2 = 1
    rw [hSame, h.record.built.entry d hd, Nat.or_assoc, or_flags hTable (by decide)]
    have hFlags : pagingIsPresent ||| pagingAccessFromAll ||| pagingIsWriteable = 7 := by decide
    omega

/-- What is steady is as before when the program has been loaded, and lasts from then on. -/
theorem ProgramStart.Mapped.steady (h : p.Mapped table) (hHeap : HeapInOrder m.files.heap)
    (hx : x < 4294967296) (hSteady : Steady m.files.heap x) :
    p.finish.mem x = m.mem x ∧ Lasting p.finish.memory p.directory table x := by
  rcases hSteady with ⟨ptr, n, hAllotted, hIn⟩ | hSpare
  · have hFirst : Keeps (blockOf ptr) n m.files.heap := ⟨hHeap.kernel, hAllotted.allotted⟩
    obtain ⟨process, m₁, hProcess, _, hStays⟩ := processLoadAnswers_untouched _ p.processLoadAnswers
    have hUntouched := hStays (Storage.kzalloc_untouched hFirst.untouched _ _ hProcess).1
    have hTask := (p.keeps (m.kzalloc_keeps hFirst _ _ p.processGranted.1).1).2.1
    have hHeld := hTask.inBlocks hIn
    refine ⟨hUntouched.same x hx hIn, Or.inl ⟨hUntouched.inBlocks hIn, fun hSame => ?_,
      fun d hd hSame => ?_⟩⟩
    · exact h.record.built.page.2 (hSame ▸ hHeld)
    · exact (h.record.built.tables d hd).2.1 (hSame ▸ hHeld)
  · have hOut : OutsideHeap x := by
      unfold SpareMemory at hSpare
      unfold OutsideHeap
      omega
    exact ⟨h.outside hHeap hx hOut, Or.inr hOut⟩

end Load

/-- The process of a program that has been loaded has its directory. -/
theorem ProgramStart.child_directory {d : DiskFiles} {m : Storage} {filename : List UInt8}
    (p : ProgramStart d m filename) (hHeap : HeapInOrder m.files.heap) :
    (LoadedMemory.process ⟨p.answers, p.finish.memory⟩).process.directory = p.directory := by
  obtain ⟨table, hMapped⟩ := p.mappedTask hHeap
  exact hMapped.record.points_kept hMapped.only

/-! ### What the new program finds -/

section Given

variable {start k : KernelMemory} {table : Nat → Nat} {p : ArgumentsProcess} {source : Memory}
  {directory i other q q' : Nat} {nodes found : List Nat}

theorem wordByte_inj (hq : q < 4294967296) (hq' : q' < 4294967296)
    (h : ∀ j < 4, wordByte q j = wordByte q' j) : q = q' := by
  have hWord : loadWord (wordByte q) 0 = q := loadWord_of_bytes hq fun j hj => by
    rw [behind_of_lt (by omega), Nat.zero_add]
  have hWord' : loadWord (wordByte q) 0 = q' := loadWord_of_bytes hq' fun j hj => by
    rw [behind_of_lt (by omega), Nat.zero_add]
    exact h j hj
  exact hWord.symm.trans hWord'

/-- Pointer `i` leads to a copy of the text that the kernel found at node `i`. -/
theorem Passing.argument (h : Passing start k p.process.directory table p.argv found.length found)
    (hSame : ∀ node ∈ found, ∀ j < sizeOfArgument,
      start.mem (behind node j) = source (behind node j)) (hOther : found[i]? = some other) :
    ∃ q n out, q ≠ 0 ∧ q < 4294967296 ∧
      (∀ j < 4, taskByte k.mem p.process.directory p.argv (4 * i + j) = some (wordByte q j)) ∧
      StringCopied (fun j => some (source (behind other j))) sizeOfArgument out n ∧
      ∀ j ≤ n, taskByte k.mem p.process.directory q j = some (out j) := by
  obtain ⟨hIndex, hValue⟩ := List.getElem?_eq_some_iff.mp hOther
  have hMember : other ∈ found := hValue ▸ List.getElem_mem hIndex
  obtain ⟨_, hEnd⟩ := h.address
  obtain ⟨q, n, out, hSome, hLt, hWord, hCopied, hBytes⟩ := h.passed i other hOther
  have hInside := hCopied.inside
  refine ⟨q, n, out, by omega, by omega, fun j hj => ?_, hCopied.congr fun j hj => ?_,
    fun j hj => ?_⟩
  · rw [taskByte, behind_of_lt (by omega), ← Nat.add_assoc]
    exact ((hWord j hj).1.load h.space).trans (congrArg some (hWord j hj).2)
  · have hLess := hj.1
    exact congrArg some (hSame other hMember j (by omega)).symm
  · rw [taskByte, behind_of_lt (by omega)]
    exact ((hBytes j hj).1.load h.space).trans (congrArg some (hBytes j hj).2.1)

/-- The program has been given what it was to be given, if the kernel found it. -/
theorem Passing.given_iff
    (h : Passing start k p.process.directory table p.argv found.length found)
    (hNumber : p.argc = found.length)
    (hSame : ∀ node ∈ found, ∀ j < sizeOfArgument,
      start.mem (behind node j) = source (behind node j)) :
    ArgumentsGiven source directory nodes k.mem p ↔
      SameArguments source directory nodes found := by
  constructor
  · intro hGiven
    refine ⟨hNumber.symm.trans hGiven.number, fun i node other hNode hOther => ?_⟩
    obtain ⟨q, n, out, _, hLt, hWord, hCopied, hBytes⟩ := hGiven.argument i node hNode
    obtain ⟨q', n', out', _, hLt', hWord', hFound, hBytes'⟩ := h.argument hSame hOther
    obtain rfl : q = q' := wordByte_inj hLt hLt' fun j hj =>
      Option.some.inj ((hWord j hj).symm.trans (hWord' j hj))
    have hOut : ∀ j, j ≤ n → j ≤ n' → out j = out' j := fun j hj hj' =>
      Option.some.inj ((hBytes j hj).symm.trans (hBytes' j hj'))
    obtain rfl := hCopied.same_place hFound hOut
    exact ⟨n, out, hCopied, hFound.of_out fun j hj => (hOut j hj hj).symm⟩
  · intro hFound
    refine ⟨hNumber.trans hFound.number, fun i node hNode => ?_⟩
    obtain ⟨hIndex, _⟩ := List.getElem?_eq_some_iff.mp hNode
    rw [← hFound.number] at hIndex
    have hOther := List.getElem?_eq_getElem hIndex
    obtain ⟨q, n, out, hSome, hLt, hWord, hCopied, hBytes⟩ := h.argument hSame hOther
    obtain ⟨n', out', hSeen, hMeant⟩ := hFound.text i node _ hNode hOther
    obtain ⟨rfl, hOut⟩ := hCopied.unique hMeant
    exact ⟨q, n, out, hSome, hLt, hWord, hSeen.of_out fun j hj => (hOut j hj).symm, hBytes⟩

end Given

/-! ### The system call -/

section Call

variable {d : DiskFiles} {m m' : Storage} {filename : List UInt8} {a : LoadAnswers}
  {program : Program} {k loaded : Kernel} {res : Int} {process directory ptr root : Nat}
  {l : LoadedMemory} {mem : Memory}

theorem processLoadSwitch_slot (h : processLoadSwitch k a = .returned (res, process, loaded))
    (hLoaded : 0 ≤ res) :
    ∃ slot k', processLoadForSlot k a slot = .returned (res, process, k') := by
  unfold processLoadSwitch at h
  split at h
  · rename_i hLoad
    obtain ⟨rfl, hRest⟩ := Prod.mk.inj (Outcome.returned.inj h)
    obtain ⟨rfl, _⟩ := Prod.mk.inj hRest
    unfold processLoad at hLoad
    split at hLoad
    · have hNone := (Prod.mk.inj (Outcome.returned.inj hLoad)).1
      exact absurd (show -eistkn < 0 by decide) (by omega)
    · exact ⟨_, _, hLoad⟩
  · cases h
  · cases h

/-- When the program has been loaded, the arguments decide. -/
theorem argumentsHandedOver_iff
    (hLoad : processLoadSwitch k l.answers = .returned (res, process, loaded)) (hLoaded : 0 ≤ res) :
    ArgumentsHandedOver mem directory ptr
        (isr80hCommand7InvokeSystemCommandArguments k root l) ↔
      ∃ res' memory p,
        processInjectArguments l.memory l.process root = .returned (res', memory, p) ∧
        (0 ≤ res' → ∀ nodes, TaskArguments mem directory ptr nodes → nodes ≠ [] →
          ArgumentsGiven mem directory nodes memory.mem p) := by
  rw [isr80hCommand7InvokeSystemCommandArguments, hLoad]
  dsimp only
  rw [if_neg (Int.not_lt.mpr hLoaded)]
  constructor
  · rintro ⟨x, hCall, hGiven⟩
    obtain ⟨⟨res', memory, p⟩, hInject, hEnd⟩ := Attempt.bind_returned_iff.mp hCall
    refine ⟨res', memory, p, hInject, fun hRes => ?_⟩
    dsimp only at hEnd
    rw [if_neg (Int.not_lt.mpr hRes)] at hEnd
    obtain rfl := Attempt.returned.inj hEnd
    exact hGiven (Int.le_refl 0)
  · rintro ⟨res', memory, p, hInject, hGiven⟩
    by_cases hRes : res' < 0
    · refine ⟨_, Attempt.bind_returned_iff.mpr ⟨_, hInject, if_pos hRes⟩, fun hSuccess => ?_⟩
      exact absurd hRes (Int.not_lt.mpr hSuccess)
    · exact ⟨_, Attempt.bind_returned_iff.mpr ⟨_, hInject, if_neg hRes⟩,
        fun _ => hGiven (Int.not_lt.mp hRes)⟩

/-- The injection comes back for the lists that end. -/
theorem processInjectArguments_list {k : KernelMemory} {p p' : ArgumentsProcess}
    {memory : KernelMemory} (h : processInjectArguments k p root = .returned (res, memory, p')) :
    ∃ found, ArgumentList k.mem root found := by
  obtain ⟨argc, hCount, _⟩ := Attempt.bind_returned_iff.mp h
  exact processCountLoop_returned hCount

/-- The load leaves a list in steady memory as it is. -/
theorem ProgramStart.Mapped.argumentList_iff {p : ProgramStart d m filename} {table : Nat → Nat}
    {found : List Nat} (h : p.Mapped table) (hHeap : HeapInOrder m.files.heap)
    (hWalk : ∀ node, Followed m.mem root node → ∀ j < 516, Steady m.files.heap (behind node j)) :
    ArgumentList p.finish.mem root found ↔ ArgumentList m.mem root found :=
  ArgumentList.congr_iff fun node hNode => loadWord_congr fun j hj => by
    have hSize : sizeOfArgument = 512 := rfl
    rw [behind_behind]
    exact (h.steady hHeap (behind_lt _ _) (hWalk node hNode _ (by omega))).1

/-- The new program is given what the kernel finds, or there is no room for it. -/
theorem ProgramStart.Mapped.injects_list {p : ProgramStart d m filename} {table : Nat → Nat}
    {child : ArgumentsProcess} {found : List Nat} (h : p.Mapped table)
    (hHeap : HeapInOrder m.files.heap) (hClear : FreeClear m.files.heap)
    (hChild : child.process.directory = p.directory)
    (hWalk : ∀ node, Followed m.mem root node → ∀ j < 516, Steady m.files.heap (behind node j))
    (hFits : 1024 < found.length →
      4 * found.length < 4294967296 ∧ RequestFits p.finish.files.heap.table (4 * found.length))
    (hList : ArgumentList m.mem root found) (hSome : found ≠ []) :
    ∃ res memory child',
      processInjectArguments p.finish.memory child root = .returned (res, memory, child') ∧
        (res = 0 ↔ RoomFor p.finish.memory child.process found.length) ∧
        (res = -enomem ∨ res = 0 ∧ ∀ nodes, ArgumentsGiven m.mem directory nodes memory.mem child' ↔
          SameArguments m.mem directory nodes found) := by
  have hSize : sizeOfArgument = 512 := rfl
  have hSpace : TaskSpace p.finish.memory child.process.directory table := by
    rw [hChild]
    exact h.taskSpace hClear
  have hSteady : ∀ node ∈ found, ∀ j < 516,
      p.finish.mem (behind node j) = m.mem (behind node j) ∧
        Lasting p.finish.memory child.process.directory table (behind node j) :=
    fun node hNode j hj => by
      rw [hChild]
      exact h.steady hHeap (behind_lt _ _) (hWalk node (hList.followed hNode) j hj)
  obtain ⟨hLength, hRequest⟩ : 4 * found.length < 4294967296 ∧
      RequestFits p.finish.files.heap.table (4 * found.length) := by
    have hPositive := List.length_pos_iff.mpr hSome
    by_cases hLong : 1024 < found.length
    · exact hFits hLong
    · exact ⟨by omega, requestFits_one p.finish.files.heap (by omega) (by omega)⟩
  obtain ⟨res, memory, child', hCall, _, _, hEnough, hEnd⟩ := processInjectArguments_passing hSpace
    ((h.argumentList_iff hHeap hWalk).mpr hList)
    (fun node hNode j hj => (hSteady node hNode j hj).2) hSome hLength hRequest
  refine ⟨res, memory, child', hCall, hEnough, hEnd.imp And.left fun hPassed => ?_⟩
  obtain ⟨hRes, hSame, hNumber, hPassing⟩ := hPassed
  rw [← hSame] at hPassing
  exact ⟨hRes, fun nodes => hPassing.given_iff hNumber fun node hNode j hj =>
    (hSteady node hNode j (by omega)).1⟩

/-- What the new program is given when the kernel's walk stays in steady memory. -/
theorem ProgramStart.injects_iff (p : ProgramStart d m filename) {child : ArgumentsProcess}
    (hHeap : HeapInOrder m.files.heap) (hClear : FreeClear m.files.heap)
    (hChild : child.process.directory = p.directory)
    (hWalk : ∀ node, Followed m.mem root node → ∀ j < 516, Steady m.files.heap (behind node j))
    (hFits : ∀ found, ArgumentList m.mem root found → 1024 < found.length →
      4 * found.length < 4294967296 ∧ RequestFits p.finish.files.heap.table (4 * found.length)) :
    (∃ res memory child',
      processInjectArguments p.finish.memory child root = .returned (res, memory, child') ∧
        (0 ≤ res → ∀ nodes, TaskArguments m.mem directory ptr nodes → nodes ≠ [] →
          ArgumentsGiven m.mem directory nodes memory.mem child')) ↔
      WalkFinds m.mem directory ptr root (RoomFor p.finish.memory child.process) := by
  obtain ⟨table, hMapped⟩ := p.mappedTask hHeap
  constructor
  · rintro ⟨res, memory, child', hInject, hGiven⟩
    -- the call is back, so its walk has ended
    obtain ⟨found, hFinish⟩ := processInjectArguments_list hInject
    have hList := (hMapped.argumentList_iff hHeap hWalk).mp hFinish
    refine ⟨found, hList, fun hSome hRoom nodes hNodes hNone => ?_⟩
    obtain ⟨res', last, child'', hCall, hEnough, hEnd⟩ := hMapped.injects_list hHeap hClear
      hChild hWalk (hFits found hList) hList hSome
    obtain ⟨rfl, hPair⟩ := Prod.mk.inj (Attempt.returned.inj (hInject.symm.trans hCall))
    obtain ⟨rfl, rfl⟩ := Prod.mk.inj hPair
    obtain rfl := hEnough.mpr hRoom
    rcases hEnd with hFull | ⟨_, hIff⟩
    · exact absurd hFull (by decide)
    · exact (hIff nodes).mp (hGiven (Int.le_refl 0) nodes hNodes hNone)
  · rintro ⟨found, hList, hFound⟩
    by_cases hSome : found = []
    · -- the first node is at the physical address 0, which is no list for the kernel
      subst hSome
      cases hList
      exact ⟨_, _, _, processInjectArguments_none _ _, fun hRes => absurd hRes (by decide)⟩
    obtain ⟨res, last, child', hCall, hEnough, hEnd⟩ := hMapped.injects_list hHeap hClear hChild
      hWalk (hFits found hList) hList hSome
    refine ⟨res, last, child', hCall, fun hRes nodes hNodes hNone => ?_⟩
    rcases hEnd with rfl | ⟨rfl, hIff⟩
    · exact absurd hRes (by decide)
    · exact (hIff nodes).mpr (hFound hSome (hEnough.mp rfl) nodes hNodes hNone)

/-- The switch to a program that has been loaded. -/
theorem ProgramStart.processLoadSwitch (p : ProgramStart d m filename)
    (hHeap : HeapInOrder m.files.heap) {slot : Nat}
    (hSlot : processGetFreeSlot k = some slot) :
    ∃ loaded, processLoadSwitch k p.answers = .returned (0, p.process, loaded) := by
  obtain ⟨_, _, _, _, hDone, _⟩ := p.maps hHeap
  obtain ⟨sched, hNew⟩ := taskNew_some k.sched p.process
    (entryPoint (taskDirectory p.afterTask).2.mem p.program.data) p.taskGranted.2 p.directoryGranted
  obtain ⟨k', hCall, _⟩ := processLoadForSlot_succeeds (k := k) (a := p.answers) slot
    p.processGranted.2 (Int.le_refl 0) p.stackGranted.2 hNew hDone
  refine ⟨LiebeOS.processSwitch k' p.process, ?_⟩
  rw [LiebeOS.processLoadSwitch, processLoad, hSlot]
  dsimp only
  rw [hCall]
  rfl

/-- For a new process there is room if there are blocks. -/
theorem LoadedMemory.roomFor (l : LoadedMemory) {n : Nat} (hSome : 1 ≤ n) (hSlots : n < 1024)
    (hBlocks : n < (freeBlocks l.memory.heap).card) : RoomFor l.memory l.process.process n where
  slots := by
    have hAll : freeSlots l.process.process = Finset.range 1024 :=
      Finset.filter_true_of_mem fun _ _ => rfl
    rw [hAll, Finset.card_range]
    exact hSlots
  pointers := (hasFree_of_card (by omega)).hasRun (by omega) (by omega)
  blocks := by
    unfold blocksOf
    omega

/-- A command whose program has been loaded is given its arguments, and the call comes back,
exactly when the kernel's walk over physical addresses ends and finds what the caller sees. -/
theorem isr80hCommand7_arguments_iff (hHeap : HeapInOrder m.files.heap)
    (hClear : FreeClear m.files.heap)
    (hAnswers : processLoadAnswers d m filename = .returned (a, program, m'))
    (hLoad : processLoadSwitch k a = .returned (res, process, loaded)) (hLoaded : 0 ≤ res)
    (hWalk : ∀ node, Followed m.mem (pagingGetPhysicalAddress m.mem directory ptr) node →
      ∀ j < 516, Steady m.files.heap (behind node j))
    (hFits : ∀ found, ArgumentList m.mem (pagingGetPhysicalAddress m.mem directory ptr) found →
      1024 < found.length →
        4 * found.length < 4294967296 ∧ RequestFits m'.files.heap.table (4 * found.length)) :
    ArgumentsHandedOver m.mem directory ptr
        (isr80hCommand7InvokeSystemCommandArguments k
          (pagingGetPhysicalAddress m.mem directory ptr) ⟨a, m'.memory⟩) ↔
      WalkFinds m.mem directory ptr (pagingGetPhysicalAddress m.mem directory ptr)
        (RoomFor m'.memory (LoadedMemory.process ⟨a, m'.memory⟩).process) := by
  obtain ⟨slot, k', hSlot⟩ := processLoadSwitch_slot hLoad hLoaded
  obtain ⟨p⟩ : Nonempty (ProgramStart d m filename) := by
    rcases processLoadAnswers_cases hAnswers with hStack | hMap | hStart
    · exact absurd (processLoadForSlot_fails hSlot (Or.inl hStack)) (Int.not_lt.mpr hLoaded)
    · exact absurd (processLoadForSlot_fails hSlot (Or.inr hMap)) (Int.not_lt.mpr hLoaded)
    · exact hStart
  obtain ⟨rfl, hRest⟩ := Prod.mk.inj
    (Attempt.returned.inj (p.processLoadAnswers.symm.trans hAnswers))
  obtain ⟨_, rfl⟩ := Prod.mk.inj hRest
  rw [argumentsHandedOver_iff hLoad hLoaded]
  exact p.injects_iff hHeap hClear (p.child_directory hHeap) hWalk hFits

end Call

/-! ### A list with two nodes -/

/-- Memory with a program that is running. At `0x05E20000` is its directory, with the tables
behind it. What it sees at `0x400000` is at `0x06221000`: a node with the text `x`, the name
of the program, which points to `next`, and from the byte behind it the text `b`. -/
def callerMemory (next : Nat) : Memory := fun x =>
  if x < 0x05E20000 then 0
  else if x < 0x05E21000 then wordByte (0x05E21007 + 4096 * ((x - 0x05E20000) / 4)) (x % 4)
  else if x < 0x06221000 then
    let page := (x - 0x05E21000) / 4
    wordByte (if page = 0x400 then 0x06221007 else 4096 * page + 5) (x % 4)
  else if x = 0x06221000 then 0x78
  else if 0x06221200 ≤ x ∧ x < 0x06221204 then wordByte next (x % 4)
  else if x = 0x06221204 then 0x62
  else if 0x06224000 ≤ x ∧ x < 0x06224004 then wordByte 0x05E20000 (x % 4)
  else 0

/-- The directory with its tables, the data, the records of the task and the process, and
the record of the directory. -/
def callerHeap : Heap :=
  ⟨⟨fun b => if 20000 ≤ b ∧ b < 21029 then onePageEntry else 0, 25600, []⟩, 0x01000000⟩

def callerStorage (next : Nat) : Storage :=
  ⟨{ freshFiles with heap := callerHeap }, callerMemory next⟩

/-- The program that is running is in the first slot. -/
def callerKernel : Kernel where
  sched :=
    ⟨fun _ => taskInit 0x06224000 0x06223000 0x400000, 0x06222000, 0x06222000, 0x06222000, []⟩
  processes i := if i = 0 then 0x06223000 else 0
  records _ := { processInit with task := 0x06222000 }
  currentProcess := 0x06223000

theorem callerHeap_inOrder : HeapInOrder callerHeap where
  kernel := ⟨rfl, rfl⟩
  chained j _ _ hNext := by
    by_cases hIn : 20000 ≤ j ∧ j < 21029
    · rw [show callerHeap.table.entries j = onePageEntry from if_pos hIn] at hNext
      exact absurd hNext (by decide)
    · rw [show callerHeap.table.entries j = 0 from if_neg hIn] at hNext
      exact absurd hNext (by decide)

theorem callerHeap_clear : FreeClear callerHeap := fun b _ hFree => by
  by_cases hIn : 20000 ≤ b ∧ b < 21029
  · rw [show callerHeap.table.entries b = onePageEntry from if_pos hIn] at hFree
    exact absurd hFree (by decide)
  · exact if_neg hIn

/-- The data of the program are an allocation. -/
theorem callerHeap_data {x : Nat} (hLow : 0x06221000 ≤ x) (hHigh : x < 0x06222000) :
    Steady callerHeap x := by
  have hBlock : blockOf 0x06221000 = 21025 := by decide
  have hOne : MarkedRun callerHeap.table.entries 21025 1 := ⟨Nat.le_refl 1, fun j hFrom hTo => by
    obtain rfl : j = 21025 := by omega
    decide⟩
  refine Or.inl ⟨0x06221000, 1, ⟨by decide, ?_⟩, ?_⟩
  · rw [hBlock]
    exact ⟨⟨by decide, by decide⟩, hOne, by decide⟩
  · rw [hBlock]
    unfold InBlocks
    omega

section Caller

variable {next node : Nat}

theorem callerMemory_walk (hNext : next ∈ [0, 0x400204, 0x06221000])
    (h : Followed (callerMemory next) 0x06221000 node) : node ∈ [0x06221000, 0x400204] := by
  have hClosed : ∀ next ∈ [0, 0x400204, 0x06221000], ∀ node ∈ [0x06221000, 0x400204],
      commandArgumentNext (callerMemory next) node = 0 ∨
        commandArgumentNext (callerMemory next) node ∈ [0x06221000, 0x400204] := by
    decide +kernel
  exact h.stays (by decide) (hClosed next hNext)

theorem callerMemory_steady (hNext : next ∈ [0, 0x400204, 0x06221000])
    (h : Followed (callerMemory next) 0x06221000 node) {j : Nat} (hj : j < 516) :
    Steady callerHeap (behind node j) := by
  rcases List.mem_cons.mp (callerMemory_walk hNext h) with rfl | hRest
  · rw [behind_of_lt (by omega)]
    exact callerHeap_data (by omega) (by omega)
  · obtain rfl := List.mem_singleton.mp hRest
    rw [behind_of_lt (by omega)]
    exact Or.inr (Or.inl (by omega))

theorem callerMemory_short {found : List Nat} (hNext : next ∈ [0, 0x400204, 0x06221000])
    (h : ArgumentList (callerMemory next) 0x06221000 found) : found.length ≤ 2 :=
  (h.nodup.subperm fun _ hNode => callerMemory_walk hNext (h.followed hNode)).length_le

/-- The command is loaded, and there is room for what the kernel finds. -/
theorem callerStorage_start (hNext : next ∈ [0, 0x400204, 0x06221000]) :
    ∃ p : ProgramStart flatFiles (callerStorage next) missingFile,
      74 ≤ (freeBlocks p.finish.files.heap).card := by
  have hLoad : ∀ next ∈ [0, 0x400204, 0x06221000], loadFlat (callerStorage next) = true := by
    decide +kernel
  obtain ⟨l, _, hCard⟩ := loadFlat_load callerHeap_inOrder (hLoad next hNext)
  have hTaken := createNewPageDirectory_card (pagingIsPresent ||| pagingAccessFromAll)
    l.afterTask.memory
  have hSame : (l.start callerHeap_inOrder (by decide)).afterTask = l.afterTask := rfl
  refine ⟨l.start callerHeap_inOrder (by decide), ?_⟩
  rw [ProgramStart.finish_heap, hSame]
  unfold taskDirectory
  omega

/-- The command with these arguments is loaded, and they do not arrive. -/
def ArgumentsLost (next : Nat) : Prop :=
  ∃ a program m' process loaded,
    processLoadAnswers flatFiles (callerStorage next) missingFile = .returned (a, program, m') ∧
    processLoadSwitch callerKernel a = .returned (0, process, loaded) ∧
    ¬ ArgumentsHandedOver (callerMemory next) 0x05E20000 0x400000
        (isr80hCommand7InvokeSystemCommandArguments callerKernel
          (pagingGetPhysicalAddress (callerMemory next) 0x05E20000 0x400000) ⟨a, m'.memory⟩)

theorem callerMemory_root (hNext : next ∈ [0, 0x400204, 0x06221000]) :
    pagingGetPhysicalAddress (callerMemory next) 0x05E20000 0x400000 = 0x06221000 := by
  have hAll : ∀ next ∈ [0, 0x400204, 0x06221000],
      pagingGetPhysicalAddress (callerMemory next) 0x05E20000 0x400000 = 0x06221000 := by
    decide +kernel
  exact hAll next hNext

theorem ArgumentsLost.of_walk (hNext : next ∈ [0, 0x400204, 0x06221000])
    (h : ∀ room : Nat → Prop, room 2 →
      ¬ WalkFinds (callerMemory next) 0x05E20000 0x400000 0x06221000 room) :
    ArgumentsLost next := by
  obtain ⟨p, hCard⟩ := callerStorage_start hNext
  obtain ⟨loaded, hLoad⟩ := p.processLoadSwitch callerHeap_inOrder
    (show processGetFreeSlot callerKernel = some 1 by decide)
  refine ⟨_, _, _, _, loaded, p.processLoadAnswers, hLoad, fun hHanded => ?_⟩
  rw [callerMemory_root hNext, argumentsHandedOver_iff hLoad (Int.le_refl 0)] at hHanded
  refine h _ ?_ ((p.injects_iff callerHeap_inOrder callerHeap_clear
    (p.child_directory callerHeap_inOrder) (fun _ hNode _ => callerMemory_steady hNext hNode)
    fun found hFound hLong => ?_).mp hHanded)
  · exact LoadedMemory.roomFor ⟨p.answers, p.finish.memory⟩ (by decide) (by decide)
      (Nat.lt_of_lt_of_le (by decide) hCard)
  · have hShort := callerMemory_short hNext hFound
    omega

end Caller

/-- The caller's second node is at `0x400204`. The kernel takes this for its address, and
finds no text there. -/
theorem callerMemory_second :
    TaskArguments (callerMemory 0x400204) 0x05E20000 0x400000 [0x400000, 0x400204] ∧
      ArgumentList (callerMemory 0x400204) 0x06221000 [0x06221000, 0x400204] := by
  have hSecond : loadWordThrough (pageTranslation 0x05E20000) (callerMemory 0x400204)
      (behind 0x400000 sizeOfArgument) = some 0x400204 := by decide +kernel
  have hEnd : loadWordThrough (pageTranslation 0x05E20000) (callerMemory 0x400204)
      (behind 0x400204 sizeOfArgument) = some 0 := by decide +kernel
  refine ⟨.cons (by decide) hSecond (.cons (by decide) hEnd .nil), .cons (by decide) ?_⟩
  rw [show commandArgumentNext (callerMemory 0x400204) 0x06221000 = 0x400204 by decide]
  refine .cons (by decide) ?_
  rw [show commandArgumentNext (callerMemory 0x400204) 0x400204 = 0 by decide]
  exact .nil

/-- The arguments of the list with two nodes do not arrive, nor does the call come back for
the list whose only node points to itself. -/
theorem isr80hCommand7_arguments_lost :
    (HeapInOrder callerHeap ∧ FreeClear callerHeap) ∧
      TaskArguments (callerMemory 0x400204) 0x05E20000 0x400000 [0x400000, 0x400204] ∧
      ArgumentsLost 0x400204 ∧ ArgumentsLost 0x06221000 := by
  obtain ⟨hSeen, hFollowed⟩ := callerMemory_second
  refine ⟨⟨callerHeap_inOrder, callerHeap_clear⟩, hSeen, .of_walk (by decide) ?_,
    .of_walk (by decide) ?_⟩
  · rintro room hRoom ⟨found, hFound, hSame⟩
    obtain rfl := hFound.unique hFollowed
    obtain ⟨n, out, hText, hOther⟩ := (hSame (List.cons_ne_nil _ _) hRoom _ hSeen
      (List.cons_ne_nil _ _)).text 1 0x400204 0x400204 rfl rfl
    have hLetter : taskByte (callerMemory 0x400204) 0x05E20000 0x400204 0 = some 0x62 := by
      decide +kernel
    have hNothing : callerMemory 0x400204 (behind 0x400204 0) = 0 := by decide
    rcases Nat.eq_zero_or_pos n with rfl | hPositive
    · rcases hText.whole with hFull | hEnd
      · exact absurd hFull (by decide)
      · exact absurd (hLetter.symm.trans hEnd) (by decide)
    · obtain ⟨hByte, hNot⟩ := hOther.bytes 0 hPositive
      rw [hNothing] at hByte
      exact hNot (Option.some.inj hByte).symm
  · -- the node comes back to itself, which no list does
    rintro room _ ⟨found, hFound, _⟩
    have hNodup := hFound.nodup
    cases hFound with
    | cons _ hRest =>
        rw [show commandArgumentNext (callerMemory 0x06221000) 0x06221000 = 0x06221000 by decide]
          at hRest
        cases hRest with
        | cons _ _ => exact (List.nodup_cons.mp hNodup).1 (List.mem_cons_self ..)

/-- A list of one node, which is the name of the program. -/
theorem callerMemory_one :
    TaskArguments (callerMemory 0) 0x05E20000 0x400000 [0x400000] ∧
      ArgumentList (callerMemory 0) 0x06221000 [0x06221000] ∧
      SameArguments (callerMemory 0) 0x05E20000 [0x400000] [0x06221000] := by
  have hEnd : loadWordThrough (pageTranslation 0x05E20000) (callerMemory 0)
      (behind 0x400000 sizeOfArgument) = some 0 := by decide +kernel
  have hSeen : ∀ j ≤ 1, taskByte (callerMemory 0) 0x05E20000 0x400000 j =
      some (if j = 0 then 0x78 else 0) := by decide +kernel
  have hThere : ∀ j ≤ 1, some (callerMemory 0 (behind 0x06221000 j)) =
      some (if j = 0 then 0x78 else 0) := by decide
  have hCopied : ∀ {read : Nat → Option UInt8},
      (∀ j ≤ 1, read j = some (if j = 0 then 0x78 else 0)) →
        StringCopied read sizeOfArgument (fun j => if j = 0 then 0x78 else 0) 1 :=
    fun hRead => ⟨by decide, fun j hj => by
      obtain rfl := Nat.lt_one_iff.mp hj
      exact ⟨hRead 0 (Nat.zero_le 1), by decide⟩, rfl, Or.inr (hRead 1 (Nat.le_refl 1))⟩
  refine ⟨.cons (by decide) hEnd .nil, .cons (by decide) ?_, rfl,
    fun i node other hNode hOther => ?_⟩
  · rw [show commandArgumentNext (callerMemory 0) 0x06221000 = 0 by decide]
    exact .nil
  · obtain rfl : i = 0 := Nat.lt_one_iff.mp (List.getElem?_eq_some_iff.mp hNode).1
    obtain rfl := Option.some.inj hNode
    obtain rfl := Option.some.inj hOther
    exact ⟨1, _, hCopied hSeen, hCopied hThere⟩

/-- The program is given its own name. -/
theorem isr80hCommand7_arguments_name :
    ∃ a program m' process loaded,
      processLoadAnswers flatFiles (callerStorage 0) missingFile = .returned (a, program, m') ∧
      processLoadSwitch callerKernel a = .returned (0, process, loaded) ∧
      TaskArguments (callerMemory 0) 0x05E20000 0x400000 [0x400000] ∧
      ArgumentsHandedOver (callerMemory 0) 0x05E20000 0x400000
        (isr80hCommand7InvokeSystemCommandArguments callerKernel
          (pagingGetPhysicalAddress (callerMemory 0) 0x05E20000 0x400000) ⟨a, m'.memory⟩) := by
  have hNext : 0 ∈ [0, 0x400204, 0x06221000] := by decide
  have hRoot := callerMemory_root hNext
  obtain ⟨hSeen, hList, hSame⟩ := callerMemory_one
  obtain ⟨p, _⟩ := callerStorage_start hNext
  obtain ⟨loaded, hLoad⟩ := p.processLoadSwitch callerHeap_inOrder
    (show processGetFreeSlot callerKernel = some 1 by decide)
  refine ⟨_, _, _, _, loaded, p.processLoadAnswers, hLoad, hSeen,
    (isr80hCommand7_arguments_iff callerHeap_inOrder callerHeap_clear
      p.processLoadAnswers hLoad (Int.le_refl 0) (fun node hNode j hj => ?_)
      fun found hFound hLong => ?_).mpr ?_⟩
  · exact callerMemory_steady hNext (hRoot ▸ hNode) hj
  · have hShort := callerMemory_short hNext (hRoot ▸ hFound)
    omega
  · refine ⟨[0x06221000], hRoot.symm ▸ hList, fun _ _ nodes hNodes _ => ?_⟩
    obtain rfl := hNodes.unique hSeen
    exact hSame

end LiebeOS
