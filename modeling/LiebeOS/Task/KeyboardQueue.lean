import LiebeOS.Lib.MarkedRing
import LiebeOS.Lib.Run
import LiebeOS.Task.Process

/-! The keyboard queue of one process through any sequence of its operations.
Nothing but the zero bytes of the buffer says which keys are pending. The
counters wrap at 2^32, which the 1024 cells divide. -/
namespace LiebeOS

open MachineInt MarkedRing Transition

def keyboardBackspace (k : Kernel) (process : Nat) : Kernel :=
  let p := k.records process
  let p := { p with keyboard := { p.keyboard with tail := toInt (p.keyboard.tail - 1) } }
  let realIndex := keyboardGetTailIndex p
  k.storeProcess process { p with keyboard := { p.keyboard with
    buffer := Function.update p.keyboard.buffer realIndex 0 } }

/-! ### Runs -/

/-- The kernel, the keys pushed for the process that have not been taken back,
and the keys popped by it. -/
structure KeyboardRun where
  kernel : Kernel
  typed : List UInt8
  popped : List UInt8

inductive KeyboardEvent where
  | push (c : UInt8)
  | pop
  | backspace
  | other

/-- Keys are pushed while the process has the focus and popped while its task is
the current one. Anything that does not touch the buffer may happen in between. -/
inductive KeyboardStep (process : Nat) : KeyboardRun → KeyboardEvent → KeyboardRun → Prop where
  | push (s : KeyboardRun) (c : UInt8) (hFocus : processCurrent s.kernel = process) :
      KeyboardStep process s (.push c)
        { kernel := keyboardPush s.kernel c
          typed := if c = 0 then s.typed else s.typed ++ [c]
          popped := s.popped }
  | pop (s : KeyboardRun) (hTask : taskCurrent s.kernel ≠ 0)
      (hProcess : s.kernel.sched.process (taskCurrent s.kernel) = process) :
      KeyboardStep process s .pop
        { kernel := (keyboardPop s.kernel).2
          typed := s.typed
          popped := if (keyboardPop s.kernel).1 = 0 then s.popped
            else s.popped ++ [(keyboardPop s.kernel).1] }
  | backspace (s : KeyboardRun) :
      KeyboardStep process s .backspace
        { kernel := keyboardBackspace s.kernel process
          typed := if s.popped.length < s.typed.length then s.typed.dropLast else s.typed
          popped := s.popped }
  | other (s : KeyboardRun) (kernel : Kernel)
      (hSame : (kernel.records process).keyboard = (s.kernel.records process).keyboard) :
      KeyboardStep process s .other ⟨kernel, s.typed, s.popped⟩

/-- The keys that are still to be popped. -/
def KeyboardRun.pending (s : KeyboardRun) : List UInt8 := s.typed.drop s.popped.length

/-- Only characters are pushed, with room for each of them, and nothing is taken
back. -/
def PushesFit (s : KeyboardRun) : KeyboardEvent → Prop
  | .push c => c ≠ 0 ∧ s.pending.length < 1024
  | .backspace => False
  | _ => True

/-- A key is only pushed while there is room, and only taken back while there is
one. -/
def KeyFits (s : KeyboardRun) : KeyboardEvent → Prop
  | .push c => c = 0 ∨ s.pending.length < 1024
  | .backspace => s.pending ≠ []
  | _ => True

/-- What the next pop returns: the oldest key that is pending, or zero. -/
structure PopsOldest (process : Nat) (s : KeyboardRun) : Prop where
  order : s.popped <+: s.typed
  next : taskCurrent s.kernel ≠ 0 → s.kernel.sched.process (taskCurrent s.kernel) = process →
    (keyboardPop s.kernel).1 = s.pending.headD 0 ∧
      ((keyboardPop s.kernel).1 = 0 ↔ s.pending = [])

/-- The counters are at most one round apart, and the cells from `head` up to
`tail`, counted around the ring, are exactly those in use. -/
structure BufferOrdered (b : KeyboardBuffer) : Prop where
  counters : 0 ≤ toInt (b.tail - b.head) ∧ toInt (b.tail - b.head) ≤ 1024
  marks : ∀ o : Nat, o < 1024 →
    (b.buffer (toWord (b.head + o) % liebeOsKeyboardBufferSize) ≠ 0 ↔
      (o : Int) < toInt (b.tail - b.head))

/-! ### The representation -/

/-- The counters count the keys, and the buffer is a ring that holds the pending
ones. -/
structure KeyboardInv (process : Nat) (s : KeyboardRun) : Prop where
  order : s.popped <+: s.typed
  head : (s.kernel.records process).keyboard.head = toInt s.popped.length
  tail : (s.kernel.records process).keyboard.tail = toInt s.typed.length
  ring : Holds 1024 0 (fun j : Nat => (s.kernel.records process).keyboard.buffer j)
    s.popped.length s.pending

section Cells

/-- The cell that a counter selects. -/
theorem cell_of_counter (i : Nat) :
    ((toWord (toInt i) : Int) % liebeOsKeyboardBufferSize) = ((i % 1024 : Nat) : Int) := by
  unfold toWord toInt liebeOsKeyboardBufferSize
  omega

theorem update_cell (buffer : Int → UInt8) (i : Nat) (c : UInt8) :
    (fun j : Nat => Function.update buffer (i : Int) c j) =
      Function.update (fun j : Nat => buffer j) i c := by
  funext j
  by_cases hj : j = i
  · rw [hj, Function.update_self, Function.update_self]
  · rw [Function.update_of_ne hj, Function.update_of_ne (Int.ofNat_inj.not.mpr hj)]

theorem toInt_succ (i : Nat) : toInt (toInt i + 1) = toInt (i + 1 : Nat) := by
  unfold toInt
  omega

theorem toInt_pred {i : Nat} (hi : 0 < i) : toInt (toInt i - 1) = toInt (i - 1 : Nat) := by
  unfold toInt
  omega

end Cells

section Inv

variable {process : Nat} {s t : KeyboardRun} {e : KeyboardEvent}

theorem KeyboardInv.length (h : KeyboardInv process s) :
    s.typed.length = s.popped.length + s.pending.length := by
  have hPrefix := h.order.length_le
  rw [KeyboardRun.pending, List.length_drop]
  omega

theorem KeyboardInv.typed_eq (h : KeyboardInv process s) : s.typed = s.popped ++ s.pending :=
  (List.prefix_iff_eq_append.mp h.order).symm

theorem KeyboardInv.pending_push (h : KeyboardInv process s) (kernel : Kernel) (c : UInt8) :
    (KeyboardRun.mk kernel (s.typed ++ [c]) s.popped).pending = s.pending ++ [c] :=
  List.drop_append_of_le_length h.order.length_le

/-- Between the counters there are the pending keys. -/
theorem KeyboardInv.between (h : KeyboardInv process s) :
    toInt ((s.kernel.records process).keyboard.tail - (s.kernel.records process).keyboard.head) =
      s.pending.length := by
  have hLength := h.length
  have hRoom := h.ring.room
  rw [h.head, h.tail]
  unfold toInt
  omega

theorem KeyboardInv.ordered (h : KeyboardInv process s) :
    BufferOrdered (s.kernel.records process).keyboard := by
  have hRoom := h.ring.room
  refine ⟨?_, fun o ho => ?_⟩
  · rw [h.between]
    omega
  · have hCell : ((toWord (toInt s.popped.length + o) : Int) % liebeOsKeyboardBufferSize) =
        (((s.popped.length + o) % 1024 : Nat) : Int) := by
      unfold toWord toInt liebeOsKeyboardBufferSize
      omega
    rw [h.between, h.head, hCell, Int.ofNat_lt]
    exact h.ring.marked_iff ho

/-- Popping reads the front of the ring. -/
theorem KeyboardInv.front (h : KeyboardInv process s) :
    (s.kernel.records process).keyboard.buffer
      (toWord (s.kernel.records process).keyboard.head % liebeOsKeyboardBufferSize) =
      s.pending.headD 0 := by
  rw [h.head, cell_of_counter]
  exact h.ring.front (by decide)

theorem KeyboardInv.popsOldest (h : KeyboardInv process s) : PopsOldest process s := by
  refine ⟨h.order, fun hTask hProcess => ?_⟩
  have hFront := h.front
  have hPop : (keyboardPop s.kernel).1 = s.pending.headD 0 := by
    rw [keyboardPop, if_neg hTask, hProcess]
    dsimp only
    rw [hFront]
    split_ifs with hEmpty
    · exact hEmpty.symm
    · rfl
  refine ⟨hPop, ?_⟩
  rw [hPop]
  have hMarked := h.ring.marked
  cases hQueue : s.pending with
  | nil => exact ⟨fun _ => rfl, fun _ => rfl⟩
  | cons c rest =>
      rw [hQueue] at hMarked
      exact ⟨fun hZero => absurd hZero (hMarked c List.mem_cons_self), fun hNil => nomatch hNil⟩

/-! ### The operations -/

theorem KeyboardInv.push (h : KeyboardInv process s) {c : UInt8} (hp : process ≠ 0)
    (hFocus : processCurrent s.kernel = process) (hc : c ≠ 0) (hRoom : s.pending.length < 1024) :
    KeyboardInv process ⟨keyboardPush s.kernel c, s.typed ++ [c], s.popped⟩ := by
  have hLength := h.length
  have hRecord : (((keyboardPush s.kernel c).records process).keyboard) =
      { (s.kernel.records process).keyboard with
        buffer := Function.update (s.kernel.records process).keyboard.buffer
          ((s.typed.length % 1024 : Nat) : Int) c
        tail := toInt (s.typed.length + 1 : Nat) } := by
    unfold keyboardPush keyboardGetTailIndex
    dsimp only
    rw [hFocus, if_neg hp, if_neg hc]
    dsimp only [Kernel.storeProcess]
    rw [Function.update_self, h.tail, cell_of_counter, toInt_succ]
  refine ⟨?_, ?_, ?_, ?_⟩
  · exact h.order.trans (List.prefix_append _ _)
  · rw [hRecord]
    exact h.head
  · rw [hRecord, List.length_append]
    rfl
  · rw [hRecord, h.pending_push, update_cell, hLength]
    exact h.ring.push hRoom hc

theorem KeyboardInv.pop (h : KeyboardInv process s) (hTask : taskCurrent s.kernel ≠ 0)
    (hProcess : s.kernel.sched.process (taskCurrent s.kernel) = process) :
    KeyboardInv process
      { kernel := (keyboardPop s.kernel).2
        typed := s.typed
        popped := if (keyboardPop s.kernel).1 = 0 then s.popped
          else s.popped ++ [(keyboardPop s.kernel).1] } := by
  obtain ⟨hPop, hZero⟩ := h.popsOldest.next hTask hProcess
  have hFront := h.front
  cases hQueue : s.pending with
  | nil =>
      rw [hQueue, List.headD_nil] at hFront
      have hSame : (keyboardPop s.kernel).2 = s.kernel := by
        rw [keyboardPop, if_neg hTask, hProcess]
        dsimp only
        rw [if_pos hFront]
      rw [if_pos (hZero.mpr hQueue), hSame]
      exact h
  | cons c rest =>
      have hMarked : c ≠ 0 := h.ring.marked c (by rw [hQueue]; exact List.mem_cons_self)
      rw [hQueue] at hFront hPop
      have hRecord : ((keyboardPop s.kernel).2.records process).keyboard =
          { (s.kernel.records process).keyboard with
            buffer := Function.update (s.kernel.records process).keyboard.buffer
              ((s.popped.length % 1024 : Nat) : Int) 0
            head := toInt (s.popped.length + 1 : Nat) } := by
        rw [keyboardPop, if_neg hTask, hProcess]
        dsimp only
        rw [hFront, List.headD_cons, if_neg hMarked]
        dsimp only [Kernel.storeProcess]
        rw [Function.update_self, h.head, cell_of_counter, toInt_succ]
      have hTyped := h.typed_eq
      rw [hQueue] at hTyped
      rw [hPop, List.headD_cons, if_neg hMarked]
      have hRing := h.ring
      rw [hQueue] at hRing
      refine ⟨?_, ?_, ?_, ?_⟩
      · dsimp only
        rw [hTyped]
        exact ⟨rest, by rw [List.append_assoc]; rfl⟩
      · rw [hRecord, List.length_append]
        rfl
      · rw [hRecord]
        exact h.tail
      · have hPending : (KeyboardRun.mk (keyboardPop s.kernel).2 s.typed
            (s.popped ++ [c])).pending = rest := by
          have hSplit : s.popped ++ c :: rest = (s.popped ++ [c]) ++ rest := by
            rw [List.append_assoc]
            rfl
          rw [KeyboardRun.pending, hTyped, hSplit, List.drop_left]
        rw [hRecord, hPending, update_cell, List.length_append]
        exact hRing.pop

theorem KeyboardInv.backspace (h : KeyboardInv process s) (hSome : s.pending ≠ []) :
    KeyboardInv process ⟨keyboardBackspace s.kernel process, s.typed.dropLast, s.popped⟩ := by
  have hLength := h.length
  have hPositive := List.length_pos_iff.mpr hSome
  have hLast : s.typed.length - 1 = s.popped.length + (s.pending.length - 1) := by omega
  have hTyped : s.typed.dropLast = s.popped ++ s.pending.dropLast := by
    rw [h.typed_eq, List.dropLast_append_of_ne_nil hSome]
  have hPending : (KeyboardRun.mk (keyboardBackspace s.kernel process) s.typed.dropLast
      s.popped).pending = s.pending.dropLast := by
    rw [KeyboardRun.pending, hTyped, List.drop_left]
  have hRecord : ((keyboardBackspace s.kernel process).records process).keyboard =
      { (s.kernel.records process).keyboard with
        buffer := Function.update (s.kernel.records process).keyboard.buffer
          (((s.typed.length - 1) % 1024 : Nat) : Int) 0
        tail := toInt (s.typed.length - 1 : Nat) } := by
    unfold keyboardBackspace keyboardGetTailIndex
    dsimp only [Kernel.storeProcess]
    rw [Function.update_self, h.tail, toInt_pred (by omega), cell_of_counter]
  refine ⟨?_, ?_, ?_, ?_⟩
  · rw [hTyped]
    exact List.prefix_append _ _
  · rw [hRecord]
    exact h.head
  · rw [hRecord, List.length_dropLast]
  · rw [hRecord, hPending, update_cell, hLast]
    exact h.ring.dropLast hSome

theorem KeyboardInv.pending_ne_nil_iff (h : KeyboardInv process s) :
    s.pending ≠ [] ↔ s.popped.length < s.typed.length := by
  have hLength := h.length
  rw [← List.length_pos_iff]
  omega

theorem KeyboardInv.step (h : KeyboardInv process s) (hp : process ≠ 0) (hFits : KeyFits s e)
    (hStep : KeyboardStep process s e t) : KeyboardInv process t := by
  cases hStep with
  | push c hFocus =>
      by_cases hc : c = 0
      · have hSame : keyboardPush s.kernel c = s.kernel := by
          rw [keyboardPush, hFocus, if_neg hp, if_pos hc]
        rw [hSame, if_pos hc]
        exact h
      · rw [if_neg hc]
        exact h.push hp hFocus hc (hFits.resolve_left hc)
  | pop hTask hProcess => exact h.pop hTask hProcess
  | backspace =>
      rw [if_pos (h.pending_ne_nil_iff.mp hFits)]
      exact h.backspace hFits
  | other kernel hSame => exact ⟨h.order, hSame ▸ h.head, hSame ▸ h.tail, hSame ▸ h.ring⟩

/-- A key too many moves the counters more than a round apart, a key taken back
from the empty buffer moves `tail` behind `head`. -/
theorem KeyboardInv.unordered (h : KeyboardInv process s) (hp : process ≠ 0)
    (hFits : ¬ KeyFits s e) (hStep : KeyboardStep process s e t) :
    ¬ BufferOrdered (t.kernel.records process).keyboard := by
  have hBetween := h.between
  have hRoom := h.ring.room
  intro hOrdered
  cases hStep with
  | push c hFocus =>
      obtain ⟨hc, hFull⟩ := not_or.mp hFits
      have hHead : ((keyboardPush s.kernel c).records process).keyboard.head =
          (s.kernel.records process).keyboard.head := by
        rw [keyboardPush, hFocus, if_neg hp, if_neg hc]
        dsimp only [Kernel.storeProcess]
        rw [Function.update_self]
      have hTail : ((keyboardPush s.kernel c).records process).keyboard.tail =
          toInt ((s.kernel.records process).keyboard.tail + 1) := by
        rw [keyboardPush, hFocus, if_neg hp, if_neg hc]
        dsimp only [Kernel.storeProcess]
        rw [Function.update_self]
      have hCounters := hOrdered.counters
      rw [hHead, hTail] at hCounters
      unfold toInt at hBetween hCounters
      omega
  | pop hTask hProcess => exact hFits trivial
  | backspace =>
      have hNone : s.pending = [] := not_not.mp hFits
      have hTail : ((keyboardBackspace s.kernel process).records process).keyboard.tail =
          toInt ((s.kernel.records process).keyboard.tail - 1) := by
        unfold keyboardBackspace
        dsimp only [Kernel.storeProcess]
        rw [Function.update_self]
      have hHead : ((keyboardBackspace s.kernel process).records process).keyboard.head =
          (s.kernel.records process).keyboard.head := by
        unfold keyboardBackspace
        dsimp only [Kernel.storeProcess]
        rw [Function.update_self]
      have hCounters := hOrdered.counters
      rw [hHead, hTail] at hCounters
      rw [hNone, List.length_nil] at hBetween
      unfold toInt at hBetween hCounters
      omega
  | other kernel hSame => exact hFits trivial

end Inv

/-! ### Runs from the empty buffer -/

section Runs

variable {process : Nat} {k : Kernel} {events : List KeyboardEvent} {s : KeyboardRun}

theorem KeyboardInv.start (hEmpty : (k.records process).keyboard = processInit.keyboard) :
    KeyboardInv process ⟨k, [], []⟩ where
  order := List.prefix_refl []
  head := by
    rw [hEmpty]
    show (0 : Int) = toInt 0
    decide
  tail := by
    rw [hEmpty]
    show (0 : Int) = toInt 0
    decide
  ring := by
    rw [hEmpty]
    exact Holds.empty 1024 0 0

theorem keyboardRun_inv (hProcess : process ≠ 0)
    (hEmpty : (k.records process).keyboard = processInit.keyboard)
    (run : Run (Guarded (KeyboardStep process) KeyFits) ⟨k, [], []⟩ events s) :
    KeyboardInv process s :=
  run.invariant (KeyboardInv.start hEmpty) fun _ _ _ h hStep => h.step hProcess hStep.1 hStep.2

theorem PushesFit.keyFits {e : KeyboardEvent} (h : PushesFit s e) : KeyFits s e := by
  cases e with
  | push c => exact Or.inr h.2
  | pop => trivial
  | backspace => exact h.elim
  | other => trivial

/-- As long as the keys pushed find room, the pops deliver them in their order,
and zero is popped only when none is left. -/
theorem keyboardRun_fifo (hProcess : process ≠ 0)
    (hEmpty : (k.records process).keyboard = processInit.keyboard)
    (run : Run (Guarded (KeyboardStep process) PushesFit) ⟨k, [], []⟩ events s) :
    PopsOldest process s :=
  (keyboardRun_inv hProcess hEmpty (run.weaken fun _ _ _ h => ⟨h.1.keyFits, h.2⟩)).popsOldest

/-- The kernel of one program, at addresses 4096 and 32768, that has the focus. -/
def oneProgram : Kernel :=
  { sched :=
      { tasks := fun _ => taskInit 36864 4096 0x400000
        taskHead := 32768
        taskTail := 32768
        currentTask := 32768
        written := [] }
    processes := Function.update (fun _ => 0) 0 4096
    records := fun _ => processInit
    currentProcess := 4096 }

theorem keyboardRun_fifo_two_keys :
    ∃ s, Run (Guarded (KeyboardStep 4096) PushesFit) ⟨oneProgram, [], []⟩
        [.push 97, .push 98, .pop] s ∧ s.popped = [97] ∧ PopsOldest 4096 s := by
  have run : Run (Guarded (KeyboardStep 4096) PushesFit) ⟨oneProgram, [], []⟩
      [.push 97, .push 98, .pop] _ :=
    ((Run.single ⟨by unfold PushesFit; decide, KeyboardStep.push _ 97 rfl⟩).snoc
      ⟨by unfold PushesFit; decide, KeyboardStep.push _ 98 rfl⟩).snoc
      ⟨trivial, KeyboardStep.pop _ (by decide) rfl⟩
  exact ⟨_, run, by decide, keyboardRun_fifo (by decide) rfl run⟩

/-- In every run in which no key is pushed into a full buffer or taken back from
an empty one, the buffer stays in order; and from each of these states a step
keeps the order only if it meets the condition. -/
theorem keyboardRun_ordered (hProcess : process ≠ 0)
    (hEmpty : (k.records process).keyboard = processInit.keyboard)
    (run : Run (Guarded (KeyboardStep process) KeyFits) ⟨k, [], []⟩ events s) :
    BufferOrdered (s.kernel.records process).keyboard ∧ PopsOldest process s ∧
      ∀ e t, KeyboardStep process s e t →
        (BufferOrdered (t.kernel.records process).keyboard ↔ KeyFits s e) := by
  have hInv := keyboardRun_inv hProcess hEmpty run
  refine ⟨hInv.ordered, hInv.popsOldest, fun e t hStep => ⟨fun hOrdered => ?_, fun hFits => ?_⟩⟩
  · by_contra hMisses
    exact hInv.unordered hProcess hMisses hStep hOrdered
  · exact (hInv.step hProcess hFits hStep).ordered

theorem keyboardRun_ordered_backspace :
    ∃ s, Run (Guarded (KeyboardStep 4096) KeyFits) ⟨oneProgram, [], []⟩
        [.push 97, .backspace] s ∧ s.pending = [] ∧
      BufferOrdered (s.kernel.records 4096).keyboard := by
  have run : Run (Guarded (KeyboardStep 4096) KeyFits) ⟨oneProgram, [], []⟩
      [.push 97, .backspace] _ :=
    (Run.single ⟨by unfold KeyFits; decide, KeyboardStep.push _ 97 rfl⟩).snoc
      ⟨by unfold KeyFits; decide, KeyboardStep.backspace _⟩
  exact ⟨_, run, by decide, (keyboardRun_ordered (by decide) rfl run).1⟩

/-- Keys that are pushed one after the other and never popped. -/
theorem keyboardRun_pushes (n : Nat) (hn : n ≤ 1024) :
    ∃ s, Run (Guarded (KeyboardStep 4096) KeyFits) ⟨oneProgram, [], []⟩
      (List.replicate n (.push 97)) s ∧ s.pending.length = n ∧ processCurrent s.kernel = 4096 := by
  induction n with
  | zero => exact ⟨_, Run.nil _, rfl, rfl⟩
  | succ n ih =>
      obtain ⟨s, run, hPending, hFocus⟩ := ih (by omega)
      have hInv := keyboardRun_inv (by decide) rfl run
      have hFits : KeyFits s (.push 97) := Or.inr (by omega)
      rw [List.replicate_succ']
      refine ⟨_, run.snoc ⟨hFits, KeyboardStep.push s 97 hFocus⟩, ?_, ?_⟩
      · rw [if_neg (by decide), hInv.pending_push, List.length_append, hPending]
        rfl
      · rw [keyboardPush, hFocus, if_neg (by decide), if_neg (by decide)]
        exact hFocus

/-- The 1025th key that is pushed while nothing is popped goes into the cell of
the first, and the counters are more than the buffer apart. -/
theorem keyboardRun_overflow :
    ¬ ∀ (process : Nat) (k : Kernel) (events : List KeyboardEvent) (s : KeyboardRun),
      process ≠ 0 → (k.records process).keyboard = processInit.keyboard →
        Run (KeyboardStep process) ⟨k, [], []⟩ events s →
          BufferOrdered (s.kernel.records process).keyboard := by
  intro hClaim
  obtain ⟨s, run, hPending, hFocus⟩ := keyboardRun_pushes 1024 (Nat.le_refl _)
  have hFull : ¬ KeyFits s (.push 97) := by
    rintro (hZero | hRoom)
    · exact absurd hZero (by decide)
    · omega
  have hStep := KeyboardStep.push s 97 hFocus
  exact (keyboardRun_inv (by decide) rfl run).unordered (by decide) hFull hStep
    (hClaim 4096 oneProgram _ _ (by decide) rfl ((run.weaken fun _ _ _ h => h.2).snoc hStep))

end Runs

end LiebeOS
