import LiebeOS.Task.ContextSwitch
import LiebeOS.Task.KeyboardQueue

/-! From the scancodes of a keyboard to the keys that programs read: `classic.c`, the
interrupt that runs it, and the queues of all processes at once. Capslock is a state of
the keyboard and not of a process. -/
namespace LiebeOS

open Transition

def classicKeyboardKeyReleased : UInt8 := 0x80
def classicKeyboardCapslock : UInt8 := 0x3A

/-- `keyboard_scan_set_one`, by scancode -/
def keyboardScanSetOne : List UInt8 :=
  [ 0x00, 0x1B, 0x31, 0x32, 0x33, 0x34, 0x35, 0x36, 0x37, 0x38, 0x39, 0x30,
    0x2D, 0x3D, 0x08, 0x09, 0x51, 0x57, 0x45, 0x52, 0x54, 0x59, 0x55, 0x49,
    0x4F, 0x50, 0x5B, 0x5D, 0x0D, 0x00, 0x41, 0x53, 0x44, 0x46, 0x47, 0x48,
    0x4A, 0x4B, 0x4C, 0x3B, 0x27, 0x60, 0x00, 0x5C, 0x5A, 0x58, 0x43, 0x56,
    0x42, 0x4E, 0x4D, 0x2C, 0x2E, 0x2F, 0x00, 0x2A, 0x00, 0x20, 0x00, 0x00,
    0x00, 0x00, 0x00, 0x00, 0x00, 0x00, 0x00, 0x00, 0x00, 0x37, 0x38, 0x39,
    0x2D, 0x34, 0x35, 0x36, 0x2B, 0x31, 0x32, 0x33, 0x30, 0x2E ]

/-- The code that equals the size of the table is let through, and reads the byte
`beyond` that happens to stand behind it. -/
def classicKeyboardScancodeToChar (beyond : UInt8) (capslock : Bool) (scancode : UInt8) : UInt8 :=
  if keyboardScanSetOne.length < scancode.toNat then 0
  else
    let c := keyboardScanSetOne.getD scancode.toNat beyond
    if capslock then c
    else if 0x41 ≤ c ∧ c ≤ 0x5A then c + 32
    else c

/-- The kernel and the capslock of the keyboard. -/
structure Keyboard where
  kernel : Kernel
  capslock : Bool

def classicKeyboardHandleInterrupt (beyond : UInt8) (k : Keyboard) (scancode : UInt8) : Keyboard :=
  if scancode &&& classicKeyboardKeyReleased ≠ 0 then k
  else if scancode = classicKeyboardCapslock then { k with capslock := !k.capslock }
  else
    let c := classicKeyboardScancodeToChar beyond k.capslock scancode
    if c ≠ 0 then { k with kernel := keyboardPush k.kernel c } else k

def taskCurrentSaveState (k : Kernel) (frame : InterruptFrame) : Kernel :=
  let task := taskCurrent k
  { k with sched := k.sched.store task (taskSaveState (k.sched.tasks task) frame) }

/-- `interrupt_handler` for the interrupt of the keyboard. Without a task it panics. -/
def keyboardInterrupt (beyond : UInt8) (k : Keyboard) (frame : InterruptFrame) (scancode : UInt8) :
    Option Keyboard :=
  if taskCurrent k.kernel = 0 then none
  else some (classicKeyboardHandleInterrupt beyond
    { k with kernel := taskCurrentSaveState k.kernel frame } scancode)

/-! ### What was typed -/

/-- Capslock after these codes: it changes each time the key goes down. -/
def capslockAfter (codes : List UInt8) : Bool := codes.count classicKeyboardCapslock % 2 = 1

/-- The character of a key that goes down, if it has one. -/
def keyTyped (beyond : UInt8) (capslock : Bool) (scancode : UInt8) : Option UInt8 :=
  if scancode &&& classicKeyboardKeyReleased ≠ 0 ∨ scancode = classicKeyboardCapslock then none
  else
    let c := classicKeyboardScancodeToChar beyond capslock scancode
    if c = 0 then none else some c

/-- What has been typed for a process, from all codes that came with the process that had
the focus then. -/
def typedFor (beyond : UInt8) (process : Nat) (arrivals : List (Nat × UInt8)) : List UInt8 :=
  (List.range arrivals.length).filterMap fun i =>
    arrivals[i]?.bind fun (focus, scancode) =>
      if focus = process then
        keyTyped beyond (capslockAfter ((arrivals.take i).map Prod.snd)) scancode
      else none

/-- The keyboard, what has come from it, and what each process has read. -/
structure TypingRun where
  keyboard : Keyboard
  arrivals : List (Nat × UInt8)
  popped : Nat → List UInt8

inductive TypingEvent where
  | scancode (code : UInt8)
  | getkey
  | other

/-- A key goes down or up, a program reads a key, or the kernel does something that
leaves the queues alone, such as giving the focus to another process. -/
inductive TypingStep (beyond : UInt8) : TypingRun → TypingEvent → TypingRun → Prop where
  | scancode (s : TypingRun) (frame : InterruptFrame) (code : UInt8) (k : Keyboard)
      (hHandled : keyboardInterrupt beyond s.keyboard frame code = some k) :
      TypingStep beyond s (.scancode code)
        ⟨k, s.arrivals ++ [(processCurrent s.keyboard.kernel, code)], s.popped⟩
  | getkey (s : TypingRun) (hTask : taskCurrent s.keyboard.kernel ≠ 0) :
      TypingStep beyond s .getkey
        { keyboard := { s.keyboard with kernel := (keyboardPop s.keyboard.kernel).2 }
          arrivals := s.arrivals
          popped :=
            let process := s.keyboard.kernel.sched.process (taskCurrent s.keyboard.kernel)
            let c := (keyboardPop s.keyboard.kernel).1
            Function.update s.popped process
              (if c = 0 then s.popped process else s.popped process ++ [c]) }
  | other (s : TypingRun) (kernel : Kernel)
      (hSame : ∀ process, (kernel.records process).keyboard =
        (s.keyboard.kernel.records process).keyboard) :
      TypingStep beyond s .other ⟨{ s.keyboard with kernel := kernel }, s.arrivals, s.popped⟩

/-- The keys that a process has still to read. -/
def TypingRun.pendingFor (beyond : UInt8) (s : TypingRun) (process : Nat) : List UInt8 :=
  (typedFor beyond process s.arrivals).drop (s.popped process).length

/-- A code comes only while the process with the focus has room for a key. -/
def TypingFits (beyond : UInt8) (s : TypingRun) : TypingEvent → Prop
  | .scancode _ => (s.pendingFor beyond (processCurrent s.keyboard.kernel)).length < 1024
  | _ => True

/-- A process has read a front part of what was typed for it, and the next key it reads
is the next one of that. -/
structure ReadsTyped (beyond : UInt8) (process : Nat) (s : TypingRun) : Prop where
  order : s.popped process <+: typedFor beyond process s.arrivals
  next : taskCurrent s.keyboard.kernel ≠ 0 →
    s.keyboard.kernel.sched.process (taskCurrent s.keyboard.kernel) = process →
      (keyboardPop s.keyboard.kernel).1 = (s.pendingFor beyond process).headD 0 ∧
        ((keyboardPop s.keyboard.kernel).1 = 0 ↔ s.pendingFor beyond process = [])

section Keys

variable {beyond code c : UInt8} {process focus : Nat} {arrivals : List (Nat × UInt8)}
  {k : Kernel} {s t : TypingRun} {e : TypingEvent}

theorem capslockAfter_snoc (codes : List UInt8) (code : UInt8) :
    capslockAfter (codes ++ [code]) =
      if code = classicKeyboardCapslock then !capslockAfter codes else capslockAfter codes := by
  unfold capslockAfter
  rw [List.count_append, List.count_singleton]
  by_cases hCaps : code = classicKeyboardCapslock
  · simp only [hCaps, beq_self_eq_true, if_true, ← decide_not]
    congr 1
    exact propext (by omega)
  · simp [hCaps]

theorem typedFor_snoc (beyond : UInt8) (process : Nat) (arrivals : List (Nat × UInt8)) (focus : Nat)
    (code : UInt8) :
    typedFor beyond process (arrivals ++ [(focus, code)]) = typedFor beyond process arrivals ++
      (if focus = process then keyTyped beyond (capslockAfter (arrivals.map Prod.snd)) code
        else none).toList := by
  unfold typedFor
  rw [List.length_append, List.length_singleton, List.range_succ, List.filterMap_append]
  congr 1
  · refine List.filterMap_congr fun i hi => ?_
    have hIn := List.mem_range.mp hi
    rw [List.getElem?_append_left hIn, List.take_append_of_le_length (Nat.le_of_lt hIn)]
  · rw [List.filterMap_cons, List.filterMap_nil, List.getElem?_concat_length, List.take_left,
      Option.bind_some]
    dsimp only
    split_ifs
    · cases keyTyped beyond (capslockAfter (arrivals.map Prod.snd)) code <;> rfl
    · rfl

/-- A key goes to the queue if it has a character; otherwise only capslock can change. -/
theorem classicKeyboardHandleInterrupt_eq (k : Keyboard) :
    classicKeyboardHandleInterrupt beyond k code =
      match keyTyped beyond k.capslock code with
      | some c => { k with kernel := keyboardPush k.kernel c }
      | none => { k with capslock :=
          if code = classicKeyboardCapslock then !k.capslock else k.capslock } := by
  unfold classicKeyboardHandleInterrupt keyTyped
  by_cases hReleased : code &&& classicKeyboardKeyReleased ≠ 0
  · have hOther : code ≠ classicKeyboardCapslock := fun hCaps => hReleased (by rw [hCaps]; rfl)
    rw [if_pos hReleased, if_pos (Or.inl hReleased)]
    dsimp only
    rw [if_neg hOther]
  by_cases hCaps : code = classicKeyboardCapslock
  · rw [if_neg hReleased, if_pos hCaps, if_pos (Or.inr hCaps)]
    dsimp only
    rw [if_pos hCaps]
  · rw [if_neg hReleased, if_neg hCaps, if_neg (not_or.mpr ⟨hReleased, hCaps⟩)]
    dsimp only
    by_cases hNone : classicKeyboardScancodeToChar beyond k.capslock code = 0
    · rw [if_neg (not_not.mpr hNone), if_pos hNone]
      dsimp only
      rw [if_neg hCaps]
    · rw [if_pos hNone, if_neg hNone]

theorem keyTyped_ne_zero {capslock : Bool} (h : keyTyped beyond capslock code = some c) : c ≠ 0 := by
  unfold keyTyped at h
  dsimp only at h
  split_ifs at h with _ hNone
  rwa [← Option.some.inj h]

/-! ### The queues of the other processes -/

theorem keyboardPush_other (hOther : process ≠ processCurrent k) (c : UInt8) :
    ((keyboardPush k c).records process).keyboard = (k.records process).keyboard := by
  rw [keyboardPush]
  dsimp only
  split_ifs
  · rfl
  · rfl
  · dsimp only [Kernel.storeProcess]
    rw [Function.update_of_ne hOther]

theorem keyboardPop_other (hOther : process ≠ k.sched.process (taskCurrent k)) :
    ((keyboardPop k).2.records process).keyboard = (k.records process).keyboard := by
  rw [keyboardPop]
  dsimp only
  split_ifs
  · rfl
  · rfl
  · dsimp only [Kernel.storeProcess]
    rw [Function.update_of_ne hOther]

/-- The queue of one process. -/
def TypingRun.queue (beyond : UInt8) (s : TypingRun) (process : Nat) : KeyboardRun :=
  ⟨s.keyboard.kernel, typedFor beyond process s.arrivals, s.popped process⟩

/-- Capslock is what the codes have made of it, and every queue holds the keys that its
process has still to read. -/
structure TypingInv (beyond : UInt8) (s : TypingRun) : Prop where
  capslock : s.keyboard.capslock = capslockAfter (s.arrivals.map Prod.snd)
  queues : ∀ process, process ≠ 0 → KeyboardInv process (s.queue beyond process)

theorem KeyboardInv.unchanged {r : KeyboardRun} (h : KeyboardInv process r) (hp : process ≠ 0)
    (kernel : Kernel) (hSame : (kernel.records process).keyboard = (r.kernel.records process).keyboard) :
    KeyboardInv process ⟨kernel, r.typed, r.popped⟩ :=
  h.step hp (show KeyFits r .other from trivial) (KeyboardStep.other r kernel hSame)

theorem TypingInv.scancode (h : TypingInv beyond s) (frame : InterruptFrame) {k : Keyboard}
    (hRoom : (s.pendingFor beyond (processCurrent s.keyboard.kernel)).length < 1024)
    (hHandled : keyboardInterrupt beyond s.keyboard frame code = some k) :
    TypingInv beyond ⟨k, s.arrivals ++ [(processCurrent s.keyboard.kernel, code)], s.popped⟩ := by
  rw [keyboardInterrupt] at hHandled
  split_ifs at hHandled
  obtain rfl := Option.some.inj hHandled
  rw [classicKeyboardHandleInterrupt_eq]
  have hTyped := fun process => typedFor_snoc beyond process s.arrivals
    (processCurrent s.keyboard.kernel) code
  rw [← h.capslock] at hTyped
  -- saving the task leaves every queue as it is
  have hSaved : ∀ process, process ≠ 0 → KeyboardInv process
      ⟨taskCurrentSaveState s.keyboard.kernel frame, typedFor beyond process s.arrivals,
        s.popped process⟩ :=
    fun process hp => (h.queues process hp).unchanged hp _ rfl
  cases hKey : keyTyped beyond s.keyboard.capslock code with
  | none =>
      rw [hKey] at hTyped
      refine ⟨?_, fun process hp => ?_⟩
      · rw [List.map_append, List.map_singleton, capslockAfter_snoc, ← h.capslock]
      · have hNone : typedFor beyond process (s.arrivals ++ [(processCurrent s.keyboard.kernel, code)]) =
            typedFor beyond process s.arrivals := by
          rw [hTyped, ite_self]
          exact List.append_nil _
        unfold TypingRun.queue
        dsimp only
        rw [hNone]
        exact hSaved process hp
  | some c =>
      rw [hKey] at hTyped
      have hCaps : code ≠ classicKeyboardCapslock := fun hCaps => by
        rw [keyTyped, if_pos (Or.inr hCaps)] at hKey
        cases hKey
      refine ⟨?_, fun process hp => ?_⟩
      · have hSame := capslockAfter_snoc (s.arrivals.map Prod.snd) code
        rw [if_neg hCaps, ← h.capslock] at hSame
        dsimp only
        rw [List.map_append, List.map_singleton, hSame]
      · unfold TypingRun.queue
        dsimp only
        rw [hTyped]
        by_cases hFocus : processCurrent s.keyboard.kernel = process
        · rw [if_pos hFocus]
          rw [hFocus] at hRoom
          exact (hSaved process hp).push hp hFocus (keyTyped_ne_zero hKey) hRoom
        · rw [if_neg hFocus, Option.toList_none, List.append_nil]
          have hOther : process ≠ processCurrent (taskCurrentSaveState s.keyboard.kernel frame) :=
            Ne.symm hFocus
          exact (hSaved process hp).unchanged hp _ (keyboardPush_other hOther c)

theorem TypingInv.getkey (h : TypingInv beyond s) (hTask : taskCurrent s.keyboard.kernel ≠ 0) :
    TypingInv beyond
      { keyboard := { s.keyboard with kernel := (keyboardPop s.keyboard.kernel).2 }
        arrivals := s.arrivals
        popped :=
          let process := s.keyboard.kernel.sched.process (taskCurrent s.keyboard.kernel)
          let c := (keyboardPop s.keyboard.kernel).1
          Function.update s.popped process
            (if c = 0 then s.popped process else s.popped process ++ [c]) } := by
  refine ⟨h.capslock, fun process hp => ?_⟩
  unfold TypingRun.queue
  dsimp only
  by_cases hOwner : process = s.keyboard.kernel.sched.process (taskCurrent s.keyboard.kernel)
  · subst hOwner
    rw [Function.update_self]
    exact (h.queues _ hp).pop hTask rfl
  · rw [Function.update_of_ne hOwner]
    exact (h.queues process hp).unchanged hp _ (keyboardPop_other hOwner)

theorem TypingInv.step (h : TypingInv beyond s) (hFits : TypingFits beyond s e)
    (hStep : TypingStep beyond s e t) : TypingInv beyond t := by
  cases hStep with
  | scancode frame code k hHandled => exact h.scancode frame hFits hHandled
  | getkey hTask => exact h.getkey hTask
  | other kernel hSame =>
      exact ⟨h.capslock, fun process hp => (h.queues process hp).unchanged hp kernel (hSame process)⟩

theorem TypingInv.start (hEmpty : ∀ process, (k.records process).keyboard = processInit.keyboard) :
    TypingInv beyond ⟨⟨k, false⟩, [], fun _ => []⟩ :=
  ⟨rfl, fun process _ => KeyboardInv.start (hEmpty process)⟩

end Keys

/-- As long as the keys find room, each process reads what was typed while it had the
focus, in that order and with the capslock of the time, whatever the others did in
between. -/
theorem typing_delivered (beyond : UInt8) (k : Kernel) (events : List TypingEvent) (s : TypingRun)
    (process : Nat) (hProcess : process ≠ 0)
    (hEmpty : ∀ process, (k.records process).keyboard = processInit.keyboard)
    (run : Run (Guarded (TypingStep beyond) (TypingFits beyond)) ⟨⟨k, false⟩, [], fun _ => []⟩
      events s) :
    ReadsTyped beyond process s := by
  have hInv : TypingInv beyond s :=
    run.invariant (TypingInv.start hEmpty) fun _ _ _ h hStep => h.step hStep.1 hStep.2
  obtain ⟨hOrder, hNext⟩ := (hInv.queues process hProcess).popsOldest
  exact ⟨hOrder, hNext⟩

theorem typing_delivered_capslock :
    ∃ s, Run (Guarded (TypingStep 0) (TypingFits 0)) ⟨⟨oneProgram, false⟩, [], fun _ => []⟩
        [.scancode 0x3A, .scancode 0x1E, .getkey] s ∧
      s.popped 4096 = [0x41] ∧ ReadsTyped 0 4096 s := by
  have run : Run (Guarded (TypingStep 0) (TypingFits 0)) ⟨⟨oneProgram, false⟩, [], fun _ => []⟩
      [.scancode 0x3A, .scancode 0x1E, .getkey] _ :=
    ((Run.single ⟨by unfold TypingFits; decide,
        TypingStep.scancode _ (shellFrame 0x3FEFE0) 0x3A _ rfl⟩).snoc
      ⟨by unfold TypingFits; decide, TypingStep.scancode _ (shellFrame 0x3FEFE0) 0x1E _ rfl⟩).snoc
      ⟨trivial, TypingStep.getkey _ (by decide)⟩
  exact ⟨_, run, by decide, typing_delivered 0 oneProgram _ _ 4096 (by decide) (fun _ => rfl) run⟩

end LiebeOS
