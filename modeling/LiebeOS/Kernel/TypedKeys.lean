import LiebeOS.Kernel.SystemCall

/-! From the keyboard into the registers of a program: `liebeos_getkey` through the gate,
in a system in which keys have come for all processes. -/
namespace LiebeOS

open Bytes Transition X86

/-- A system in which nothing has been typed yet. -/
def nothingTyped (k : Kernel) : TypingRun := ⟨⟨k, false⟩, [], fun _ => []⟩

/-- A program asks for a key. -/
def TypingRun.afterGetkey (s : TypingRun) (kernel : Kernel) : TypingRun where
  keyboard := { s.keyboard with kernel := (keyboardPop kernel).2 }
  arrivals := s.arrivals
  popped :=
    let process := kernel.sched.process (taskCurrent kernel)
    let c := (keyboardPop kernel).1
    Function.update s.popped process (if c = 0 then s.popped process else s.popped process ++ [c])

section Getkey

variable {beyond : UInt8} {k : Kernel} {events : List TypingEvent} {s : TypingRun} {process : Nat}

/-- That the task is saved first changes nothing about its keys. -/
theorem typing_saved (frame : InterruptFrame)
    (run : Run (Guarded (TypingStep beyond) (TypingFits beyond)) (nothingTyped k) events s) :
    Run (Guarded (TypingStep beyond) (TypingFits beyond)) (nothingTyped k) (events ++ [.other])
      ⟨{ s.keyboard with kernel := taskCurrentSaveState s.keyboard.kernel frame }, s.arrivals,
        s.popped⟩ :=
  run.snoc ⟨trivial, TypingStep.other s _ fun _ => rfl⟩

theorem taskSaveState_process (k : Kernel) (frame : InterruptFrame) :
    (taskCurrentSaveState k frame).sched.process (taskCurrent k) =
      k.sched.process (taskCurrent k) := by
  change (Function.update k.sched.tasks (taskCurrent k) _ (taskCurrent k)).process = _
  rw [Function.update_self]
  rfl

/-- The key that the kernel answers with is the next one typed, and with it the process has
read one more of what was typed for it. -/
theorem typing_answered (frame : InterruptFrame) (hProcess : process ≠ 0)
    (hEmpty : ∀ process, (k.records process).keyboard = processInit.keyboard)
    (run : Run (Guarded (TypingStep beyond) (TypingFits beyond)) (nothingTyped k) events s)
    (hTask : taskCurrent s.keyboard.kernel ≠ 0)
    (hOwner : s.keyboard.kernel.sched.process (taskCurrent s.keyboard.kernel) = process) :
    let kernel := taskCurrentSaveState s.keyboard.kernel frame
    (keyboardPop kernel).1 = (s.pendingFor beyond process).headD 0 ∧
      Run (Guarded (TypingStep beyond) (TypingFits beyond)) (nothingTyped k)
        (events ++ [.other] ++ [.getkey]) (s.afterGetkey kernel) ∧
      (s.afterGetkey kernel).popped process =
        s.popped process ++ (s.pendingFor beyond process).take 1 := by
  have hSaved := typing_saved frame run
  have hOwner' := (taskSaveState_process s.keyboard.kernel frame).trans hOwner
  obtain ⟨hKey, hNone⟩ := (typing_delivered beyond k _ _ process hProcess hEmpty hSaved).next hTask hOwner'
  refine ⟨hKey, hSaved.snoc ⟨trivial, TypingStep.getkey _ hTask⟩, ?_⟩
  have hPopped : (s.afterGetkey (taskCurrentSaveState s.keyboard.kernel frame)).popped process =
      if (keyboardPop (taskCurrentSaveState s.keyboard.kernel frame)).1 = 0 then s.popped process
      else s.popped process ++ [(keyboardPop (taskCurrentSaveState s.keyboard.kernel frame)).1] := by
    subst hOwner'
    exact Function.update_self ..
  rw [hPopped]
  change _ = s.popped process ++ ((s.pendingFor beyond process).take 1)
  change _ = (s.pendingFor beyond process).headD 0 at hKey
  change (_ ↔ s.pendingFor beyond process = []) at hNone
  rw [hKey] at hNone ⊢
  cases hPending : s.pendingFor beyond process with
  | nil =>
      rw [List.headD_nil, if_pos rfl]
      exact (List.append_nil _).symm
  | cons c rest =>
      rw [hPending] at hNone
      have hSome : c ≠ 0 := fun h => List.cons_ne_nil c rest (hNone.mp h)
      exact if_neg hSome

end Getkey

/-- A program that calls `liebeos_getkey` has in `eax` the next character that was typed
while its process had the focus, or 0 when it has read all of them, and goes on behind its
call with everything else as before. The keys of all processes stay in order. -/
theorem getkey_returns_typed (e : Env Kernel) (handlers : IdtHandlers) (places : KernelPlaces)
    (commands : Nat → Option Isr80hCommand) (c : Isr80hCommands)
    (hRegistered : isr80hRegisterCommands c = some commands)
    (hGetkey : c.getkey = isr80hCommand2Getkey) (link : KernelLinked e handlers places commands)
    (beyond : UInt8) (k : Kernel)
    (hEmpty : ∀ process, (k.records process).keyboard = processInit.keyboard)
    (events : List TypingEvent) (s : TypingRun)
    (run : Run (Guarded (TypingStep beyond) (TypingFits beyond)) (nothingTyped k) events s)
    (cpu : Cpu) (hCode : e.Holds cpu.eip liebeosGetkey) (hCaller : Caller places cpu)
    (hTask : taskCurrent s.keyboard.kernel ≠ 0) (process : Nat) (hProcess : process ≠ 0)
    (hOwner : s.keyboard.kernel.sched.process (taskCurrent s.keyboard.kernel) = process) :
    ∃ t s', e.Reaches ⟨cpu, s.keyboard.kernel⟩ ⟨t, s'.keyboard.kernel⟩ ∧
      CallReturned .getkey cpu (charWord ((s.pendingFor beyond process).headD 0)) t ∧
      (∀ x, OutsideKernel places x → (x + 8 < (cpu.reg .esp).toNat ∨ (cpu.reg .esp).toNat ≤ x) →
        t.mem x = cpu.mem x) ∧
      Run (Guarded (TypingStep beyond) (TypingFits beyond)) (nothingTyped k)
        (events ++ [.other] ++ [.getkey]) s' ∧
      s'.popped process = s.popped process ++ (s.pendingFor beyond process).take 1 := by
  obtain ⟨_, hMemory, hReturns⟩ := systemCall_returns e handlers places commands c hRegistered link
    .getkey cpu s.keyboard.kernel hCode hCaller hTask
  obtain ⟨hKey, hRun, hPopped⟩ := typing_answered (LibraryCall.getkey.frame cpu) hProcess hEmpty run
    hTask hOwner
  have hAnswer : LibraryCall.getkey.handler c (LibraryCall.getkey.frame cpu)
      (LibraryCall.getkey.memory cpu)
      (taskCurrentSaveState s.keyboard.kernel (LibraryCall.getkey.frame cpu)) =
        some (charWord ((s.pendingFor beyond process).headD 0), LibraryCall.getkey.memory cpu,
          (keyboardPop (taskCurrentSaveState s.keyboard.kernel (LibraryCall.getkey.frame cpu))).2) := by
    rw [LibraryCall.handler, hGetkey, isr80hCommand2Getkey, ← hKey]
  obtain ⟨t, hReaches, hReturned, hSame⟩ := hReturns _ _ _ hAnswer
    (LibraryCall.getkey.memory_words cpu).2.2 (LibraryCall.getkey.memory_stack hCaller)
  exact ⟨t, s.afterGetkey _, hReaches, hReturned, fun x hx hOut =>
    (hSame x hx).trans (hMemory x hx hOut), hRun, hPopped⟩

/-- Here it is `liebeos_getkey` that stands at 0x400100. -/
def getkeyEnv : Env Kernel :=
  { oneBlockEnv with code := fun a =>
      (isr80hWrapper 0x105000)[(a - 0x103000).toNat]?.or liebeosGetkey[(a - 0x400100).toNat]? }

theorem getkeyEnv_linked : KernelLinked getkeyEnv oneBlockHandlers oneBlockPlaces
    fun n => oneBlockCommands.list[n]? :=
  { oneBlockEnv_linked with wrapper := Env.holds_of_code (by decide) }

/-- With capslock an A has been typed. -/
theorem getkey_returns_typed_capslock :
    ∃ (s s' : TypingRun) (t : Cpu), Run (Guarded (TypingStep 0) (TypingFits 0)) (nothingTyped oneProgram)
        [.scancode 0x3A, .scancode 0x1E] s ∧
      getkeyEnv.Reaches ⟨mallocCaller, s.keyboard.kernel⟩ ⟨t, s'.keyboard.kernel⟩ ∧
      CallReturned .getkey mallocCaller 0x41 t ∧ s'.popped 4096 = [0x41] := by
  have run : Run (Guarded (TypingStep 0) (TypingFits 0)) (nothingTyped oneProgram)
      [.scancode 0x3A, .scancode 0x1E] _ :=
    (Run.single ⟨by unfold TypingFits; decide,
      TypingStep.scancode _ (shellFrame 0x3FEFE0) 0x3A _ rfl⟩).snoc
        ⟨by unfold TypingFits; decide, TypingStep.scancode _ (shellFrame 0x3FEFE0) 0x1E _ rfl⟩
  obtain ⟨t, s', hReaches, hReturned, _, _, hPopped⟩ := getkey_returns_typed getkeyEnv
    oneBlockHandlers oneBlockPlaces _ oneBlockCommands (isr80hRegisterCommands_eq _) rfl
    getkeyEnv_linked 0 oneProgram (fun _ => rfl) _ _ run mallocCaller (Env.holds_of_code (by decide))
    mallocCaller_room (by decide) 4096 (by decide) (by decide)
  exact ⟨_, s', t, run, hReaches, hReturned, hPopped⟩

end LiebeOS
