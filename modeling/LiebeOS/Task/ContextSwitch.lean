import LiebeOS.Lib.X86
import LiebeOS.Task.Task

/-! Saving an interrupt frame into a task and going back to user mode, from
`task.c`, `task.h`, `idt.h` and `task.asm`. -/
namespace LiebeOS

open Bytes X86

/-- `struct interrupt_frame`, as `pushad` and the processor leave it. -/
structure InterruptFrame where
  edi : UInt32
  esi : UInt32
  ebp : UInt32
  reserved : UInt32
  ebx : UInt32
  edx : UInt32
  ecx : UInt32
  eax : UInt32
  ip : UInt32
  cs : UInt32
  flags : UInt32
  esp : UInt32
  ss : UInt32

/-- The packed layout of `struct registers`. -/
def Registers.words (r : Registers) : List UInt32 :=
  [r.edi, r.esi, r.ebp, r.ebx, r.edx, r.ecx, r.eax, r.ip, r.cs, r.flags, r.esp, r.ss].map
    UInt32.ofNat

def taskSaveState (task : Task) (frame : InterruptFrame) : Task :=
  { task with registers :=
      { ip := frame.ip.toNat
        cs := frame.cs.toNat
        flags := frame.flags.toNat
        esp := frame.esp.toNat
        ss := frame.ss.toNat
        eax := frame.eax.toNat
        ebp := frame.ebp.toNat
        ebx := frame.ebx.toNat
        ecx := frame.ecx.toNat
        edi := frame.edi.toNat
        edx := frame.edx.toNat
        esi := frame.esi.toNat } }

/-- `task_return` up to the call -/
def taskReturnPushes : List Instr :=
  [ .movReg .ebp .esp,
    .load .ebx .ebp 4,
    .pushMem .ebx 44,
    .pushMem .ebx 40,
    .pushf,
    .popReg .eax,
    .orImm .eax 0x200,
    .pushReg .eax,
    .pushMem .ebx 32,
    .pushMem .ebx 28,
    .loadAx .ebx 44,
    .movSeg .ds,
    .movSeg .es,
    .movSeg .fs,
    .movSeg .gs,
    .pushMem .ebp 4 ]

/-- The fields that `restore_general_purpose_registers` loads, `ebx` last. -/
def restoreFields : List Instr :=
  [ .load .edi .ebx 0,
    .load .esi .ebx 4,
    .load .ebp .ebx 8,
    .load .edx .ebx 16,
    .load .ecx .ebx 20,
    .load .eax .ebx 24,
    .load .ebx .ebx 12 ]

/-- `restore_general_purpose_registers` up to its `ret` -/
def restoreLoads : List Instr :=
  [.pushReg .ebp, .movReg .ebp .esp, .load .ebx .ebp 8] ++ restoreFields ++ [.popReg .ebp]

def restoreGeneralPurposeRegisters : List Instr := restoreLoads ++ [.ret]

/-- The code of `task.asm`: `task_return`, then at 19
`restore_general_purpose_registers`. -/
def taskAsm : List Instr :=
  taskReturnPushes ++ [.call 19, .addImm .esp 4, .iretd] ++ restoreGeneralPurposeRegisters

/-- The kernel calls `task_return` with a pointer to the registers. -/
def enterTaskReturn (text back regs : UInt32) (kernel : Cpu) : Cpu :=
  { (kernel.push regs).push back with eip := text }

/-- What is in the processor after the final `iretd`, which is instruction
number 31 of the run. -/
def taskReturn (text back regs : UInt32) (kernel : Cpu) : Option Cpu :=
  run text taskAsm 31 (enterTaskReturn text back regs kernel)

/-- The general registers, except for the base pointer and the stack pointer,
are those of the frame. -/
structure GeneralRestored (u : Cpu) (f : InterruptFrame) : Prop where
  edi : u.reg .edi = f.edi
  esi : u.reg .esi = f.esi
  ebx : u.reg .ebx = f.ebx
  edx : u.reg .edx = f.edx
  ecx : u.reg .ecx = f.ecx
  eax : u.reg .eax = f.eax

/-- User mode continues where the frame was taken. Every register comes from
the frame, so none holds a value of the kernel. -/
structure ContextRestored (u : Cpu) (f : InterruptFrame) : Prop extends GeneralRestored u f where
  ebp : u.reg .ebp = f.ebp
  eip : u.eip = f.ip
  cs : u.seg .cs = f.cs.toUInt16
  esp : u.reg .esp = f.esp
  ss : u.seg .ss = f.ss.toUInt16

/-! ### What the code does -/

/-- The words that `task_save_state` leaves, in the order of the record. -/
def InterruptFrame.saved (f : InterruptFrame) : List UInt32 :=
  [f.edi, f.esi, f.ebp, f.ebx, f.edx, f.ecx, f.eax, f.ip, f.cs, f.flags, f.esp, f.ss]

theorem taskSaveState_words (task : Task) (frame : InterruptFrame) :
    (taskSaveState task frame).registers.words = frame.saved := by
  simp [Registers.words, taskSaveState, InterruptFrame.saved]

section Return

variable {text base regs top back : UInt32} {size room : Nat} {f : InterruptFrame} {s : Cpu}
  {stack : List UInt32}

theorem GeneralRestored.keep {u u' : Cpu} (h : GeneralRestored u f)
    (hRegs : ∀ r, r ≠ .esp → r ≠ .ebp → u'.reg r = u.reg r) : GeneralRestored u' f where
  edi := (hRegs .edi (by decide) (by decide)).trans h.edi
  esi := (hRegs .esi (by decide) (by decide)).trans h.esi
  ebx := (hRegs .ebx (by decide) (by decide)).trans h.ebx
  edx := (hRegs .edx (by decide) (by decide)).trans h.edx
  ecx := (hRegs .ecx (by decide) (by decide)).trans h.ecx
  eax := (hRegs .eax (by decide) (by decide)).trans h.eax

/-- Between its first two loads and its call, `task_return` has the record in
`ebx` and its own frame in `ebp`. -/
structure Returning (base regs top : UInt32) (f : InterruptFrame) (s : Cpu) (room : Nat)
    (stack : List UInt32) : Prop extends View base regs f.saved s room stack where
  ebx : s.reg .ebx = regs
  ebp : s.reg .ebp = top

theorem Returning.after (h : Returning base regs top f s room stack) {i : Instr}
    (hMem : i.KeepsMem) (hEsp : i.Keeps .esp) (hEbx : i.Keeps .ebx) (hEbp : i.Keeps .ebp) :
    Returning base regs top f (exec text i s) room stack :=
  ⟨h.toView.after hMem hEsp text, (exec_reg hEbx text s).trans h.ebx,
    (exec_reg hEbp text s).trans h.ebp⟩

/-- The field at byte offset `disp` is pushed. -/
theorem Returning.pushField (h : Returning base regs top f s (room + 1) stack)
    (hApart : Apart base size regs f.saved) (hRoom : room < size) {k : Nat} (hk : k < 12)
    {disp : UInt32} (hDisp : 4 * UInt32.ofNat k = disp) :
    Returning base regs top f (exec text (.pushMem .ebx disp) s) room
      (f.saved.get ⟨k, hk⟩ :: stack) := by
  have hLoad : load32 s.mem (s.reg .ebx + disp) = f.saved.get ⟨k, hk⟩ := by
    rw [h.ebx, ← hDisp]
    exact h.fields.get (show k < f.saved.length from hk)
  exact ⟨h.toView.pushMem hApart hRoom hLoad text, (exec_reg rfl text s).trans h.ebx,
    (exec_reg rfl text s).trans h.ebp⟩

theorem Returning.pushReg (h : Returning base regs top f s (room + 1) stack)
    (hApart : Apart base size regs f.saved) (hRoom : room < size) (src : Reg) :
    Returning base regs top f (exec text (.pushReg src) s) room (s.reg src :: stack) :=
  ⟨(h.toView.push hApart hRoom (s.reg src)).keep rfl rfl, (exec_reg rfl text s).trans h.ebx,
    (exec_reg rfl text s).trans h.ebp⟩

theorem Returning.pushf (h : Returning base regs top f s (room + 1) stack)
    (hApart : Apart base size regs f.saved) (hRoom : room < size) :
    Returning base regs top f (exec text .pushf s) room (s.eflags :: stack) :=
  ⟨(h.toView.push hApart hRoom s.eflags).keep rfl rfl, (exec_reg rfl text s).trans h.ebx,
    (exec_reg rfl text s).trans h.ebp⟩

theorem Returning.popEax {v : UInt32} (h : Returning base regs top f s room (v :: stack)) :
    Returning base regs top f (exec text (.popReg .eax) s) (room + 1) stack :=
  ⟨h.toView.pop (by simp [exec]) (by simp [exec]), (exec_reg rfl text s).trans h.ebx,
    (exec_reg rfl text s).trans h.ebp⟩

/-- The first two instructions. -/
theorem returning_entered (text : UInt32)
    (h : View base regs f.saved s room (back :: regs :: stack)) :
    Returning base regs (s.reg .esp) f
      (exec text (.load .ebx .ebp 4) (exec text (.movReg .ebp .esp) s)) room
      (back :: regs :: stack) := by
  have hFirst : (exec text (.movReg .ebp .esp) s).reg .ebp = s.reg .esp := s.setReg_self .ebp _
  have hArgument : load32 (exec text (.movReg .ebp .esp) s).mem
      ((exec text (.movReg .ebp .esp) s).reg .ebp + 4) = regs := by
    rw [hFirst, exec_mem rfl text s]
    exact h.stack.2.1
  have hView := h.after (i := .movReg .ebp .esp) rfl rfl text
  generalize exec text (.movReg .ebp .esp) s = s1 at hFirst hArgument hView ⊢
  refine ⟨hView.after rfl rfl text, ?_, (exec_reg rfl text s1).trans hFirst⟩
  exact (s1.setReg_self .ebx _).trans hArgument

/-- What `task_return` has pushed before it restores the general registers. -/
theorem taskReturnPushes_view (text : UInt32)
    (h : View base regs f.saved s 8 [back, regs])
    (hApart : Apart base 10 regs f.saved) :
    ∃ flags, Returning base regs (s.reg .esp) f (execAll text taskReturnPushes s) 2
      [regs, f.ip, f.cs, flags, f.esp, f.ss, back, regs] := by
  simp only [taskReturnPushes, execAll_cons, execAll_nil]
  have r2 := returning_entered text h
  generalize exec text (.load .ebx .ebp 4) (exec text (.movReg .ebp .esp) s) = s2 at r2 ⊢
  have r3 : Returning base regs (s.reg .esp) f (exec text (.pushMem .ebx 44) s2) 7
      [f.ss, back, regs] := r2.pushField hApart (by decide) (show 11 < 12 by decide) rfl
  generalize exec text (.pushMem .ebx 44) s2 = s3 at r3 ⊢
  have r4 : Returning base regs (s.reg .esp) f (exec text (.pushMem .ebx 40) s3) 6
      [f.esp, f.ss, back, regs] := r3.pushField hApart (by decide) (show 10 < 12 by decide) rfl
  generalize exec text (.pushMem .ebx 40) s3 = s4 at r4 ⊢
  -- The flags of the kernel, with interrupts on, take the place of the saved ones.
  have r5 : Returning base regs (s.reg .esp) f (exec text (.orImm .eax 0x200)
      (exec text (.popReg .eax) (exec text .pushf s4))) 6 [f.esp, f.ss, back, regs] :=
    ((r4.pushf hApart (by decide)).popEax).after rfl rfl rfl rfl
  generalize exec text (.orImm .eax 0x200) (exec text (.popReg .eax) (exec text .pushf s4)) = s5
    at r5 ⊢
  have r6 : Returning base regs (s.reg .esp) f (exec text (.pushReg .eax) s5) 5
      [s5.reg .eax, f.esp, f.ss, back, regs] := r5.pushReg hApart (by decide) .eax
  generalize exec text (.pushReg .eax) s5 = s6 at r6 ⊢
  have r7 : Returning base regs (s.reg .esp) f (exec text (.pushMem .ebx 32) s6) 4
      [f.cs, s5.reg .eax, f.esp, f.ss, back, regs] :=
    r6.pushField hApart (by decide) (show 8 < 12 by decide) rfl
  generalize exec text (.pushMem .ebx 32) s6 = s7 at r7 ⊢
  have r8 : Returning base regs (s.reg .esp) f (exec text (.pushMem .ebx 28) s7) 3
      [f.ip, f.cs, s5.reg .eax, f.esp, f.ss, back, regs] :=
    r7.pushField hApart (by decide) (show 7 < 12 by decide) rfl
  generalize exec text (.pushMem .ebx 28) s7 = s8 at r8 ⊢
  have r9 : Returning base regs (s.reg .esp) f (exec text (.movSeg .gs) (exec text (.movSeg .fs)
      (exec text (.movSeg .es) (exec text (.movSeg .ds) (exec text (.loadAx .ebx 44) s8))))) 3
      [f.ip, f.cs, s5.reg .eax, f.esp, f.ss, back, regs] :=
    ((((r8.after rfl rfl rfl rfl).after rfl rfl rfl rfl).after rfl rfl rfl rfl).after
      rfl rfl rfl rfl).after rfl rfl rfl rfl
  generalize exec text (.movSeg .gs) (exec text (.movSeg .fs) (exec text (.movSeg .es)
    (exec text (.movSeg .ds) (exec text (.loadAx .ebx 44) s8)))) = s9 at r9 ⊢
  have hArgument : load32 s9.mem (s9.reg .ebp + 4) = regs := by
    have hSlot : s9.reg .ebp + 4 = s9.reg .esp + 4 + 4 + 4 + 4 + 4 + 4 := by
      rw [r9.ebp, r9.esp, h.esp]
      grind
    rw [hSlot]
    exact r9.stack.2.2.2.2.2.2.1
  exact ⟨s5.reg .eax, r9.toView.pushMem hApart (by decide) hArgument text,
    (exec_reg rfl text s9).trans r9.ebx, (exec_reg rfl text s9).trans r9.ebp⟩

/-- The field at byte offset `disp`, loaded by instruction `j`, stays in its
register until the end. -/
theorem restoreFields_reg (h : View base regs f.saved s room stack) (hEbx : s.reg .ebx = regs)
    {k j : Nat} (hk : k < 12) {disp : UInt32} (hDisp : 4 * UInt32.ofNat k = disp) {dst : Reg}
    (hAt : restoreFields[j]? = some (.load dst .ebx disp))
    (hMem : ∀ i ∈ restoreFields.take j, i.KeepsMem)
    (hEsp : ∀ i ∈ restoreFields.take j, i.Keeps .esp)
    (hBase : ∀ i ∈ restoreFields.take j, i.Keeps .ebx)
    (hRest : ∀ i ∈ restoreFields.drop (j + 1), i.Keeps dst) :
    (execAll text restoreFields s).reg dst = f.saved.get ⟨k, hk⟩ := by
  have hView := h.afterAll (restoreFields.take j) hMem hEsp text
  have hRegs := (execAll_reg text hBase s).trans hEbx
  rw [execAll_at text hAt hRest s]
  generalize execAll text (restoreFields.take j) s = u at hView hRegs ⊢
  have hLoad : load32 u.mem (u.reg .ebx + disp) = f.saved.get ⟨k, hk⟩ := by
    rw [hRegs, ← hDisp]
    exact hView.fields.get (show k < f.saved.length from hk)
  exact (u.setReg_self dst _).trans hLoad

theorem restoreFields_restored (text : UInt32) (h : View base regs f.saved s room stack)
    (hEbx : s.reg .ebx = regs) : GeneralRestored (execAll text restoreFields s) f where
  edi := restoreFields_reg h hEbx (k := 0) (j := 0) (by decide) rfl rfl
    (by decide) (by decide) (by decide) (by decide)
  esi := restoreFields_reg h hEbx (k := 1) (j := 1) (by decide) rfl rfl
    (by decide) (by decide) (by decide) (by decide)
  edx := restoreFields_reg h hEbx (k := 4) (j := 3) (by decide) rfl rfl
    (by decide) (by decide) (by decide) (by decide)
  ecx := restoreFields_reg h hEbx (k := 5) (j := 4) (by decide) rfl rfl
    (by decide) (by decide) (by decide) (by decide)
  eax := restoreFields_reg h hEbx (k := 6) (j := 5) (by decide) rfl rfl
    (by decide) (by decide) (by decide) (by decide)
  ebx := restoreFields_reg h hEbx (k := 3) (j := 6) (by decide) rfl rfl
    (by decide) (by decide) (by decide) (by decide)

/-- The general registers come back, but the base pointer is popped off the
stack where `restore_general_purpose_registers` had put the caller's. -/
theorem restoreLoads_restored (text : UInt32)
    (h : View base regs f.saved s (room + 1) (back :: regs :: stack))
    (hApart : Apart base size regs f.saved) (hRoom : room < size) :
    View base regs f.saved (execAll text restoreLoads s) (room + 1) (back :: regs :: stack) ∧
      GeneralRestored (execAll text restoreLoads s) f ∧
      (execAll text restoreLoads s).reg .ebp = s.reg .ebp := by
  rw [restoreLoads, execAll_append, execAll_append]
  simp only [execAll_cons, execAll_nil]
  have v1 : View base regs f.saved (exec text (.pushReg .ebp) s) room
      (s.reg .ebp :: back :: regs :: stack) := (h.push hApart hRoom (s.reg .ebp)).keep rfl rfl
  generalize exec text (.pushReg .ebp) s = s1 at v1 ⊢
  have v2 := v1.after (i := .movReg .ebp .esp) rfl rfl text
  have hEbp : (exec text (.movReg .ebp .esp) s1).reg .ebp =
      (exec text (.movReg .ebp .esp) s1).reg .esp :=
    (s1.setReg_self .ebp _).trans (exec_reg (i := .movReg .ebp .esp) rfl text s1).symm
  generalize exec text (.movReg .ebp .esp) s1 = s2 at v2 hEbp ⊢
  have v3 := v2.after (i := .load .ebx .ebp 8) rfl rfl text
  have hEbx : (exec text (.load .ebx .ebp 8) s2).reg .ebx = regs := by
    have hSlot : s2.reg .ebp + 8 = s2.reg .esp + 4 + 4 := by
      rw [hEbp]
      grind
    have hArgument : load32 s2.mem (s2.reg .ebp + 8) = regs := by
      rw [hSlot]
      exact v2.stack.2.2.1
    exact (s2.setReg_self .ebx _).trans hArgument
  generalize exec text (.load .ebx .ebp 8) s2 = s3 at v3 hEbx ⊢
  have v4 := v3.afterAll restoreFields (by decide) (by decide) text
  have hGeneral := restoreFields_restored text v3 hEbx
  generalize execAll text restoreFields s3 = s4 at v4 hGeneral ⊢
  refine ⟨v4.pop (by simp [exec]) (by simp [exec]), hGeneral.keep fun r hEsp hEbp => ?_, ?_⟩
  · exact exec_reg (i := .popReg .ebp) (decide_eq_true ⟨hEsp, hEbp⟩) text s4
  · have hTop : s4.slot 0 = s.reg .ebp := by
      have hAddress : s4.reg .esp + 4 * 0 = s4.reg .esp := by grind
      rw [Cpu.slot, hAddress]
      exact v4.stack.1
    exact ((s4.dropWords 1).setReg_self .ebp _).trans hTop

/-- The frame that `iretd` pops. -/
theorem iret_user {flags : UInt32} (h : View base regs f.saved s room
      (f.ip :: f.cs :: flags :: f.esp :: f.ss :: stack))
    (hKernel : Cpu.rpl (s.seg .cs) = 0) :
    s.iret.eip = f.ip ∧ s.iret.seg .cs = f.cs.toUInt16 ∧
      (∀ r, r ≠ .esp → s.iret.reg r = s.reg r) ∧
      ((0 < Cpu.rpl f.cs.toUInt16 ∧ s.iret.reg .esp = f.esp ∧
          s.iret.seg .ss = f.ss.toUInt16) ∨
        (¬ 0 < Cpu.rpl f.cs.toUInt16 ∧ s.iret.reg .esp = s.reg .esp + 12 ∧
          s.iret.seg .ss = s.seg .ss)) := by
  have hSlot : ∀ k (hk : k < 5), s.slot (UInt32.ofNat k) =
      [f.ip, f.cs, flags, f.esp, f.ss].get ⟨k, hk⟩ := by
    intro k hk
    have hWord := h.stack.get (k := k) (by simp only [List.length_cons]; omega)
    rw [Cpu.slot, hWord]
    match k, hk with
    | 0, _ | 1, _ | 2, _ | 3, _ | 4, _ => rfl
  have hIp : s.slot 0 = f.ip := hSlot 0 (by decide)
  have hCs : s.slot 1 = f.cs := hSlot 1 (by decide)
  have hEsp : s.slot 3 = f.esp := hSlot 3 (by decide)
  have hSs : s.slot 4 = f.ss := hSlot 4 (by decide)
  unfold Cpu.iret
  simp only [hIp, hCs, hEsp, hSs, hKernel]
  by_cases hOuter : 0 < Cpu.rpl f.cs.toUInt16
  · rw [if_pos hOuter]
    exact ⟨rfl, by simp, fun r hr => by simp [hr], Or.inl ⟨hOuter, by simp, by simp⟩⟩
  · rw [if_neg hOuter]
    exact ⟨rfl, by simp, fun r hr => by simp [hr], Or.inr ⟨hOuter, by simp, by simp⟩⟩

/-- The first sixteen instructions and the call. -/
theorem taskReturn_call (h : View base regs f.saved s 8 [back, regs])
    (hApart : Apart base 10 regs f.saved) (hEip : s.eip = text) (n : Nat) :
    ∃ flags s', run text taskAsm (17 + n) s = run text taskAsm n s' ∧ s'.eip = text + 19 ∧
      View base regs f.saved s' 1
        [text + 17, regs, f.ip, f.cs, flags, f.esp, f.ss, back, regs] ∧
      s'.reg .ebp = s.reg .esp ∧ s'.seg .cs = s.seg .cs ∧ s'.seg .ss = s.seg .ss := by
  obtain ⟨flags, hReturning⟩ := taskReturnPushes_view text h hApart
  obtain ⟨hRun, hEnd⟩ := run_sequential (k := 0) text taskAsm taskReturnPushes (by decide) (by rw [hEip]; simp)
    (by decide) (by decide) (1 + n)
  have hSegs : (execAll text taskReturnPushes s).seg .cs = s.seg .cs ∧
      (execAll text taskReturnPushes s).seg .ss = s.seg .ss :=
    ⟨execAll_seg text (by decide) s, execAll_seg text (by decide) s⟩
  generalize execAll text taskReturnPushes s = u at hReturning hRun hEnd hSegs
  have hCall : step text taskAsm u = some (exec text (.call 19) u) :=
    step_at (k := 16) hEnd rfl
  have hAt : u.eip = text + 16 := hEnd
  have hBack : u.eip + 1 = text + 17 := by
    rw [hAt]
    grind
  refine ⟨flags, exec text (.call 19) u, ?_, rfl, ?_, ?_, ?_⟩
  · rw [show 17 + n = taskReturnPushes.length + (1 + n) by rw [← Nat.add_assoc]; rfl, hRun,
      Nat.add_comm 1 n, run_succ n hCall]
  · rw [← hBack]
    exact (hReturning.toView.push hApart (by decide) (u.eip + 1)).keep rfl rfl
  · exact (exec_reg rfl text u).trans hReturning.ebp
  · exact ⟨(exec_seg rfl text u).trans hSegs.1, (exec_seg rfl text u).trans hSegs.2⟩

/-- From the call to the end. -/
theorem taskReturn_restore {flags : UInt32} (h : View base regs f.saved s 1
      [text + 17, regs, f.ip, f.cs, flags, f.esp, f.ss, back, regs])
    (hApart : Apart base 10 regs f.saved) (hEip : s.eip = text + 19) :
    ∃ s', run text taskAsm 14 s = some s'.iret ∧ GeneralRestored s' f ∧
      View base regs f.saved s' 3 [f.ip, f.cs, flags, f.esp, f.ss, back, regs] ∧
      s'.reg .ebp = s.reg .ebp ∧ s'.seg .cs = s.seg .cs ∧ s'.seg .ss = s.seg .ss := by
  obtain ⟨hView, hGeneral, hEbp⟩ := restoreLoads_restored text h hApart (by decide)
  obtain ⟨hRun, hEnd⟩ := run_sequential (k := 19) text taskAsm restoreLoads (by decide) hEip (by decide) (by decide) 3
  have hSegs : (execAll text restoreLoads s).seg .cs = s.seg .cs ∧
      (execAll text restoreLoads s).seg .ss = s.seg .ss :=
    ⟨execAll_seg text (by decide) s, execAll_seg text (by decide) s⟩
  generalize execAll text restoreLoads s = u at hView hGeneral hEbp hRun hEnd hSegs
  have hRet : step text taskAsm u = some (exec text .ret u) := step_at (k := 30) hEnd rfl
  have hTop : (exec text .ret u).eip = text + 17 := by
    have hAddress : u.reg .esp + 4 * 0 = u.reg .esp := by grind
    change u.slot 0 = text + 17
    rw [Cpu.slot, hAddress]
    exact hView.stack.1
  have hView2 : View base regs f.saved (exec text .ret u) 2
      [regs, f.ip, f.cs, flags, f.esp, f.ss, back, regs] :=
    hView.pop (by simp [exec]) (by simp [exec])
  have hGeneral2 : GeneralRestored (exec text .ret u) f :=
    hGeneral.keep fun r hEsp _ => exec_reg (i := .ret) (decide_eq_true hEsp) text u
  have hEbp2 := (exec_reg (i := .ret) (r := .ebp) rfl text u).trans hEbp
  have hSegs2 : (exec text .ret u).seg .cs = s.seg .cs ∧ (exec text .ret u).seg .ss = s.seg .ss :=
    hSegs
  generalize exec text .ret u = v at hRet hTop hView2 hGeneral2 hEbp2 hSegs2
  have hAdd : step text taskAsm v = some (exec text (.addImm .esp 4) v) :=
    step_at (k := 17) hTop rfl
  have hIret : step text taskAsm (exec text (.addImm .esp 4) v) =
      some (exec text (.addImm .esp 4) v).iret := by
    have hAt : (exec text (.addImm .esp 4) v).eip = text + 18 := by
      rw [exec_eip rfl, hTop]
      grind
    exact step_at (i := .iretd) hAt rfl
  refine ⟨exec text (.addImm .esp 4) v, ?_, ?_, ?_, ?_, hSegs2⟩
  · rw [show 14 = restoreLoads.length + 3 from rfl, hRun, run_succ 2 hRet, run_succ 1 hAdd,
      run_succ 0 hIret]
    rfl
  · exact hGeneral2.keep fun r hEsp _ =>
      exec_reg (i := .addImm .esp 4) (decide_eq_true hEsp) text v
  · exact hView2.pop rfl (v.setReg_self .esp _)
  · exact (exec_reg rfl text v).trans hEbp2

end Return

/-- The words that `task_return` finds when it is entered. -/
theorem enterTaskReturn_view {kernel : Cpu} {f : InterruptFrame} (text back : UInt32)
    {regs : UInt32}
    (hSaved : Words kernel.mem regs f.saved)
    (hApart : Apart (kernel.reg .esp - 40) 10 regs f.saved) :
    View (kernel.reg .esp - 40) regs f.saved (enterTaskReturn text back regs kernel) 8
      [back, regs] := by
  have hKernel : View (kernel.reg .esp - 40) regs f.saved kernel 10 [] := by
    refine ⟨?_, by decide, trivial, hSaved⟩
    have hTop : (4 : UInt32) * UInt32.ofNat 10 = 40 := rfl
    rw [hTop]
    grind
  exact ((hKernel.push hApart (by decide) regs).push hApart (by decide) back).keep rfl rfl

/-- What the processor holds when user mode resumes. -/
theorem taskReturn_user (text back regs : UInt32) {f : InterruptFrame} {kernel : Cpu}
    (hSaved : Words kernel.mem regs f.saved)
    (hApart : Apart (kernel.reg .esp - 40) 10 regs f.saved)
    (hKernel : Cpu.rpl (kernel.seg .cs) = 0) :
    ∃ u, taskReturn text back regs kernel = some u ∧ GeneralRestored u f ∧
      u.reg .ebp = kernel.reg .esp - 8 ∧ u.eip = f.ip ∧ u.seg .cs = f.cs.toUInt16 ∧
      ((0 < Cpu.rpl f.cs.toUInt16 ∧ u.reg .esp = f.esp ∧ u.seg .ss = f.ss.toUInt16) ∨
        (¬ 0 < Cpu.rpl f.cs.toUInt16 ∧ u.reg .esp = kernel.reg .esp - 16 ∧
          u.seg .ss = kernel.seg .ss)) := by
  have hEnter := enterTaskReturn_view text back hSaved hApart
  obtain ⟨flags, s, hCall, hEip, hView, hEbp, hCs, hSs⟩ :=
    taskReturn_call hEnter hApart rfl 14
  obtain ⟨s', hRestore, hGeneral, hView', hEbp', hCs', hSs'⟩ :=
    taskReturn_restore hView hApart hEip
  have hKernel' : Cpu.rpl (s'.seg .cs) = 0 := by
    rw [hCs', hCs]
    exact hKernel
  obtain ⟨hIp, hUserCs, hRegs, hStack⟩ := iret_user hView' hKernel'
  have hEntered : (enterTaskReturn text back regs kernel).reg .esp = kernel.reg .esp - 8 := by
    have hRoom : (4 : UInt32) * UInt32.ofNat 8 = 32 := rfl
    rw [hEnter.esp, hRoom]
    grind
  have hPopped : s'.reg .esp + 12 = kernel.reg .esp - 16 := by
    have hRoom : (4 : UInt32) * UInt32.ofNat 3 = 12 := rfl
    rw [hView'.esp, hRoom]
    grind
  have hSsKernel : s'.seg .ss = kernel.seg .ss := hSs'.trans hSs
  rw [hPopped, hSsKernel] at hStack
  refine ⟨s'.iret, hCall.trans hRestore, hGeneral.keep fun r hEsp _ => hRegs r hEsp, ?_, hIp,
    hUserCs, hStack⟩
  rw [hRegs .ebp (by decide), hEbp', hEbp, hEntered]

/-- Going back to user mode restores the frame exactly when its base pointer
happens to be the stack pointer with which the kernel entered `task_return`,
and the frame was taken in user mode: the base pointer of the task is never
put back, whatever was saved. -/
theorem taskReturn_restored_iff (text back regs : UInt32) (task : Task) (f : InterruptFrame)
    (kernel : Cpu) (hSaved : Words kernel.mem regs (taskSaveState task f).registers.words)
    (hApart : Apart (kernel.reg .esp - 40) 10 regs f.saved)
    (hKernel : Cpu.rpl (kernel.seg .cs) = 0) :
    (∃ u, taskReturn text back regs kernel = some u ∧ ContextRestored u f) ↔
      f.ebp = kernel.reg .esp - 8 ∧
        (0 < Cpu.rpl f.cs.toUInt16 ∨
          (f.esp = kernel.reg .esp - 16 ∧ f.ss.toUInt16 = kernel.seg .ss)) := by
  rw [taskSaveState_words] at hSaved
  obtain ⟨user, hRun, hGeneral, hEbp, hIp, hCs, hStack⟩ :=
    taskReturn_user text back regs hSaved hApart hKernel
  constructor
  · rintro ⟨u, hu, h⟩
    obtain rfl : user = u := Option.some.inj (hRun.symm.trans hu)
    refine ⟨h.ebp.symm.trans hEbp, ?_⟩
    rcases hStack with ⟨hOuter, _, _⟩ | ⟨_, hEsp, hSs⟩
    · exact Or.inl hOuter
    · exact Or.inr ⟨h.esp.symm.trans hEsp, h.ss.symm.trans hSs⟩
  · rintro ⟨hFrameEbp, hFrame⟩
    refine ⟨user, hRun, hGeneral, hEbp.trans hFrameEbp.symm, hIp, hCs, ?_, ?_⟩
    · rcases hStack with ⟨_, hEsp, _⟩ | ⟨hInner, hEsp, _⟩
      · exact hEsp
      · rcases hFrame with hOuter | ⟨hFrameEsp, _⟩
        · exact absurd hOuter hInner
        · exact hEsp.trans hFrameEsp.symm
    · rcases hStack with ⟨_, _, hSs⟩ | ⟨hInner, _, hSs⟩
      · exact hSs
      · rcases hFrame with hOuter | ⟨_, hFrameSs⟩
        · exact absurd hOuter hInner
        · exact hSs.trans hFrameSs.symm

/-! ### A frame of the shell -/

/-- A frame of a program that runs on its stack with base pointer `ebp`. -/
def shellFrame (ebp : UInt32) : InterruptFrame where
  edi := 1
  esi := 2
  ebp := ebp
  reserved := 0x5FFFEC
  ebx := 3
  edx := 4
  ecx := 5
  eax := 6
  ip := 0x400010
  cs := 0x1b
  flags := 0x202
  esp := 0x3FEFC0
  ss := 0x23

def shellTask : Task := taskInit 0x1002000 0x1000000 0x400000

/-- The kernel is about to return to a task whose record is at 0x01010000. -/
def kernelAbout (f : InterruptFrame) : Cpu where
  reg := fun r => if r = .esp then 0x5FFF80 else 0
  seg := fun r => if r = .cs then 8 else 0x10
  eflags := 2
  eip := 0x100400
  mem := storeWords (fun _ => 0) 0x1010004 f.saved

theorem kernelAbout_saved (f : InterruptFrame) :
    Words (kernelAbout f).mem 0x1010004 (taskSaveState shellTask f).registers.words := by
  rw [taskSaveState_words]
  exact words_storeWords _ _ (show 12 < 1073741823 by decide)

theorem kernelAbout_apart (f : InterruptFrame) :
    Apart ((kernelAbout f).reg .esp - 40) 10 0x1010004 f.saved where
  low := show 4 * 10 ≤ ((0x1010004 : UInt32) - (0x5FFF80 - 40)).toNat by decide
  high := show ((0x1010004 : UInt32) - (0x5FFF80 - 40)).toNat + 4 * 12 ≤ 4294967296 by decide

/-- A frame whose base pointer the kernel's stack pointer happens to match. -/
theorem taskReturn_restored_matching :
    ∃ u, taskReturn 0x100800 0x100400 0x1010004 (kernelAbout (shellFrame 0x5FFF78)) = some u ∧
      ContextRestored u (shellFrame 0x5FFF78) :=
  (taskReturn_restored_iff 0x100800 0x100400 0x1010004 shellTask (shellFrame 0x5FFF78)
    (kernelAbout (shellFrame 0x5FFF78)) (kernelAbout_saved _) (kernelAbout_apart _) rfl).mpr
    ⟨rfl, Or.inl (by decide)⟩

/-- An ordinary frame, with its base pointer on the user stack, comes back
with the kernel's stack pointer in `ebp`. -/
theorem taskReturn_not_restored :
    ¬ ∃ u, taskReturn 0x100800 0x100400 0x1010004 (kernelAbout (shellFrame 0x3FEFE0)) = some u ∧
      ContextRestored u (shellFrame 0x3FEFE0) := by
  rintro ⟨u, hu, h⟩
  have hSaved := kernelAbout_saved (shellFrame 0x3FEFE0)
  rw [taskSaveState_words] at hSaved
  obtain ⟨user, hRun, _, hEbp, _⟩ :=
    taskReturn_user 0x100800 0x100400 0x1010004 hSaved (kernelAbout_apart _) rfl
  obtain rfl : user = u := Option.some.inj (hRun.symm.trans hu)
  exact absurd (h.ebp.symm.trans hEbp) (by decide)

end LiebeOS
