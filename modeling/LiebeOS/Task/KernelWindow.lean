import LiebeOS.Kernel.SystemCall
import LiebeOS.Task.WriteIsolation

/-! The pages that the kernel needs where they are while the directory of a task is loaded:
its image, the upper end of its stack and the record of the task. -/
namespace LiebeOS

open Attempts MachineInt Bytes Transition

/-- How many pages of its image and of its stack the kernel touches. They end below the
stack of the program, and begin above it. -/
structure KernelPages where
  image : Nat
  stack : Nat
  image_le : 0x100000 + 4096 * image ≤ liebeOsProgramVirtualStackAddressEnd
  stack_le : liebeOsProgramVirtualStackAddressStart + 4096 * stack ≤ tssEsp0.toNat

/-- Under the directory the page is where it is in memory. -/
def ShowsItself (mem : Memory) (directory w : Nat) : Prop :=
  entryAddress (pagingGet mem directory w) = w ∧ pagingGet mem directory w &&& pagingIsPresent ≠ 0

/-- Interrupts and switches of the task find the kernel and the record of the task. -/
structure KernelMapped (pages : KernelPages) (s : System) (q : LiveProcess) : Prop where
  image : ∀ k < pages.image, ShowsItself s.storage.mem q.directory (0x100000 + 4096 * k)
  stack : ∀ k < pages.stack, ShowsItself s.storage.mem q.directory (tssEsp0.toNat - 4096 * (k + 1))
  task : q.task % 4096 = 0 ∧ ShowsItself s.storage.mem q.directory q.task

def KernelPages.window (pages : KernelPages) : Window where
  touched task w := (0x100000 ≤ w ∧ w < 0x100000 + 4096 * pages.image) ∨
    (tssEsp0.toNat - 4096 * pages.stack ≤ w ∧ w < tssEsp0.toNat) ∨
    (w = task ∧ 0x01000000 ≤ w ∧ w < 0x07400000)
  outside task w hTouched := by
    have hImage := pages.image_le
    have hStack := pages.stack_le
    have hEnd : liebeOsProgramVirtualStackAddressEnd = 0x3FB000 := rfl
    have hStart : liebeOsProgramVirtualStackAddressStart = 0x3FF000 := rfl
    have hTop : tssEsp0.toNat = 0x600000 := rfl
    rw [InUserStack.iff]
    omega

section Mapped

variable {pages : KernelPages} {d : DiskFiles} {s t : System} {events : List SystemEvent} {i : Nat}
  {q : LiveProcess} {w : Nat}

theorem showsItself {mem : Memory} {directory w flags : Nat} (hw : w < 4294967296)
    (hPage : w % 4096 = 0) (hFlags : flags = 5 ∨ flags = 7)
    (hEntry : pagingGet mem directory w = w ||| flags) : ShowsItself mem directory w := by
  have hPresent : (w ||| flags) &&& pagingIsPresent = 1 := by
    have hBit := Nat.and_two_pow_sub_one_eq_mod (w ||| flags) 1
    change (w ||| flags) &&& 1 = _ at hBit
    change (w ||| flags) &&& 1 = 1
    rw [hBit, or_flags hPage (by omega)]
    omega
  refine ⟨?_, ?_⟩
  · rw [hEntry, entryAddress_or_flags hPage hw (by omega)]
  · rw [hEntry, hPresent]
    decide

theorem SystemInv.touched (h : SystemInv pages.window s) (hLive : s.live i = some q)
    (hw : w < 4294967296) (hPage : w % 4096 = 0) (hTouched : pages.window.touched q.task w) :
    ShowsItself s.storage.mem q.directory w := by
  rcases (h.memory.alive hLive).entries w hw hPage with hEntry | ⟨_, hSame⟩
  · exact showsItself hw hPage (Or.inl (by decide)) (hEntry.window hTouched)
  · exact showsItself hw hPage (Or.inr rfl) hSame

theorem SystemInv.kernelMapped (h : SystemInv pages.window s) (hLive : s.live i = some q) :
    KernelMapped pages s q := by
  have hImage := pages.image_le
  have hStack := pages.stack_le
  have hEnd : liebeOsProgramVirtualStackAddressEnd = 0x3FB000 := rfl
  have hStart : liebeOsProgramVirtualStackAddressStart = 0x3FF000 := rfl
  have hTop : tssEsp0.toNat = 0x600000 := rfl
  obtain ⟨n, hTask⟩ := h.memory.owned hLive .task (h.memory.alive hLive).some.1
  obtain ⟨hAligned, hLow, hHigh⟩ := hTask.page h.memory.inOrder.kernel
  change q.task % 4096 = 0 at hAligned
  change 0x01000000 ≤ q.task at hLow
  change q.task + 4096 ≤ 0x07400000 at hHigh
  refine ⟨fun k hk => ?_, fun k hk => ?_, hAligned, ?_⟩
  · exact h.touched hLive (by omega) (by omega) (Or.inl (by omega))
  · exact h.touched hLive (by omega) (by omega) (Or.inr (Or.inl (by omega)))
  · exact h.touched hLive (by omega) hAligned (Or.inr (Or.inr ⟨rfl, hLow, by omega⟩))

/-- In every run from boot of which it is known what follows, and whose programs leave these
pages alone, the kernel finds them under the directory of every task. -/
theorem systemRun_kernelMapped (pages : KernelPages) (hBoot : s.Booted)
    (run : Run (Guarded (SystemStep d) (KeepsMemory pages.window d)) s events t)
    (hLive : t.live i = some q) : KernelMapped pages t q :=
  (SystemInv.run hBoot run).kernelMapped hLive

end Mapped

/-- Thirteen pages of image and four of stack. -/
def smallKernel : KernelPages := ⟨13, 4, by decide, by decide⟩

/-- The kernel goes on when the first program is given the processor. -/
theorem systemRun_kernelMapped_first :
    ∃ process task t q,
      Run (Guarded (SystemStep flatFiles) (KeepsMemory smallKernel.window flatFiles))
        (startSystem fun _ => 0) [.load missingFile, .switch process task] t ∧
      t.live 0 = some q ∧ KernelMapped smallKernel t q := by
  have hOut : ∀ task w, smallKernel.window.touched task w →
      4096 ≤ offsetFrom liebeOsProgramVirtualAddress w := fun task w hTouched => by
    have hPlaces : (0x100000 ≤ w ∧ w < 0x10D000) ∨ (0x5FC000 ≤ w ∧ w < 0x600000) ∨
      (w = task ∧ 0x01000000 ≤ w ∧ w < 0x07400000) := hTouched
    unfold offsetFrom toWord liebeOsProgramVirtualAddress
    omega
  obtain ⟨l, process, task, t, run, hLive, _⟩ := startSystem_run smallKernel.window hOut
  exact ⟨process, task, t, _, run, hLive,
    systemRun_kernelMapped smallKernel startSystem_booted run hLive⟩

/-- A program whose segment begins below the upper end of the stack of the kernel is put in
its place. -/
theorem systemRun_not_kernelMapped :
    ¬ ∀ (d : DiskFiles) (pages : KernelPages) (s t : System) (events : List SystemEvent), s.Booted →
      Run (Guarded (SystemStep d) (Known d)) s events t →
      ∀ (i : Nat) (q : LiveProcess), t.live i = some q → KernelMapped pages t q := by
  intro hClaim
  obtain ⟨l, _⟩ := startSystem_loadWild
  let p := l.start (startSystem_heap _)
  obtain ⟨s', hStep, hLive, hStorage⟩ := p.first
  obtain ⟨hEntry, _⟩ := l.wild (startSystem_heap _)
  obtain ⟨hImage, _⟩ := l.elf.image (l.inOrder (startSystem_heap _)).1 (by decide)
  obtain ⟨hAligned, hLow, hHigh⟩ := hImage.page (l.inOrder (startSystem_heap _)).2.1.kernel
  have hMapped := hClaim _ smallKernel _ _ _ startSystem_booted (Run.single hStep) 0 p.live hLive
  have hSame := (hMapped.stack 0 (by decide)).1
  change entryAddress (pagingGet s'.storage.mem p.directory 0x5FF000) = 0x5FF000 at hSame
  change pagingGet p.finish.mem p.directory 0x5FF000 = _ at hEntry
  rw [hStorage, hEntry, entryAddress_or_flags hAligned (by omega) (userFlags_lt true)] at hSame
  omega

end LiebeOS
