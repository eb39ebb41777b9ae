import LiebeOS.Lib.X86Gate
import Mathlib.Data.Option.Basic

/-! Programs that are interrupted. A program is a step function on what it can see of the
processor and of memory; an interrupt may come between any two of its steps. -/
namespace X86

open Bytes

universe u

/-- The same for a program whose memory is `own`. -/
structure SameProgram (own : Nat → Prop) (s t : Cpu) : Prop where
  reg : s.reg = t.reg
  seg : s.seg = t.seg
  eflags : s.eflags = t.eflags
  eip : s.eip = t.eip
  mem : ∀ x, own x → s.mem x = t.mem x

/-- The steps depend on nothing that the program does not own, and keep its selectors. -/
structure OwnSteps (own : Nat → Prop) (step : Cpu → Option Cpu) : Prop where
  same : ∀ s t, SameProgram own s t → ∀ s', step s = some s' →
    ∃ t', step t = some t' ∧ SameProgram own s' t'
  seg : ∀ s s', step s = some s' → s'.seg = s.seg

def runSteps (step : Cpu → Option Cpu) : Nat → Cpu → Option Cpu
  | 0, s => some s
  | n + 1, s => (runSteps step n s).bind step

variable {World : Type u} {own : Nat → Prop} {step : Cpu → Option Cpu} {s t v : Cpu}

/-- The handler of an interrupt runs on the innermost level until it leaves it. -/
def Env.Served (e : Env World) (vector : UInt8) (h h' : Host World) : Prop :=
  ∃ h₀, interrupted e vector h = some h₀ ∧ e.ReachesInner h₀ h' ∧ Cpu.rpl (h'.cpu.seg .cs) ≠ 0

/-- `n` steps of a program, with interrupts in between, each `allowed` where it comes. -/
inductive Interleaved (e : Env World) (allowed : UInt8 → World → Prop) (step : Cpu → Option Cpu)
    (h : Host World) : Nat → Host World → Prop where
  | start : Interleaved e allowed step h 0 h
  | program {n : Nat} {a : Host World} {s : Cpu} (prior : Interleaved e allowed step h n a)
      (last : step a.cpu = some s) : Interleaved e allowed step h (n + 1) ⟨s, a.world⟩
  | interrupt {n : Nat} {a b : Host World} {vector : UInt8}
      (prior : Interleaved e allowed step h n a) (hAllowed : allowed vector a.world)
      (last : e.Served vector a b) : Interleaved e allowed step h n b

theorem SameProgram.refl (own : Nat → Prop) (s : Cpu) : SameProgram own s s :=
  ⟨rfl, rfl, rfl, rfl, fun _ _ => rfl⟩

theorem SameProgram.symm (h : SameProgram own s t) : SameProgram own t s :=
  ⟨h.reg.symm, h.seg.symm, h.eflags.symm, h.eip.symm, fun x hx => (h.mem x hx).symm⟩

theorem SameProgram.trans (h : SameProgram own s t) (h' : SameProgram own t v) :
    SameProgram own s v :=
  ⟨h.reg.trans h'.reg, h.seg.trans h'.seg, h.eflags.trans h'.eflags, h.eip.trans h'.eip,
    fun x hx => (h.mem x hx).trans (h'.mem x hx)⟩

/-- If the service of every interrupt gives a program back as it was, the program does the
same with interrupts as without. -/
theorem Interleaved.transparent {e : Env World} {allowed : UInt8 → World → Prop}
    {h h' : Host World} {n : Nat} {seg : SegReg → UInt16} (hSteps : OwnSteps own step)
    (hServed : ∀ vector a b, allowed vector a.world → a.cpu.seg = seg → e.Served vector a b →
      SameProgram own a.cpu b.cpu) (hSeg : h.cpu.seg = seg)
    (run : Interleaved e allowed step h n h') :
    ∃ t, runSteps step n h.cpu = some t ∧ SameProgram own t h'.cpu := by
  -- all along, the program has its selectors
  suffices hInv : (∃ t, runSteps step n h.cpu = some t ∧ SameProgram own t h'.cpu) ∧
      h'.cpu.seg = seg from hInv.1
  induction run with
  | start => exact ⟨⟨h.cpu, rfl, SameProgram.refl own h.cpu⟩, hSeg⟩
  | @program n a s _ last ih =>
      obtain ⟨⟨t, hRun, hSame⟩, hSelectors⟩ := ih
      obtain ⟨t', hStep, hSame'⟩ := hSteps.same a.cpu t hSame.symm s last
      refine ⟨⟨t', ?_, hSame'.symm⟩, (hSteps.seg a.cpu s last).trans hSelectors⟩
      rw [runSteps, hRun, Option.bind_some, hStep]
  | @interrupt n a b vector _ hAllowed last ih =>
      obtain ⟨⟨t, hRun, hSame⟩, hSelectors⟩ := ih
      have hBack := hServed vector a b hAllowed hSelectors last
      exact ⟨⟨t, hRun, hSame.trans hBack⟩, hBack.seg.symm.trans hSelectors⟩

end X86
