import Mathlib.Tactic.Common

/-! Calls that need not come back. A call returns, runs for ever, or goes
through a pointer that leads nowhere, after which nothing is known. `Ensures`
is the rule for what is known of the returned value. -/
namespace Attempts

universe u

inductive Attempt (α : Type u) where
  | returned (a : α)
  | endless
  | undefined

instance : Monad Attempt where
  pure := .returned
  bind x f :=
    match x with
    | .returned a => f a
    | .endless => .endless
    | .undefined => .undefined

namespace Attempt

variable {α β : Type u} {P Q : α → Prop}

theorem bind_bind {γ : Type u} (x : Attempt α) (f : α → Attempt β) (g : β → Attempt γ) :
    x >>= f >>= g = x >>= fun a => f a >>= g := by
  cases x <;> rfl

/-- A call that returns is a first call that returns, and a second one. -/
theorem bind_returned_iff {x : Attempt α} {f : α → Attempt β} {b : β} :
    x >>= f = .returned b ↔ ∃ a, x = .returned a ∧ f a = .returned b := by
  cases x with
  | returned a => exact ⟨fun h => ⟨a, rfl, h⟩, fun ⟨_, rfl, h⟩ => h⟩
  | endless => exact ⟨fun h => (nomatch h), fun ⟨_, h, _⟩ => (nomatch h)⟩
  | undefined => exact ⟨fun h => (nomatch h), fun ⟨_, h, _⟩ => (nomatch h)⟩

/-- A call that goes astray under a condition returns only without it. -/
theorem guard_returned_iff {c : Prop} [Decidable c] {x : Attempt α} {b : α} :
    (if c then .undefined else x) = .returned b ↔ ¬ c ∧ x = .returned b := by
  by_cases hc : c
  · rw [if_pos hc]
    exact ⟨fun h => (nomatch h), fun h => absurd hc h.1⟩
  · rw [if_neg hc]
    exact ⟨fun h => ⟨hc, h⟩, And.right⟩

/-- If the call returns, its value satisfies `P`. -/
def Ensures (x : Attempt α) (P : α → Prop) : Prop := ∀ a, x = .returned a → P a

theorem ensures_returned {a : α} (h : P a) : (returned a).Ensures P := by
  intro b hb
  cases hb
  exact h

theorem ensures_endless : (endless : Attempt α).Ensures P := fun _ h => nomatch h

theorem ensures_undefined : (undefined : Attempt α).Ensures P := fun _ h => nomatch h

theorem ensures_bind {x : Attempt α} {f : α → Attempt β} {R : β → Prop} (hx : x.Ensures P)
    (hf : ∀ a, P a → (f a).Ensures R) : (x >>= f).Ensures R := by
  cases x with
  | returned a => exact hf a (hx a rfl)
  | endless => exact ensures_endless
  | undefined => exact ensures_undefined

theorem Ensures.and {x : Attempt α} (hP : x.Ensures P) (hQ : x.Ensures Q) :
    x.Ensures fun a => P a ∧ Q a :=
  fun a ha => ⟨hP a ha, hQ a ha⟩

theorem Ensures.imp {x : Attempt α} (h : x.Ensures P) (hImp : ∀ a, P a → Q a) : x.Ensures Q :=
  fun a ha => hImp a (h a ha)

/-- Whether the call returns with a value that passes. -/
def test (x : Attempt α) (p : α → Bool) : Bool :=
  match x with
  | .returned a => p a
  | .endless => false
  | .undefined => false

theorem test_iff {x : Attempt α} {p : α → Bool} :
    x.test p = true ↔ ∃ a, x = .returned a ∧ p a = true := by
  cases x with
  | returned a => exact ⟨fun h => ⟨a, rfl, h⟩, fun ⟨_, rfl, h⟩ => h⟩
  | endless => exact ⟨fun h => (by cases h), fun ⟨_, h, _⟩ => (by cases h)⟩
  | undefined => exact ⟨fun h => (by cases h), fun ⟨_, h, _⟩ => (by cases h)⟩

end Attempt

end Attempts
