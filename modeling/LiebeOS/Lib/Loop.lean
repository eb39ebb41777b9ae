import Mathlib.Tactic.Common

/-! Loops without a bound of their own. The body either goes on with a new
state, leaves the loop with a result, or (`none`) never comes back. A loop
returns a result when some number of rounds is enough to leave it. -/
namespace Loop

universe u v

variable {State : Type u} {Result : Type v}

/-- At most `fuel` rounds of `body`. -/
def iterate (body : State → Option (State ⊕ Result)) : Nat → State → Option Result
  | 0, _ => none
  | fuel + 1, s =>
      match body s with
      | none => none
      | some (.inl t) => iterate body fuel t
      | some (.inr r) => some r

def Returns (body : State → Option (State ⊕ Result)) (s : State) (r : Result) : Prop :=
  ∃ fuel, iterate body fuel s = some r

variable {body : State → Option (State ⊕ Result)} {s t : State} {r : Result}

theorem Returns.leave (h : body s = some (.inr r)) : Returns body s r :=
  ⟨1, by rw [iterate, h]⟩

theorem Returns.goOn (h : body s = some (.inl t)) (hRest : Returns body t r) :
    Returns body s r := by
  obtain ⟨fuel, hFuel⟩ := hRest
  exact ⟨fuel + 1, by rw [iterate, h]; exact hFuel⟩

/-- What a loop returns, it returns through its first round. -/
theorem Returns.cases (h : Returns body s r) :
    body s = some (.inr r) ∨ ∃ t, body s = some (.inl t) ∧ Returns body t r := by
  obtain ⟨fuel, hFuel⟩ := h
  cases fuel with
  | zero => exact absurd hFuel (by simp [iterate])
  | succ fuel =>
      rw [iterate] at hFuel
      split at hFuel
      · exact absurd hFuel (by simp)
      · exact Or.inr ⟨_, by assumption, fuel, hFuel⟩
      · rw [Option.some.injEq] at hFuel
        exact Or.inl (by rwa [← hFuel])

/-- What holds where the loop is left with `r`, and before a round whenever it holds
behind it, holds wherever the loop returns `r` from. -/
theorem Returns.induction {P : State → Prop} (h : Returns body s r)
    (hLeave : ∀ s, body s = some (.inr r) → P s)
    (hGoOn : ∀ s t, body s = some (.inl t) → P t → P s) : P s := by
  obtain ⟨fuel, hFuel⟩ := h
  induction fuel generalizing s with
  | zero => exact absurd hFuel (by simp [iterate])
  | succ fuel ih =>
      rcases Returns.cases ⟨fuel + 1, hFuel⟩ with hDone | ⟨t, hRound, _⟩
      · exact hLeave s hDone
      · rw [iterate, hRound] at hFuel
        exact hGoOn s t hRound (ih hFuel)

/-- No result is lost by granting more rounds, so there is at most one. -/
theorem Returns.unique {r' : Result} (h : Returns body s r) (h' : Returns body s r') :
    r = r' := by
  obtain ⟨fuel, hFuel⟩ := h
  induction fuel generalizing s with
  | zero => exact absurd hFuel (by simp [iterate])
  | succ fuel ih =>
      rcases h'.cases with hLeave | ⟨t, hGoOn, hRest⟩
      · rw [iterate, hLeave] at hFuel
        exact (Option.some.inj hFuel).symm
      · rw [iterate, hGoOn] at hFuel
        exact ih hRest hFuel

/-- A loop whose states all satisfy `Inv`, and which never leaves from such a
state, returns nothing. -/
theorem not_returns_of_invariant (Inv : State → Prop) (hStart : Inv s)
    (hStep : ∀ s, Inv s → body s = none ∨ ∃ t, body s = some (.inl t) ∧ Inv t) :
    ¬ Returns body s r := by
  rintro ⟨fuel, hFuel⟩
  induction fuel generalizing s with
  | zero => exact absurd hFuel (by simp [iterate])
  | succ fuel ih =>
      rcases hStep s hStart with hNone | ⟨t, hGoOn, hInv⟩
      · rw [iterate, hNone] at hFuel
        exact absurd hFuel (by simp)
      · rw [iterate, hGoOn] at hFuel
        exact ih hInv hFuel

end Loop
