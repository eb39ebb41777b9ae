import Mathlib.Tactic.Common

/-! Finite runs of a labelled transition relation, and the induction rule by
which a property of single steps becomes a property of every reached state. -/
namespace Transition

universe u v

variable {State : Type u} {Event : Type v}

/-- Finitely many steps along one possible sequence of events. The last step
is the outermost constructor, so every prefix of a run is again a run. -/
inductive Run (step : State → Event → State → Prop) : State → List Event → State → Prop where
  | nil (s : State) : Run step s [] s
  | snoc {s t u : State} {events : List Event} {e : Event}
      (prior : Run step s events t) (last : step t e u) :
      Run step s (events ++ [e]) u

/-- The steps of `step` that are taken in a state where `cond` holds of the
event. A run of `Guarded step cond` is a run whose steps all meet `cond`. -/
def Guarded (step : State → Event → State → Prop) (cond : State → Event → Prop) :
    State → Event → State → Prop :=
  fun s e t => cond s e ∧ step s e t

/-- What one step preserves, a whole run preserves. -/
theorem Run.invariant {step : State → Event → State → Prop} {Inv : State → Prop}
    {start finish : State} {events : List Event} (run : Run step start events finish)
    (hStart : Inv start) (hStep : ∀ s e t, Inv s → step s e t → Inv t) : Inv finish := by
  induction run with
  | nil => exact hStart
  | snoc _ last ih => exact hStep _ _ _ ih last

/-- A run of one relation is a run of every larger one. -/
theorem Run.weaken {step step' : State → Event → State → Prop} {s t : State}
    {events : List Event} (run : Run step s events t)
    (hStep : ∀ s e t, step s e t → step' s e t) : Run step' s events t := by
  induction run with
  | nil => exact Run.nil _
  | snoc _ last ih => exact ih.snoc (hStep _ _ _ last)

/-- A run that starts in one state and takes a first step. -/
theorem Run.single {step : State → Event → State → Prop} {s t : State} {e : Event}
    (h : step s e t) : Run step s [e] t :=
  Run.snoc (Run.nil s) h

/-- The last step of a run. -/
theorem Run.unsnoc {step : State → Event → State → Prop} {s u : State} {events : List Event}
    {e : Event} (run : Run step s (events ++ [e]) u) : ∃ t, Run step s events t ∧ step t e u := by
  generalize hAll : events ++ [e] = all at run
  cases run with
  | nil => exact absurd hAll (List.append_ne_nil_of_right_ne_nil events (List.cons_ne_nil e []))
  | snoc prior last =>
      obtain ⟨rfl, hLast⟩ := List.append_inj' hAll rfl
      obtain rfl := List.head_eq_of_cons_eq hLast
      exact ⟨_, prior, last⟩

end Transition
