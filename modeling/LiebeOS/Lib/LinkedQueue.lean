import Mathlib.Logic.Function.Basic
import Mathlib.Tactic.Common

/-! Doubly linked lists of records by address. Address 0 is the null pointer;
`next` and `prev` are the two link fields of the records. -/
namespace LinkedQueue

/-- The addresses met by following `next` from `a`, at most `n` of them. -/
def follow (next : Nat → Nat) : Nat → Nat → List Nat
  | 0, _ => []
  | n + 1, a => if a = 0 then [] else a :: follow next n (next a)

/-- Each record points to the one behind it, and the last one to none. -/
def NextLinks (next : Nat → Nat) : List Nat → Prop
  | [] => True
  | a :: rest => next a = rest.headD 0 ∧ NextLinks next rest

/-- Each record points back to the one in front of it, the first to `before`. -/
def PrevLinks (prev : Nat → Nat) : Nat → List Nat → Prop
  | _, [] => True
  | before, a :: rest => prev a = before ∧ PrevLinks prev a rest

variable {next next' prev prev' : Nat → Nat} {before a t : Nat} {l front back back' : List Nat}

theorem follow_nextLinks (h : NextLinks next l) (hNull : 0 ∉ l) {n : Nat} (hLong : l.length ≤ n) :
    follow next n (l.headD 0) = l := by
  induction l generalizing n with
  | nil =>
      cases n with
      | zero => rfl
      | succ n => simp [follow]
  | cons a rest ih =>
      rw [List.mem_cons, not_or] at hNull
      cases n with
      | zero => exact absurd hLong (by simp)
      | succ n =>
          have hRest := ih h.2 hNull.2 (by simpa using hLong)
          rw [List.headD_cons, follow, if_neg (Ne.symm hNull.1), h.1, hRest]

theorem NextLinks.congr (h : NextLinks next l) (hSame : ∀ a ∈ l, next' a = next a) :
    NextLinks next' l := by
  induction l with
  | nil => trivial
  | cons a rest ih =>
      exact ⟨(hSame a (by simp)).trans h.1, ih h.2 fun b hb => hSame b (by simp [hb])⟩

theorem PrevLinks.congr (h : PrevLinks prev before l) (hSame : ∀ a ∈ l, prev' a = prev a) :
    PrevLinks prev' before l := by
  induction l generalizing before with
  | nil => trivial
  | cons a rest ih =>
      exact ⟨(hSame a (by simp)).trans h.1, ih h.2 fun b hb => hSame b (by simp [hb])⟩

theorem NextLinks.drop (h : NextLinks next (front ++ back)) : NextLinks next back := by
  induction front with
  | nil => exact h
  | cons a rest ih => exact ih h.2

theorem PrevLinks.behind (h : PrevLinks prev before (front ++ a :: back)) :
    PrevLinks prev a back := by
  induction front generalizing before with
  | nil => exact h.2
  | cons b rest ih => exact ih h.2

/-- Setting the link of one record exchanges everything behind it. -/
theorem NextLinks.relink (h : NextLinks next (front ++ a :: back)) (hBack : NextLinks next back')
    (hFront : a ∉ front) (hBehind : a ∉ back') :
    NextLinks (Function.update next a (back'.headD 0)) (front ++ a :: back') := by
  induction front with
  | nil =>
      refine ⟨Function.update_self a _ _, hBack.congr fun b hb => ?_⟩
      have hOther : b ≠ a := fun hSame => hBehind (by rwa [← hSame])
      exact Function.update_of_ne hOther _ _
  | cons b rest ih =>
      rw [List.mem_cons, not_or] at hFront
      refine ⟨?_, ih h.2 hFront.2⟩
      rw [Function.update_of_ne (Ne.symm hFront.1), h.1]
      cases rest <;> rfl

theorem prevLinks_concat :
    PrevLinks prev before (l ++ [t]) ↔ PrevLinks prev before l ∧ prev t = l.getLastD before := by
  induction l generalizing before with
  | nil => simp [PrevLinks]
  | cons a rest ih =>
      rw [List.cons_append, PrevLinks, PrevLinks, ih, List.getLastD_cons, and_assoc]

/-- The link fields of a queue lead nowhere but into the queue. -/
theorem NextLinks.mem (h : NextLinks next l) (ha : a ∈ l) : next a = 0 ∨ next a ∈ l := by
  induction l with
  | nil => exact absurd ha (by simp)
  | cons b rest ih =>
      rcases List.mem_cons.mp ha with rfl | ha
      · rw [h.1]
        cases rest with
        | nil => exact Or.inl rfl
        | cons c _ => exact Or.inr (by simp)
      · exact (ih h.2 ha).imp id (List.mem_cons_of_mem b)

theorem PrevLinks.mem (h : PrevLinks prev before l) (ha : a ∈ l) :
    prev a = before ∨ prev a ∈ l := by
  induction l generalizing before with
  | nil => exact absurd ha (by simp)
  | cons b rest ih =>
      rcases List.mem_cons.mp ha with rfl | ha
      · exact Or.inl h.1
      · rcases ih h.2 ha with hFirst | hRest
        · exact Or.inr (by simp [hFirst])
        · exact Or.inr (List.mem_cons_of_mem b hRest)

end LinkedQueue
