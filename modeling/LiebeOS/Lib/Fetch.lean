import LiebeOS.Lib.Words

/-! Computations that read memory, with a record of every address they read.
`Within` bounds the record: nothing outside a set of addresses was looked at. -/
namespace Bytes

universe u v

/-- A value together with the addresses that were read to compute it. -/
structure Fetch (α : Type u) where
  value : α
  reads : List Nat

instance : Monad Fetch where
  pure a := ⟨a, []⟩
  bind x f := ⟨(f x.value).value, x.reads ++ (f x.value).reads⟩

namespace Fetch

variable {α β : Type u}

@[simp] theorem pure_value (a : α) : (pure a : Fetch α).value = a := rfl

@[simp] theorem pure_reads (a : α) : (pure a : Fetch α).reads = [] := rfl

@[simp] theorem bind_value (x : Fetch α) (f : α → Fetch β) :
    (x >>= f).value = (f x.value).value := rfl

@[simp] theorem bind_reads (x : Fetch α) (f : α → Fetch β) :
    (x >>= f).reads = x.reads ++ (f x.value).reads := rfl

/-- Only addresses in `P` were read. -/
def Within (P : Nat → Prop) (x : Fetch α) : Prop := ∀ a ∈ x.reads, P a

variable {P : Nat → Prop}

@[simp] theorem within_pure (a : α) : (pure a : Fetch α).Within P := by
  simp [Within]

@[simp] theorem within_bind (x : Fetch α) (f : α → Fetch β) :
    (x >>= f).Within P ↔ x.Within P ∧ (f x.value).Within P := by
  simp only [Within, bind_reads, List.mem_append, or_imp, forall_and]

theorem within_ite {c : Prop} [Decidable c] {x y : Fetch α} (hx : c → x.Within P)
    (hy : ¬ c → y.Within P) : (if c then x else y).Within P := by
  split
  · exact hx (by assumption)
  · exact hy (by assumption)

/-- `x && y`, which computes `y` only when `x` holds. -/
def and (x y : Fetch Bool) : Fetch Bool :=
  ⟨x.value && y.value, x.reads ++ if x.value then y.reads else []⟩

theorem and_value {x y : Fetch Bool} : (x.and y).value = true ↔ x.value = true ∧ y.value = true := by
  simp [and]

theorem and_within {x y : Fetch Bool} :
    (x.and y).Within P ↔ x.Within P ∧ (x.value = true → y.Within P) := by
  cases h : x.value <;> simp [and, Within, h, or_imp, forall_and]

/-- `x ? a : b` -/
def select (x : Fetch Bool) (a b : α) : Fetch α := ⟨if x.value then a else b, x.reads⟩

theorem select_cases (x : Fetch Bool) (a b : α) :
    (x.value = true ∧ (x.select a b).value = a) ∨ (¬ x.value = true ∧ (x.select a b).value = b) := by
  cases h : x.value <;> simp [select, h]

theorem select_within {x : Fetch Bool} {a b : α} : (x.select a b).Within P ↔ x.Within P :=
  Iff.rfl

/-- The `n` bytes from pointer `p` on. -/
def touched (p n : Nat) : List Nat := (List.range n).map (behind p)

theorem forall_touched {p n : Nat} : (∀ a ∈ touched p n, P a) ↔ ∀ i < n, P (behind p i) := by
  simp [touched]

def byte (mem : Memory) (p : Nat) : Fetch UInt8 := ⟨mem (behind p 0), touched p 1⟩

def half (mem : Memory) (p : Nat) : Fetch Nat := ⟨loadHalf mem p, touched p 2⟩

def word (mem : Memory) (p : Nat) : Fetch Nat := ⟨loadWord mem p, touched p 4⟩

@[simp] theorem byte_value (mem : Memory) (p : Nat) : (byte mem p).value = mem (behind p 0) := rfl

@[simp] theorem half_value (mem : Memory) (p : Nat) : (half mem p).value = loadHalf mem p := rfl

@[simp] theorem word_value (mem : Memory) (p : Nat) : (word mem p).value = loadWord mem p := rfl

theorem within_byte {mem : Memory} {p : Nat} : (byte mem p).Within P ↔ ∀ i < 1, P (behind p i) :=
  forall_touched

theorem within_half {mem : Memory} {p : Nat} : (half mem p).Within P ↔ ∀ i < 2, P (behind p i) :=
  forall_touched

theorem within_word {mem : Memory} {p : Nat} : (word mem p).Within P ↔ ∀ i < 4, P (behind p i) :=
  forall_touched

end Fetch

end Bytes
