import Mathlib.Data.List.TakeWhile
import Mathlib.Tactic.Common

/-! The pieces of a text between separators: its maximal runs without one, in
their order. -/
namespace Pieces

universe u

variable {α : Type u} {p : α → Bool}

def pieces (p : α → Bool) (text : List α) : List (List α) :=
  (text.splitOnP p).filter (!·.isEmpty)

@[simp] theorem pieces_nil : pieces p [] = [] := rfl

theorem pieces_append_cons (left right : List α) {c : α} (hc : p c) :
    pieces p (left ++ c :: right) = pieces p left ++ pieces p right := by
  unfold pieces
  rw [List.splitOnP_append_cons left right hc, List.filter_append]

theorem pieces_cons_sep (text : List α) {c : α} (hc : p c) :
    pieces p (c :: text) = pieces p text :=
  pieces_append_cons [] text hc

theorem pieces_of_run {run : List α} (hRun : ∀ c ∈ run, p c = false) (hSome : run ≠ []) :
    pieces p run = [run] := by
  unfold pieces
  rw [List.splitOnP_eq_singleton hRun]
  exact List.filter_cons_of_pos (by rw [Bool.not_eq_true', List.isEmpty_eq_false_iff]; exact hSome)

/-- Leading separators belong to no piece. -/
theorem pieces_dropWhile (text : List α) : pieces p (text.dropWhile p) = pieces p text := by
  induction text with
  | nil => rfl
  | cons c text ih =>
      cases hc : p c with
      | true => rw [List.dropWhile_cons_of_pos hc, ih, pieces_cons_sep text hc]
      | false => rw [List.dropWhile_cons_of_neg (by rw [hc]; exact Bool.false_ne_true)]

/-- The first piece ends at the first separator, and the others lie behind it. -/
theorem pieces_run_append {run behind : List α} (hRun : ∀ c ∈ run, p c = false) (hSome : run ≠ [])
    (hBehind : ∀ c ∈ behind.head?, p c) : pieces p (run ++ behind) = run :: pieces p behind := by
  cases behind with
  | nil => rw [List.append_nil, pieces_of_run hRun hSome, pieces_nil]
  | cons c rest =>
      have hc : p c := hBehind c rfl
      rw [pieces_append_cons run rest hc, pieces_of_run hRun hSome, pieces_cons_sep rest hc]
      rfl

theorem pieces_of_head {c : α} (text : List α) (hc : p c = false) :
    pieces p (c :: text) =
      (c :: text).takeWhile (!p ·) :: pieces p ((c :: text).dropWhile (!p ·)) := by
  have hKept : (!p c) = true := by rw [hc]; rfl
  conv_lhs => rw [← List.takeWhile_append_dropWhile (p := (!p ·)) (l := c :: text)]
  refine pieces_run_append (fun x hx => ?_) ?_ (fun x hx => ?_)
  · rw [← Bool.not_eq_true']
    exact List.mem_takeWhile_imp (p := (!p ·)) hx
  · rw [List.takeWhile_cons, if_pos hKept]
    exact List.cons_ne_nil _ _
  · have hHead := List.head?_dropWhile_not (!p ·) (c :: text)
    rw [Option.mem_def] at hx
    rw [hx] at hHead
    exact (Bool.not_eq_false' (b := p x)).mp hHead

theorem pieces_eq_nil_iff {text : List α} : pieces p text = [] ↔ ∀ c ∈ text, p c := by
  induction text with
  | nil => exact ⟨fun _ _ hc => (List.not_mem_nil hc).elim, fun _ => rfl⟩
  | cons c text ih =>
      cases hc : p c with
      | true => rw [pieces_cons_sep text hc, ih, List.forall_mem_cons, and_iff_right hc]
      | false =>
          refine ⟨fun hNil => ?_, fun hAll => ?_⟩
          · rw [pieces_of_head text hc] at hNil
            exact absurd hNil (List.cons_ne_nil _ _)
          · have hFirst := hAll c List.mem_cons_self
            rw [hc] at hFirst
            exact absurd hFirst Bool.false_ne_true

/-- The first piece of a text that has one, and the others. -/
theorem pieces_eq_cons {text : List α} (hSome : text.dropWhile p ≠ []) :
    pieces p text = (text.dropWhile p).takeWhile (!p ·) ::
      pieces p ((text.dropWhile p).dropWhile (!p ·)) := by
  have hHead := List.head_dropWhile_not p hSome
  rw [← pieces_dropWhile text]
  cases hRest : text.dropWhile p with
  | nil => exact absurd hRest hSome
  | cons c rest =>
      have hFirst : (text.dropWhile p).head hSome = c := by simp only [hRest, List.head_cons]
      rw [hFirst] at hHead
      exact pieces_of_head rest hHead

/-- The separator that ends a run may be left out. -/
theorem pieces_tail (text : List α) :
    pieces p (text.dropWhile (!p ·)).tail = pieces p (text.dropWhile (!p ·)) := by
  induction text with
  | nil => rfl
  | cons c text ih =>
      cases hc : p c with
      | true =>
          rw [List.dropWhile_cons, if_neg (by rw [hc]; exact Bool.false_ne_true),
            pieces_cons_sep text hc]
          rfl
      | false =>
          rw [List.dropWhile_cons, if_pos (by rw [hc]; rfl)]
          exact ih

end Pieces
