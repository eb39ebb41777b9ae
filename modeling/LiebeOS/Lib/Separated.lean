import Mathlib.Data.List.Infix
import Mathlib.Data.List.TakeWhile
import Mathlib.Tactic.Common

/-! Lists cut into pieces at a separator. A separator at the end of the list is
taken to close the last piece, so that no empty piece follows it; every other
separator divides two pieces, which may be empty. -/
namespace Separated

universe u

variable {α : Type u} [DecidableEq α]

/-- The elements in front of the first separator. -/
def firstPiece (sep : α) (l : List α) : List α := l.takeWhile (· ≠ sep)

/-- What follows the first separator. -/
def behindPiece (sep : α) (l : List α) : List α := (l.dropWhile (· ≠ sep)).tail

/-- The pieces of a list with at most `n` elements. -/
def pieces (sep : α) : Nat → List α → List (List α)
  | 0, _ => []
  | n + 1, l => if l = [] then [] else firstPiece sep l :: pieces sep n (behindPiece sep l)

/-- The list without a separator at its end. -/
def withoutLast (sep : α) (l : List α) : List α := if l.getLast? = some sep then l.dropLast else l

variable {sep : α} {l piece rest : List α} {n : Nat}

theorem firstPiece_eq (h : sep ∉ piece) : firstPiece sep (piece ++ sep :: rest) = piece := by
  rw [firstPiece, List.takeWhile_append_of_pos fun x hx => ?_, List.takeWhile_cons_of_neg (by simp),
    List.append_nil]
  simpa using fun hSame : x = sep => h (hSame ▸ hx)

theorem behindPiece_eq (h : sep ∉ piece) : behindPiece sep (piece ++ sep :: rest) = rest := by
  rw [behindPiece, List.dropWhile_append_of_pos fun x hx => ?_, List.dropWhile_cons_of_neg (by simp),
    List.tail_cons]
  simpa using fun hSame : x = sep => h (hSame ▸ hx)

theorem firstPiece_last (h : sep ∉ l) : firstPiece sep l = l :=
  List.takeWhile_eq_self_iff.mpr fun x hx => by simpa using fun hSame : x = sep => h (hSame ▸ hx)

theorem behindPiece_last (h : sep ∉ l) : behindPiece sep l = [] := by
  have hNone : l.dropWhile (· ≠ sep) = [] :=
    List.dropWhile_eq_nil_iff.mpr fun x hx => by simpa using fun hSame : x = sep => h (hSame ▸ hx)
  rw [behindPiece, hNone, List.tail_nil]

/-- A list is one piece, or a piece, a separator and the rest. -/
theorem cut_cases (sep : α) (l : List α) :
    sep ∉ l ∨ ∃ piece rest, sep ∉ piece ∧ l = piece ++ sep :: rest := by
  by_cases hIn : sep ∈ l
  · obtain ⟨piece, rest, rfl, hFirst⟩ := List.eq_append_cons_of_mem hIn
    exact Or.inr ⟨piece, rest, hFirst, rfl⟩
  · exact Or.inl hIn

theorem pieces_eq_nil_iff (hLong : l.length ≤ n) : pieces sep n l = [] ↔ l = [] := by
  cases n with
  | zero => simp [pieces, List.length_eq_zero_iff.mp (Nat.le_zero.mp hLong)]
  | succ n =>
      rw [pieces]
      split <;> simp_all

/-- A piece is a contiguous part of the list without separators. -/
theorem mem_pieces (h : piece ∈ pieces sep n l) : sep ∉ piece ∧ piece <:+: l := by
  induction n generalizing l with
  | zero => exact absurd h List.not_mem_nil
  | succ n ih =>
      rw [pieces] at h
      split at h
      · exact absurd h List.not_mem_nil
      rcases cut_cases sep l with hNone | ⟨first, rest, hFirst, rfl⟩
      · rw [firstPiece_last hNone, behindPiece_last hNone] at h
        rcases List.mem_cons.mp h with rfl | hLater
        · exact ⟨hNone, List.infix_rfl⟩
        · obtain ⟨hFree, hPart⟩ := ih hLater
          rw [List.infix_nil] at hPart
          rw [hPart]
          exact ⟨List.not_mem_nil, List.nil_infix⟩
      · rw [firstPiece_eq hFirst, behindPiece_eq hFirst] at h
        rcases List.mem_cons.mp h with rfl | hLater
        · exact ⟨hFirst, (List.prefix_append _ _).isInfix⟩
        · obtain ⟨hFree, hPart⟩ := ih hLater
          exact ⟨hFree, hPart.trans ((List.suffix_cons _ _).trans (List.suffix_append _ _)).isInfix⟩

theorem withoutLast_append (h : rest ≠ []) :
    withoutLast sep (piece ++ sep :: rest) = piece ++ sep :: withoutLast sep rest := by
  have hLast : (piece ++ sep :: rest).getLast? = rest.getLast? := by
    rw [List.getLast?_append_of_ne_nil _ (List.cons_ne_nil sep rest), List.getLast?_cons_of_ne_nil h]
  rw [withoutLast, withoutLast, hLast]
  split
  · rw [List.dropLast_append_of_ne_nil (List.cons_ne_nil sep rest), List.dropLast_cons_of_ne_nil h]
  · rfl

/-- Joining the pieces gives the list back, up to a separator at its end. -/
theorem intercalate_pieces (hLong : l.length ≤ n) :
    [sep].intercalate (pieces sep n l) = withoutLast sep l := by
  induction n generalizing l with
  | zero => rw [List.length_eq_zero_iff.mp (Nat.le_zero.mp hLong)]; rfl
  | succ n ih =>
      rw [pieces]
      by_cases hEmpty : l = []
      · rw [if_pos hEmpty, hEmpty]
        rfl
      rw [if_neg hEmpty]
      rcases cut_cases sep l with hNone | ⟨piece, rest, hFirst, rfl⟩
      · rw [firstPiece_last hNone, behindPiece_last hNone,
          (pieces_eq_nil_iff (Nat.zero_le n)).mpr rfl, List.intercalate_singleton, withoutLast,
          if_neg fun hLast => hNone (List.mem_of_getLast? hLast)]
      · have hRest : rest.length ≤ n := by
          simp only [List.length_append, List.length_cons] at hLong
          omega
        rw [firstPiece_eq hFirst, behindPiece_eq hFirst]
        by_cases hEnd : rest = []
        · rw [(pieces_eq_nil_iff hRest).mpr hEnd, List.intercalate_singleton, hEnd, withoutLast,
            if_pos (by simp), List.dropLast_concat]
        · obtain ⟨second, others, hCons⟩ :=
            List.exists_cons_of_ne_nil (mt (@pieces_eq_nil_iff _ _ sep rest n hRest).mp hEnd)
          have hJoin := ih hRest
          rw [hCons] at hJoin ⊢
          rw [List.intercalate_cons_cons, hJoin, withoutLast_append hEnd]
          simp

/-- Pieces that are not empty come back when their join is cut. -/
theorem pieces_intercalate {parts : List (List α)} (hParts : ∀ p ∈ parts, p ≠ [] ∧ sep ∉ p)
    (hLong : ([sep].intercalate parts).length ≤ n) :
    pieces sep n ([sep].intercalate parts) = parts := by
  induction n generalizing parts with
  | zero =>
      cases parts with
      | nil => rfl
      | cons first others =>
          have hJoined := List.length_eq_zero_iff.mp (Nat.le_zero.mp hLong)
          have hFirst := (hParts first List.mem_cons_self).1
          cases others with
          | nil => exact absurd (by rwa [List.intercalate_singleton] at hJoined) hFirst
          | cons second others => simp [List.intercalate_cons_cons] at hJoined
  | succ n ih =>
      cases parts with
      | nil => rfl
      | cons first others =>
          obtain ⟨hSome, hFree⟩ := hParts first List.mem_cons_self
          have hOthers : ∀ p ∈ others, p ≠ [] ∧ sep ∉ p :=
            fun p hp => hParts p (List.mem_cons_of_mem first hp)
          cases others with
          | nil =>
              rw [List.intercalate_singleton, pieces, if_neg hSome, firstPiece_last hFree,
                behindPiece_last hFree, (pieces_eq_nil_iff (Nat.zero_le n)).mpr rfl]
          | cons second others =>
              have hJoin : [sep].intercalate (first :: second :: others) =
                  first ++ sep :: [sep].intercalate (second :: others) := by
                rw [List.intercalate_cons_cons]
                simp
              rw [hJoin] at hLong ⊢
              simp only [List.length_append, List.length_cons] at hLong
              rw [pieces, if_neg (by simp), firstPiece_eq hFree, behindPiece_eq hFree,
                ih hOthers (by omega)]

end Separated
