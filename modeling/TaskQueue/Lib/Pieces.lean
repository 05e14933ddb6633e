import Mathlib.Tactic

/-!
# Cutting a concatenation

A list of pieces is written one after the other and the result is cut at an arbitrary
position.  `wholeWithin` counts the pieces that lie before the cut; what is left of the
next piece is a proper prefix of it (`take_flatten`).
-/

namespace TaskQueue
namespace Lib

universe u

section Pieces

variable {α : Type u}

/-- The number of leading pieces that lie within the first `k` positions. -/
def wholeWithin : List (List α) → Nat → Nat
  | [], _ => 0
  | l :: ls, k =>
      if l.length ≤ k then
        wholeWithin ls (k - l.length) + 1
      else
        0

theorem wholeWithin_le
    (ls : List (List α)) (k : Nat) :
    wholeWithin ls k ≤ ls.length := by
  induction ls generalizing k with
  | nil =>
      exact Nat.le_refl 0
  | cons l ls ih =>
      rw [wholeWithin, List.length_cons]
      split_ifs
      · have := ih (k - l.length)
        omega
      · omega

/-- A piece is counted if and only if it ends before the cut. -/
theorem le_wholeWithin_iff
    {ls : List (List α)} {i k : Nat}
    (hi : i ≤ ls.length) :
    i ≤ wholeWithin ls k ↔ (ls.take i).flatten.length ≤ k := by
  induction ls generalizing i k with
  | nil =>
      have : i = 0 := Nat.le_zero.mp hi
      subst this
      simp
  | cons l ls ih =>
      cases i with
      | zero =>
          simp
      | succ i =>
          rw [List.take_succ_cons, List.flatten_cons, List.length_append, wholeWithin]
          rw [List.length_cons] at hi
          split_ifs with hl
          · have := ih (i := i) (k := k - l.length) (by omega)
            omega
          · omega

/-- Everything before the cut: the whole pieces, and a proper prefix of the next one. -/
theorem take_flatten
    (ls : List (List α)) (k : Nat) :
    (wholeWithin ls k = ls.length ∧ ls.flatten.take k = ls.flatten) ∨
    ∃ l n, ls[wholeWithin ls k]? = some l ∧ n < l.length ∧
      ls.flatten.take k = (ls.take (wholeWithin ls k)).flatten ++ l.take n := by
  induction ls generalizing k with
  | nil =>
      exact Or.inl ⟨rfl, by simp⟩
  | cons l ls ih =>
      rw [wholeWithin]
      split_ifs with hl
      · have hsplit : (l :: ls).flatten.take k = l ++ ls.flatten.take (k - l.length) := by
          rw [List.flatten_cons, List.take_append, List.take_of_length_le hl]
        rcases ih (k - l.length) with ⟨hall, htake⟩ | ⟨l', n, hget, hn, htake⟩
        · refine Or.inl ⟨by rw [hall, List.length_cons], ?_⟩
          rw [hsplit, htake, List.flatten_cons]
        · refine Or.inr ⟨l', n, hget, hn, ?_⟩
          rw [hsplit, htake, List.take_succ_cons, List.flatten_cons, List.append_assoc]
      · refine Or.inr ⟨l, k, rfl, by omega, ?_⟩
        rw [List.flatten_cons, List.take_append_of_le_length (by omega)]
        rfl

end Pieces

end Lib
end TaskQueue
