import Mathlib.Tactic

/-!
# Windows of a list

The entries of a list at the positions of an interval, the slice expression of Go
with its bounds check, and what two windows give together when one interval
starts where the other ends.
-/

namespace TaskQueue
namespace Lib

universe u

variable {α : Type u}

/-- The entries at the positions `p` with `lo ≤ p < hi`. -/
def window (xs : List α) (lo hi : Int) : List α :=
  (xs.zipIdx.filter fun x => decide (lo ≤ x.2) && decide ((x.2 : Int) < hi)).map Prod.fst

/-- The slice expression `xs[low:high]`; `none` is the panic of the bounds check. -/
def slice (xs : List α) (low high : Int) : Option (List α) :=
  if 0 ≤ low ∧ low ≤ high ∧ high ≤ xs.length then
    some ((xs.drop low.toNat).take (high - low).toNat)
  else
    none

/-- The window, when the first entry has the position `k`. -/
theorem map_filter_zipIdx
    (xs : List α) (lo hi : Int) (k : Nat) :
    ((xs.zipIdx k).filter fun x => decide (lo ≤ x.2) && decide ((x.2 : Int) < hi)).map Prod.fst =
      (xs.drop (lo - k).toNat).take ((hi - k).toNat - (lo - k).toNat) := by
  induction xs generalizing k with
  | nil =>
      simp
  | cons x xs ih =>
      have hrest := ih (k + 1)
      rw [List.zipIdx_cons]
      rcases lt_or_ge (k : Int) lo with hlo | hlo
      · -- the window starts behind `x`
        have hdrop : (lo - k).toNat = (lo - (k + 1 : Nat)).toNat + 1 := by omega
        have htake : (hi - k).toNat - ((lo - (k + 1 : Nat)).toNat + 1) =
            (hi - (k + 1 : Nat)).toNat - (lo - (k + 1 : Nat)).toNat := by omega
        rw [List.filter_cons_of_neg (by simp [hlo]), hrest, hdrop, List.drop_succ_cons, htake]
      · have hdrop : (lo - k).toNat = 0 := by omega
        have hdrop' : (lo - (k + 1 : Nat)).toNat = 0 := by omega
        rw [hdrop', List.drop_zero, Nat.sub_zero] at hrest
        rw [hdrop, List.drop_zero, Nat.sub_zero]
        rcases lt_or_ge (k : Int) hi with hhi | hhi
        · have htake : (hi - k).toNat = (hi - (k + 1 : Nat)).toNat + 1 := by omega
          rw [List.filter_cons_of_pos (by simp [hlo, hhi]), List.map_cons, hrest, htake,
            List.take_succ_cons]
        · -- the window ends before `x`
          have htake : (hi - k).toNat = 0 := by omega
          have htake' : (hi - (k + 1 : Nat)).toNat = 0 := by omega
          rw [List.filter_cons_of_neg (by simp [hhi]), hrest, htake, htake', List.take_zero,
            List.take_zero]

theorem window_eq_take_drop
    (xs : List α) (lo hi : Int) :
    window xs lo hi = (xs.drop lo.toNat).take (hi.toNat - lo.toNat) := by
  have h := map_filter_zipIdx xs lo hi 0
  rw [Nat.cast_zero, sub_zero, sub_zero] at h
  exact h

theorem mem_of_mem_window
    {xs : List α} {lo hi : Int} {x : α}
    (h : x ∈ window xs lo hi) :
    x ∈ xs := by
  rw [window_eq_take_drop] at h
  exact List.mem_of_mem_drop (List.mem_of_mem_take h)

/-- A window that starts behind the list is empty. -/
theorem window_of_length_le
    {xs : List α} {lo : Int}
    (h : (xs.length : Int) ≤ lo)
    (hi : Int) :
    window xs lo hi = [] := by
  rw [window_eq_take_drop, List.drop_eq_nil_of_le (by omega), List.take_nil]

/-- The window from the first position to the end of the list or further. -/
theorem window_whole
    {xs : List α} {hi : Int}
    (h : (xs.length : Int) ≤ hi) :
    window xs 0 hi = xs := by
  rw [window_eq_take_drop, Int.toNat_zero, List.drop_zero, Nat.sub_zero,
    List.take_of_length_le (by omega)]

/-- Only the positions of the list count. -/
theorem window_min_length
    (xs : List α) (lo hi : Int) :
    window xs lo (min hi xs.length) = window xs lo hi := by
  rcases le_total hi xs.length with h | h
  · rw [min_eq_left h]
  · -- both windows go to the end of the list
    rw [min_eq_right h, window_eq_take_drop, window_eq_take_drop,
      List.take_of_length_le (by rw [List.length_drop]; omega),
      List.take_of_length_le (by rw [List.length_drop]; omega)]

/-- Two windows, one right after the other. -/
theorem window_append
    (xs : List α) {lo mid hi : Int}
    (hlo : lo ≤ mid)
    (hhi : mid ≤ hi) :
    window xs lo mid ++ window xs mid hi = window xs lo hi := by
  have hsplit : hi.toNat - lo.toNat = (mid.toNat - lo.toNat) + (hi.toNat - mid.toNat) := by
    omega
  have hdrop : mid.toNat = lo.toNat + (mid.toNat - lo.toNat) := by omega
  rw [window_eq_take_drop, window_eq_take_drop, window_eq_take_drop, hsplit, List.take_add,
    List.drop_drop, ← hdrop]

/-- Within its bounds, a slice expression gives the window. -/
theorem slice_of_bounds
    {xs : List α} {low high : Int}
    (hlow : 0 ≤ low)
    (hle : low ≤ high)
    (hhigh : high ≤ xs.length) :
    slice xs low high = some (window xs low high) := by
  have hlen : (high - low).toNat = high.toNat - low.toNat := by omega
  rw [slice, if_pos ⟨hlow, hle, hhigh⟩, window_eq_take_drop, hlen]

end Lib
end TaskQueue
