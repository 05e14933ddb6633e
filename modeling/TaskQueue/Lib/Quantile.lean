import Mathlib.Data.List.Sort
import Mathlib.Tactic

/-!
# Quantiles of a list

A value of a list is a quantile when the share of the entries below it is at most
a given number and the share of the entries at or below it is more.  An entry of
the sorted list is such a value, and which one it is follows from its position.
-/

namespace TaskQueue
namespace Lib

universe u

variable {α : Type u} [LinearOrder α]

/-- An entry with at most the share `q` below it, and more than that at or below it. -/
structure IsQuantile (q : ℚ) (xs : List α) (v : α) : Prop where
  mem : v ∈ xs
  below : (xs.countP (· < v) : ℚ) ≤ q * xs.length
  atMost : q * xs.length < (xs.countP (· ≤ v) : ℚ)

/-- In a sorted list, what is below an entry stands before it. -/
theorem countP_lt_le_of_sorted
    {xs : List α} {i : Nat} {v : α}
    (hsorted : xs.Pairwise (· ≤ ·))
    (hv : xs[i]? = some v) :
    xs.countP (· < v) ≤ i := by
  induction xs generalizing i with
  | nil =>
      simp at hv
  | cons x rest ih =>
      obtain ⟨hx, hrest⟩ := List.pairwise_cons.mp hsorted
      cases i with
      | zero =>
          have hxv : x = v := by simpa using hv
          subst hxv
          have hnone : ∀ y ∈ x :: rest, ¬decide (y < x) = true := by
            intro y hy
            rcases List.mem_cons.mp hy with rfl | hy
            · simp
            · simpa using hx y hy
          rw [List.countP_eq_zero.mpr hnone]
      | succ i =>
          have hbefore := ih hrest (by simpa using hv)
          rw [List.countP_cons]
          split_ifs
          · omega
          · omega

/-- In a sorted list, an entry and what stands before it are at or below it. -/
theorem lt_countP_le_of_sorted
    {xs : List α} {i : Nat} {v : α}
    (hsorted : xs.Pairwise (· ≤ ·))
    (hv : xs[i]? = some v) :
    i < xs.countP (· ≤ v) := by
  induction xs generalizing i with
  | nil =>
      simp at hv
  | cons x rest ih =>
      obtain ⟨hx, hrest⟩ := List.pairwise_cons.mp hsorted
      cases i with
      | zero =>
          have hxv : x = v := by simpa using hv
          rw [List.countP_cons_of_pos (by simp [hxv])]
          omega
      | succ i =>
          have hv' : rest[i]? = some v := by simpa using hv
          have hxv : x ≤ v := hx v (List.mem_of_getElem? hv')
          have hbefore := ih hrest hv'
          rw [List.countP_cons_of_pos (by simpa using hxv)]
          omega

/-- Later entries of a sorted list are not smaller. -/
theorem le_of_sorted
    {xs : List α} {i j : Nat} {v w : α}
    (hsorted : xs.Pairwise (· ≤ ·))
    (hij : i ≤ j)
    (hv : xs[i]? = some v)
    (hw : xs[j]? = some w) :
    v ≤ w := by
  obtain ⟨hi, rfl⟩ := List.getElem?_eq_some_iff.mp hv
  obtain ⟨hj, rfl⟩ := List.getElem?_eq_some_iff.mp hw
  rcases Nat.eq_or_lt_of_le hij with rfl | hlt
  · exact le_rfl
  · exact List.pairwise_iff_getElem.mp hsorted i j hi hj hlt

/-- Sorting forgets the order. -/
theorem insertionSort_eq_of_perm
    {xs ys : List α}
    (h : xs.Perm ys) :
    xs.insertionSort (· ≤ ·) = ys.insertionSort (· ≤ ·) := by
  have hperm : (xs.insertionSort (· ≤ ·)).Perm (ys.insertionSort (· ≤ ·)) :=
    (List.perm_insertionSort _ xs).trans (h.trans (List.perm_insertionSort _ ys).symm)
  exact hperm.eq_of_pairwise' (List.pairwise_insertionSort _ xs)
    (List.pairwise_insertionSort _ ys)

/-- The entry at the share `a / b` of the sorted list is the quantile. -/
theorem isQuantile_of_insertionSort
    {xs : List α} {a b : Nat} {v : α}
    (hb : 0 < b)
    (hv : (xs.insertionSort (· ≤ ·))[xs.length * a / b]? = some v) :
    IsQuantile (a / b) xs v := by
  have hsorted := List.pairwise_insertionSort (· ≤ ·) xs
  have hperm := List.perm_insertionSort (· ≤ ·) xs
  have hb' : (0 : ℚ) < b := Nat.cast_pos.mpr hb
  have hfloor : xs.length * a / b * b ≤ xs.length * a := Nat.div_mul_le_self _ _
  have hceil : xs.length * a < b * (xs.length * a / b + 1) := Nat.lt_mul_div_succ _ hb
  constructor
  · exact hperm.mem_iff.mp (List.mem_of_getElem? hv)
  · have hcount := countP_lt_le_of_sorted hsorted hv
    rw [hperm.countP_eq] at hcount
    have hscaled : xs.countP (· < v) * b ≤ xs.length * a :=
      (Nat.mul_le_mul_right b hcount).trans hfloor
    rw [div_mul_eq_mul_div, le_div_iff₀ hb', mul_comm (a : ℚ)]
    exact_mod_cast hscaled
  · have hcount := lt_countP_le_of_sorted hsorted hv
    rw [hperm.countP_eq] at hcount
    have hscaled : xs.length * a < b * xs.countP (· ≤ v) :=
      hceil.trans_le (Nat.mul_le_mul_left b hcount)
    rw [div_mul_eq_mul_div, div_lt_iff₀ hb', mul_comm (a : ℚ), mul_comm _ (b : ℚ)]
    exact_mod_cast hscaled

end Lib
end TaskQueue
