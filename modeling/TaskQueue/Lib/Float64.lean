import Mathlib.Tactic

/-!
# Integers as float64 values

A number that a decoder turns into a `float64` keeps 53 significant bits.
`roundFloat64` is the nearest such value of an integer, ties going to the even
significand.  The integers that are kept are those with a significand of 53 bits
(`roundFloat64_eq_iff`), among them all of at most 53 bits
(`roundFloat64_of_natAbs_le`).
-/

namespace TaskQueue
namespace Lib

/-- The nearest value with 53 significant bits, of a natural number. -/
def roundSignificand (m : Nat) : Nat :=
  if m ≤ 2 ^ 53 then
    m
  else
    let unit := 2 ^ (Nat.log2 m - 52)
    let q := m / unit
    let r := m % unit
    if 2 * r < unit ∨ (2 * r = unit ∧ q % 2 = 0) then
      q * unit
    else
      (q + 1) * unit

/-- The `float64` nearest to an integer. -/
def roundFloat64 (n : Int) : Int :=
  n.sign * roundSignificand n.natAbs

theorem roundFloat64_of_natAbs_le
    {n : Int}
    (h : n.natAbs ≤ 2 ^ 53) :
    roundFloat64 n = n := by
  rw [roundFloat64, roundSignificand, if_pos h]
  exact Int.sign_mul_natAbs n

/-- At most 53 bits lie between the highest and the lowest bit that is set. -/
def HasSignificand53 (n : Int) : Prop :=
  ∃ m k : Nat, m ≤ 2 ^ 53 ∧ n.natAbs = m * 2 ^ k

/-- A number of more than 53 bits is a multiple of the unit in its last place. -/
theorem dvd_of_significand53
    {m a k : Nat}
    (hbig : 2 ^ 53 < m)
    (ha : a ≤ 2 ^ 53)
    (hm : m = a * 2 ^ k) :
    2 ^ (Nat.log2 m - 52) ∣ m := by
  have hne : m ≠ 0 := by omega
  by_cases hk : Nat.log2 m - 52 ≤ k
  · rw [hm]
    exact (Nat.pow_dvd_pow 2 (hm ▸ hk)).trans (Nat.dvd_mul_left _ a)
  · have hle : m ≤ 2 ^ Nat.log2 m := by
      calc m = a * 2 ^ k := hm
        _ ≤ 2 ^ 53 * 2 ^ k := Nat.mul_le_mul_right _ ha
        _ = 2 ^ (53 + k) := (Nat.pow_add 2 53 k).symm
        _ ≤ 2 ^ Nat.log2 m := Nat.pow_le_pow_right (by norm_num) (by omega)
    have heq : 2 ^ Nat.log2 m = m := le_antisymm (Nat.log2_self_le hne) hle
    have hdvd : 2 ^ (Nat.log2 m - 52) ∣ 2 ^ Nat.log2 m := Nat.pow_dvd_pow 2 (Nat.sub_le _ 52)
    rwa [heq] at hdvd

theorem div_unit_le
    {m : Nat}
    (hbig : 2 ^ 53 < m) :
    m / 2 ^ (Nat.log2 m - 52) ≤ 2 ^ 53 := by
  have hlog : 53 ≤ Nat.log2 m := (Nat.le_log2 (by omega)).mpr hbig.le
  apply Nat.le_of_lt
  rw [Nat.div_lt_iff_lt_mul (by positivity), ← Nat.pow_add]
  have hexp : 53 + (Nat.log2 m - 52) = Nat.log2 m + 1 := by omega
  rw [hexp]
  exact Nat.lt_log2_self

theorem roundSignificand_eq_iff
    (m : Nat) :
    roundSignificand m = m ↔ ∃ a k, a ≤ 2 ^ 53 ∧ m = a * 2 ^ k := by
  by_cases hsmall : m ≤ 2 ^ 53
  · rw [roundSignificand, if_pos hsmall]
    exact iff_of_true rfl ⟨m, 0, hsmall, by simp⟩
  · have hbig : 2 ^ 53 < m := Nat.lt_of_not_le hsmall
    have hunit : 0 < 2 ^ (Nat.log2 m - 52) := by positivity
    have hdivmod := Nat.div_add_mod m (2 ^ (Nat.log2 m - 52))
    have hmod := Nat.mod_lt m hunit
    rw [roundSignificand, if_neg hsmall]
    constructor
    · intro h
      refine ⟨m / 2 ^ (Nat.log2 m - 52), Nat.log2 m - 52, div_unit_le hbig, ?_⟩
      dsimp only at h
      split_ifs at h
      · exact h.symm
      · rw [Nat.add_mul, Nat.one_mul, Nat.mul_comm] at h
        omega
    · rintro ⟨a, k, ha, hm⟩
      have hdvd := dvd_of_significand53 hbig ha hm
      have hzero : m % 2 ^ (Nat.log2 m - 52) = 0 := Nat.mod_eq_zero_of_dvd hdvd
      dsimp only
      rw [hzero, if_pos (Or.inl (by omega)), Nat.div_mul_cancel hdvd]

/-- The integers that are `float64` values. -/
theorem roundFloat64_eq_iff
    (n : Int) :
    roundFloat64 n = n ↔ HasSignificand53 n := by
  unfold HasSignificand53
  rw [← roundSignificand_eq_iff, roundFloat64]
  constructor
  · intro h
    have habs := congrArg Int.natAbs h
    rw [Int.natAbs_mul, Int.natAbs_natCast, Int.natAbs_sign] at habs
    split_ifs at habs with hzero
    · subst hzero
      rfl
    · rwa [Nat.one_mul] at habs
  · intro h
    rw [h]
    exact Int.sign_mul_natAbs n
example : roundFloat64 (2 ^ 53 + 1) = 2 ^ 53 := by
  decide +kernel

end Lib
end TaskQueue
