import TaskQueue.Lib.Checksum

/-!
# Changes of a few bytes in a row

The CRC-32C sees every change of at most four consecutive bytes.  A step of the CRC is linear
(`crcBit_xor`), and on a state whose lowest bit is clear it is a shift.  So the bytes of a
window of at most four can be added to the state all at once, before the steps for all of
them (`foldl_crcByte_burstWord`): the window as a number is part of the state, the steps can be
undone, and different windows lead to different states.
-/

namespace TaskQueue
namespace Lib

theorem shiftRight_xor
    (a b : UInt32) :
    (a ^^^ b) >>> 1 = (a >>> 1) ^^^ (b >>> 1) := by
  rw [← UInt32.toBitVec_inj]
  apply BitVec.eq_of_getLsbD_eq
  intro i _
  rw [shiftRight_one_bit, UInt32.toBitVec_xor, UInt32.toBitVec_xor, BitVec.getLsbD_xor,
    BitVec.getLsbD_xor, shiftRight_one_bit, shiftRight_one_bit]

/-- A step, by the lowest bit. -/
theorem crcBit_eq
    (c : UInt32) :
    crcBit c = (c >>> 1) ^^^ (if c.toBitVec.getLsbD 0 then 0x82F63B78 else 0) := by
  unfold crcBit
  cases hlow : c.toBitVec.getLsbD 0 with
  | true =>
      rw [if_pos ((and_one_iff c).mpr hlow), if_pos rfl]
  | false =>
      have hnot : ¬ c &&& 1 = 1 := by
        rw [and_one_iff, hlow]
        decide
      rw [if_neg hnot, if_neg (by decide), UInt32.xor_zero]

/-- A step is linear. -/
theorem crcBit_xor
    (a b : UInt32) :
    crcBit (a ^^^ b) = crcBit a ^^^ crcBit b := by
  have hpoly : (if (a ^^^ b).toBitVec.getLsbD 0 then (0x82F63B78 : UInt32) else 0) =
      (if a.toBitVec.getLsbD 0 then 0x82F63B78 else 0) ^^^
        (if b.toBitVec.getLsbD 0 then 0x82F63B78 else 0) := by
    rw [UInt32.toBitVec_xor, BitVec.getLsbD_xor]
    cases a.toBitVec.getLsbD 0 <;> cases b.toBitVec.getLsbD 0 <;> decide
  rw [crcBit_eq, crcBit_eq a, crcBit_eq b, shiftRight_xor, hpoly]
  ac_rfl

theorem iterate_crcBit_xor
    (k : Nat) (a b : UInt32) :
    crcBit^[k] (a ^^^ b) = crcBit^[k] a ^^^ crcBit^[k] b := by
  induction k generalizing a b with
  | zero =>
      rfl
  | succ k ih =>
      rw [Function.iterate_succ_apply, Function.iterate_succ_apply, Function.iterate_succ_apply,
        crcBit_xor, ih]

/-- On an even state a step is a shift. -/
theorem toNat_crcBit_even
    {c : UInt32} {y : Nat}
    (h : c.toNat = 2 * y) :
    (crcBit c).toNat = y := by
  have hnot : ¬ c &&& 1 = 1 := by
    intro hodd
    have hmod := congrArg UInt32.toNat hodd
    rw [UInt32.toNat_and, h] at hmod
    simp at hmod
  rw [crcBit, if_neg hnot, UInt32.toNat_shiftRight, h]
  show (2 * y) >>> 1 = y
  rw [Nat.shiftRight_eq_div_pow]
  omega

theorem toNat_iterate_crcBit
    {k : Nat} {c : UInt32} {y : Nat}
    (h : c.toNat = 2 ^ k * y) :
    (crcBit^[k] c).toNat = y := by
  induction k generalizing c with
  | zero =>
      simpa using h
  | succ k ih =>
      rw [Function.iterate_succ_apply]
      refine ih (toNat_crcBit_even ?_)
      rw [h, Nat.pow_succ]
      ring

/-- Some bytes as a state. -/
def burstWord (w : Bytes) : UInt32 := UInt32.ofNat (unLe w)

theorem unLe_lt
    (w : Bytes) :
    unLe w < 256 ^ w.length := by
  induction w with
  | nil =>
      decide
  | cons b w ih =>
      have hb : b.toNat < 256 := b.toNat_lt
      rw [unLe, List.length_cons, Nat.pow_succ]
      omega

theorem toNat_burstWord
    {w : Bytes}
    (h : w.length ≤ 4) :
    (burstWord w).toNat = unLe w := by
  have hlt := unLe_lt w
  have hpow : 256 ^ w.length ≤ 256 ^ 4 := Nat.pow_le_pow_right (by decide) h
  rw [burstWord, UInt32.toNat_ofNat']
  exact Nat.mod_eq_of_lt (hlt.trans_le hpow)

/-- A byte in front of at most three others. -/
theorem burstWord_cons
    (b : UInt8) {w : Bytes}
    (h : w.length ≤ 3) :
    ∃ shifted : UInt32, burstWord (b :: w) = b.toUInt32 ^^^ shifted ∧
      crcBit^[8] shifted = burstWord w := by
  have hlt : unLe w < 2 ^ 24 := by
    have hpow : 256 ^ w.length ≤ 256 ^ 3 := Nat.pow_le_pow_right (by decide) h
    exact (unLe_lt w).trans_le hpow
  have hshifted : (UInt32.ofNat (2 ^ 8 * unLe w)).toNat = 2 ^ 8 * unLe w := by
    rw [UInt32.toNat_ofNat']
    exact Nat.mod_eq_of_lt (by omega)
  refine ⟨UInt32.ofNat (2 ^ 8 * unLe w), ?_, ?_⟩
  · have hb : b.toNat < 2 ^ 8 := b.toNat_lt
    have hlen : (b :: w).length ≤ 4 := Nat.succ_le_succ h
    apply UInt32.toNat_inj.mp
    rw [toNat_burstWord hlen, UInt32.toNat_xor, hshifted, UInt8.toNat_toUInt32, unLe]
    -- the byte and what is shifted have no bit in common
    apply Nat.eq_of_testBit_eq
    intro i
    rw [Nat.testBit_xor, show b.toNat + 256 * unLe w = 2 ^ 8 * unLe w + b.toNat by omega,
      Nat.testBit_two_pow_mul_add _ hb, Nat.testBit_two_pow_mul]
    by_cases hi : i < 8
    · simp [hi, Nat.not_le.mpr hi]
    · have hzero : b.toNat.testBit i = false :=
        Nat.testBit_lt_two_pow (hb.trans_le (Nat.pow_le_pow_right (by decide) (by omega)))
      simp [hi, Nat.not_lt.mp hi, hzero]
  · apply UInt32.toNat_inj.mp
    rw [toNat_iterate_crcBit hshifted, toNat_burstWord (by omega)]

/-- The steps for at most four bytes are those on the state with all of them added to it. -/
theorem foldl_crcByte_burstWord
    (c : UInt32) {w : Bytes}
    (h : w.length ≤ 4) :
    w.foldl crcByte c = crcBit^[8 * w.length] (c ^^^ burstWord w) := by
  induction w generalizing c with
  | nil =>
      exact (UInt32.xor_zero (a := c)).symm
  | cons b w ih =>
      rw [List.length_cons] at h
      obtain ⟨shifted, hcons, hshift⟩ := burstWord_cons b (w := w) (by omega)
      rw [List.foldl_cons, ih _ (by omega), List.length_cons, Nat.mul_add, Nat.mul_one,
        Function.iterate_add_apply, hcons, crcByte, ← UInt32.xor_assoc,
        iterate_crcBit_xor 8 _ shifted, hshift]

/-- Different windows of at most four bytes take a state to different states. -/
theorem foldl_crcByte_burstWord_injective
    (c : UInt32) {w w' : Bytes}
    (hlen : w'.length = w.length)
    (h : w.length ≤ 4)
    (heq : w'.foldl crcByte c = w.foldl crcByte c) :
    w' = w := by
  rw [foldl_crcByte_burstWord c h, foldl_crcByte_burstWord c (hlen ▸ h), hlen] at heq
  have hxor := crcBit_injective.iterate (8 * w.length) heq
  have hwindow := congrArg UInt32.toNat ((UInt32.xor_right_inj c).mp hxor)
  rw [toNat_burstWord h, toNat_burstWord (hlen ▸ h)] at hwindow
  exact unLe_injective hlen hwindow

/-- CRC-32C sees every change of at most four bytes in a row. -/
theorem crc32c_burst_ne
    {before after w w' : Bytes}
    (hlen : w'.length = w.length)
    (h : w.length ≤ 4)
    (hne : w' ≠ w) :
    crc32c (before ++ (w' ++ after)) ≠ crc32c (before ++ (w ++ after)) := by
  intro heq
  have hfold := (UInt32.xor_left_inj 0xFFFFFFFF).mp heq
  simp only [List.foldl_append] at hfold
  exact hne (foldl_crcByte_burstWord_injective _ hlen h (foldl_crcByte_injective after hfold))

end Lib
end TaskQueue
