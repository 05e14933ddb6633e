import TaskQueue.Lib.Bytes

/-!
# Changes of one byte

What a number in little-endian order and the CRC-32C tell about a byte string of which one
byte has changed: both are different afterwards.

The CRC is a fold, and every step of it can be undone.  The highest bit of the polynomial is
set, so that the highest bit after a step says whether the polynomial was added in it
(`crcBit_high`); without the polynomial a step is a shift, and the bit that was shifted out is
the one that was just found.
-/

namespace TaskQueue
namespace Lib

theorem set_ne_self
    {bs : Bytes} {k : Nat} {b v : UInt8}
    (hb : bs[k]? = some b)
    (hv : v ≠ b) :
    bs.set k v ≠ bs := by
  intro heq
  have hk : k < bs.length := (List.getElem?_eq_some_iff.mp hb).1
  have hget := List.getElem?_set_self hk (a := v)
  rw [heq, hb, Option.some_inj] at hget
  exact hv hget.symm

/-- A number of a given width determines its bytes. -/
theorem unLe_injective
    {bs bs' : Bytes}
    (hlen : bs'.length = bs.length)
    (h : unLe bs' = unLe bs) :
    bs' = bs := by
  rw [← le_unLe bs', ← le_unLe bs, hlen, h]

theorem unLe_set_ne
    {bs : Bytes} {k : Nat} {b v : UInt8}
    (hb : bs[k]? = some b)
    (hv : v ≠ b) :
    unLe (bs.set k v) ≠ unLe bs := by
  intro heq
  exact set_ne_self hb hv (unLe_injective (List.length_set) heq)

section Crc

theorem and_one_iff
    (c : UInt32) :
    c &&& 1 = 1 ↔ c.toBitVec.getLsbD 0 = true := by
  rw [← UInt32.toBitVec_inj, UInt32.toBitVec_and]
  show c.toBitVec &&& 1#32 = 1#32 ↔ _
  rw [BitVec.and_one_eq_setWidth_ofBool_getLsbD]
  cases c.toBitVec.getLsbD 0 <;> decide

theorem shiftRight_one_bit
    (c : UInt32) (i : Nat) :
    (c >>> 1).toBitVec.getLsbD i = c.toBitVec.getLsbD (i + 1) := by
  rw [UInt32.toBitVec_shiftRight]
  simp [Nat.add_comm]

/-- The highest bit after a step is the lowest bit before it. -/
theorem crcBit_high
    (c : UInt32) :
    (crcBit c).toBitVec.getLsbD 31 = c.toBitVec.getLsbD 0 := by
  have htop : c.toBitVec.getLsbD 32 = false := BitVec.getLsbD_of_ge _ _ le_rfl
  rw [crcBit]
  split_ifs with hlow
  · rw [UInt32.toBitVec_xor, BitVec.getLsbD_xor, shiftRight_one_bit, htop,
      (and_one_iff c).mp hlow]
    rfl
  · rw [and_one_iff, Bool.not_eq_true] at hlow
    rw [shiftRight_one_bit, htop, hlow]

theorem crcBit_injective : Function.Injective crcBit := by
  intro a b hab
  have hlow : a.toBitVec.getLsbD 0 = b.toBitVec.getLsbD 0 := by
    rw [← crcBit_high, ← crcBit_high, hab]
  have hshift : a >>> 1 = b >>> 1 := by
    have hiff : a &&& 1 = 1 ↔ b &&& 1 = 1 := by
      rw [and_one_iff, and_one_iff, hlow]
    unfold crcBit at hab
    split_ifs at hab with ha hb hb
    · exact (UInt32.xor_left_inj 0x82F63B78).mp hab
    · exact absurd (hiff.mp ha) hb
    · exact absurd (hiff.mpr hb) ha
    · exact hab
  rw [← UInt32.toBitVec_inj]
  apply BitVec.eq_of_getLsbD_eq
  intro i _
  cases i with
  | zero =>
      exact hlow
  | succ i =>
      rw [← shiftRight_one_bit, hshift, shiftRight_one_bit]

/-- A byte takes different states to different states. -/
theorem crcByte_state_injective
    (b : UInt8) :
    Function.Injective (crcByte · b) := by
  intro c d hcd
  have hxor := crcBit_injective.iterate 8 hcd
  exact (UInt32.xor_left_inj b.toUInt32).mp hxor

/-- Different bytes take a state to different states. -/
theorem crcByte_injective
    (c : UInt32) :
    Function.Injective (crcByte c) := by
  intro a b hab
  have hxor := crcBit_injective.iterate 8 hab
  have hwide := congrArg UInt32.toNat ((UInt32.xor_right_inj c).mp hxor)
  rw [← UInt8.toNat_inj]
  simpa using hwide

theorem foldl_crcByte_injective
    (bs : Bytes) :
    Function.Injective (fun c => bs.foldl crcByte c) := by
  induction bs with
  | nil =>
      exact fun _ _ h => h
  | cons b bs ih =>
      exact fun _ _ h => crcByte_state_injective b (ih h)

/-- CRC-32C sees every change of one byte. -/
theorem crc32c_set_ne
    {bs : Bytes} {k : Nat} {b v : UInt8}
    (hb : bs[k]? = some b)
    (hv : v ≠ b) :
    crc32c (bs.set k v) ≠ crc32c bs := by
  obtain ⟨hk, rfl⟩ := List.getElem?_eq_some_iff.mp hb
  intro heq
  have hfold := (UInt32.xor_left_inj 0xFFFFFFFF).mp heq
  have hsplit : bs = bs.take k ++ bs[k] :: bs.drop (k + 1) := by
    rw [← List.drop_eq_getElem_cons hk, List.take_append_drop]
  have hold := congrArg (List.foldl crcByte 0xFFFFFFFF) hsplit
  rw [List.foldl_append, List.foldl_cons] at hold
  rw [List.set_eq_take_append_cons_drop, if_pos hk, List.foldl_append, List.foldl_cons] at hfold
  exact hv (crcByte_injective _ (foldl_crcByte_injective _ (hfold.trans hold)))

end Crc

end Lib
end TaskQueue
