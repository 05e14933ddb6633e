import Mathlib.Tactic

/-!
# Byte strings

Byte strings as lists, little-endian numbers of a fixed width, reads of a fixed
number of bytes, and the CRC-32C checksum (Castagnoli polynomial, reflected).
-/

namespace TaskQueue
namespace Lib

/-- A byte string. -/
abbrev Bytes := List UInt8

/-- The `k` low bytes of `n`, least significant first. -/
def le : Nat → Nat → Bytes
  | 0, _ => []
  | k + 1, n => UInt8.ofNat n :: le k (n / 256)

/-- The number written in little-endian order. -/
def unLe : Bytes → Nat
  | [] => 0
  | b :: bs => b.toNat + 256 * unLe bs

@[simp] theorem le_length
    (k n : Nat) :
    (le k n).length = k := by
  induction k generalizing n with
  | zero =>
      rfl
  | succ k ih =>
      simp [le, ih]

/-- A number that fits the width is read back. -/
theorem unLe_le
    {k n : Nat}
    (h : n < 256 ^ k) :
    unLe (le k n) = n := by
  induction k generalizing n with
  | zero =>
      simp at h
      subst h
      rfl
  | succ k ih =>
      have hdiv : n / 256 < 256 ^ k := by
        rw [Nat.div_lt_iff_lt_mul (by norm_num)]
        rwa [Nat.pow_succ] at h
      have hbyte : (UInt8.ofNat n).toNat = n % 256 := by
        simp
      rw [le, unLe, ih hdiv, hbyte]
      exact Nat.mod_add_div n 256

/-- The bytes of a number are those that it was read from. -/
theorem le_unLe
    (bs : Bytes) :
    le bs.length (unLe bs) = bs := by
  induction bs with
  | nil =>
      rfl
  | cons b bs ih =>
      have hlt : b.toNat < 256 := b.toNat_lt
      have hdiv : (b.toNat + 256 * unLe bs) / 256 = unLe bs := by
        omega
      have hbyte : UInt8.ofNat (b.toNat + 256 * unLe bs) = b := by
        apply UInt8.toNat_inj.mp
        rw [UInt8.toNat_ofNat']
        omega
      rw [List.length_cons, unLe, le, hdiv, hbyte, ih]

/-- `io.ReadFull`: exactly `n` bytes and the rest, or `none` at the end of the input. -/
def readFull (n : Nat) (bs : Bytes) : Option (Bytes × Bytes) :=
  if bs.length < n then
    none
  else
    some (bs.take n, bs.drop n)

theorem readFull_append
    {n : Nat} {p : Bytes}
    (h : p.length = n)
    (rest : Bytes) :
    readFull n (p ++ rest) = some (p, rest) := by
  subst h
  simp [readFull]

theorem readFull_short
    {n : Nat} {bs : Bytes}
    (h : bs.length < n) :
    readFull n bs = none := by
  simp [readFull, h]

theorem readFull_none
    {n : Nat} {bs : Bytes}
    (h : readFull n bs = none) :
    bs.length < n := by
  unfold readFull at h
  split_ifs at h with hlt
  exact hlt

theorem readFull_some
    {n : Nat} {bs p rest : Bytes}
    (h : readFull n bs = some (p, rest)) :
    bs = p ++ rest ∧ p.length = n := by
  unfold readFull at h
  split_ifs at h with hlt
  cases h
  refine ⟨(List.take_append_drop n bs).symm, ?_⟩
  rw [List.length_take]
  omega

/-- One bit of the reflected CRC-32C. -/
def crcBit (c : UInt32) : UInt32 :=
  if c &&& 1 = 1 then (c >>> 1) ^^^ 0x82F63B78 else c >>> 1

/-- One byte of the CRC-32C. -/
def crcByte (c : UInt32) (b : UInt8) : UInt32 :=
  Nat.iterate crcBit 8 (c ^^^ b.toUInt32)

/-- `crc32.Checksum` with the Castagnoli table. -/
def crc32c (bs : Bytes) : UInt32 :=
  bs.foldl crcByte 0xFFFFFFFF ^^^ 0xFFFFFFFF

/-- The check value of CRC-32C: the checksum of `"123456789"`. -/
example :
    crc32c [0x31, 0x32, 0x33, 0x34, 0x35, 0x36, 0x37, 0x38, 0x39] = 0xE3069283 := by
  decide +kernel

end Lib
end TaskQueue
