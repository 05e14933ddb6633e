import Mathlib.Tactic

/-!
# Decimal texts

The reading of a signed 64-bit integer from a decimal text, as `strconv.Atoi`
reads it, and the text from which a given integer is read.
-/

namespace TaskQueue
namespace Lib

/-- The value of a decimal digit. -/
def digitValue (c : Char) : Option Nat :=
  if '0' ≤ c ∧ c ≤ '9' then some (c.toNat - '0'.toNat) else none

/-- One more digit. -/
def pushDigit (n : Nat) (c : Char) : Option Nat :=
  (digitValue c).map (10 * n + ·)

/-- An unsigned number: one digit or more, and nothing else. -/
def parseNat (cs : List Char) : Option Nat :=
  if cs = [] then none else cs.foldlM pushDigit 0

/-- A number with an optional sign. -/
def parseInt : List Char → Option Int
  | '-' :: cs => (parseNat cs).map fun n : Nat => -(n : Int)
  | '+' :: cs => (parseNat cs).map fun n : Nat => (n : Int)
  | cs => (parseNat cs).map fun n : Nat => (n : Int)

/-- `strconv.Atoi`: `none` is a text that is no number, or a number that does not fit. -/
def atoi (text : String) : Option Int64 :=
  (parseInt text.toList).bind fun n =>
    if -2 ^ 63 ≤ n ∧ n < 2 ^ 63 then some (Int64.ofInt n) else none

/-- The text of an integer. -/
def decimal (n : Int) : List Char :=
  if n < 0 then '-' :: Nat.toDigits 10 n.natAbs else Nat.toDigits 10 n.natAbs

theorem digitValue_digitChar
    {k : Nat}
    (hk : k < 10) :
    digitValue k.digitChar = some k := by
  interval_cases k <;> rfl

theorem foldlM_pushDigit_toDigits
    (n : Nat) :
    (Nat.toDigits 10 n).foldlM pushDigit 0 = some n := by
  induction n using Nat.strong_induction_on with
  | _ n ih =>
      rw [Nat.toDigits_eq_if (by omega)]
      split_ifs with hn
      · simp [pushDigit, digitValue_digitChar hn]
      · have hlast : digitValue (n % 10).digitChar = some (n % 10) :=
          digitValue_digitChar (Nat.mod_lt n (by omega))
        rw [List.foldlM_append, ih (n / 10) (by omega)]
        simp [pushDigit, hlast]
        omega

theorem parseNat_toDigits
    (n : Nat) :
    parseNat (Nat.toDigits 10 n) = some n := by
  rw [parseNat, if_neg Nat.toDigits_ne_nil, foldlM_pushDigit_toDigits]

/-- A text that is read without a sign has none. -/
theorem parseInt_of_parseNat
    {cs : List Char} {n : Nat}
    (h : parseNat cs = some n) :
    parseInt cs = some (n : Int) := by
  unfold parseInt
  split
  · exact absurd h (by simp [parseNat, pushDigit, digitValue])
  · exact absurd h (by simp [parseNat, pushDigit, digitValue])
  · rw [h, Option.map_some]

theorem parseInt_decimal
    (n : Int) :
    parseInt (decimal n) = some n := by
  have habs := parseNat_toDigits n.natAbs
  unfold decimal
  split_ifs with hn
  · have hneg : -(n.natAbs : Int) = n := by omega
    rw [parseInt, habs, Option.map_some, hneg]
  · have hpos : (n.natAbs : Int) = n := by omega
    rw [parseInt_of_parseNat habs, hpos]

/-- Every 64-bit integer is read from its own text. -/
theorem atoi_decimal
    (n : Int64) :
    atoi (String.ofList (decimal n.toInt)) = some n := by
  have hmin := n.le_toInt
  have hmax := n.toInt_lt
  rw [atoi, String.toList_ofList, parseInt_decimal, Option.bind_some,
    if_pos ⟨by omega, by omega⟩, Int64.ofInt_toInt]

theorem digitChar_of_mem_toDigits
    {n : Nat} {c : Char}
    (h : c ∈ Nat.toDigits 10 n) :
    ∃ k < 10, c = Nat.digitChar k := by
  induction n using Nat.strong_induction_on with
  | _ n ih =>
      rw [Nat.toDigits_eq_if (by omega)] at h
      split_ifs at h with hn
      · exact ⟨n, hn, List.mem_singleton.mp h⟩
      · rcases List.mem_append.mp h with hfirst | hlast
        · exact ih (n / 10) (by omega) hfirst
        · exact ⟨n % 10, Nat.mod_lt n (by omega), List.mem_singleton.mp hlast⟩

/-- The text of an integer has digits in it, and perhaps a minus sign. -/
theorem mem_decimal
    {n : Int} {c : Char}
    (h : c ∈ decimal n) :
    c = '-' ∨ ∃ k < 10, c = Nat.digitChar k := by
  unfold decimal at h
  split_ifs at h
  · rcases List.mem_cons.mp h with hsign | hdigit
    · exact Or.inl hsign
    · exact Or.inr (digitChar_of_mem_toDigits hdigit)
  · exact Or.inr (digitChar_of_mem_toDigits h)

/-- Different integers have different texts. -/
theorem decimal_injective : Function.Injective decimal := by
  intro a b h
  have hread := parseInt_decimal a
  rw [h, parseInt_decimal b] at hread
  exact (Option.some.inj hread).symm

end Lib
end TaskQueue
