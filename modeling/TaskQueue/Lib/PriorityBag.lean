import Mathlib.Tactic

/-!
# Priority multisets

What a priority queue is for, without a representation: a multiset of elements with keys in
a linear order.  `Pops` takes out an element with the least key; `Releases` takes out all
elements whose key has come, in the order of their keys.  `Releases.cons` and
`Releases.nothing` are the two cases of a loop that pops as long as the least key has come.
-/

namespace TaskQueue
namespace Lib

universe u v

section PriorityBag

variable {ι : Type u} {κ : Type v} [LinearOrder κ]

/-- `a` is an element with the least key. -/
structure IsFirst (key : ι → κ) (bag : Multiset ι) (a : ι) : Prop where
  mem : a ∈ bag
  le : ∀ b ∈ bag, key a ≤ key b

/-- An element with the least key is taken out, if there is one. -/
inductive Pops (key : ι → κ) (bag : Multiset ι) : Option ι → Multiset ι → Prop
  | empty (h : bag = 0) : Pops key bag none bag
  | first {a : ι} {rest : Multiset ι}
      (hfirst : IsFirst key bag a)
      (hrest : a ::ₘ rest = bag) :
      Pops key bag (some a) rest

/-- The elements whose key has come are taken out in the order of their keys. -/
structure Releases (key : ι → κ) (now : κ) (bag : Multiset ι) (ready : List ι)
    (rest : Multiset ι) : Prop where
  due : (ready : Multiset ι) = bag.filter (fun a => key a ≤ now)
  later : rest = bag.filter (fun a => now < key a)
  sorted : ready.Pairwise (fun a b => key a ≤ key b)

variable {key : ι → κ} {now : κ} {bag rest : Multiset ι} {ready : List ι}

/-- No key has come. -/
theorem Releases.nothing
    (h : ∀ a ∈ bag, now < key a) :
    Releases key now bag [] bag where
  due := by
    symm
    rw [Multiset.coe_nil, Multiset.filter_eq_nil]
    exact fun a ha => not_le.mpr (h a ha)
  later := (Multiset.filter_eq_self.mpr h).symm
  sorted := List.Pairwise.nil

/-- The least key has come: its element is the first one, and the rest follows. -/
theorem Releases.cons
    {a : ι} {left : Multiset ι}
    (hfirst : IsFirst key bag a)
    (hrest : a ::ₘ rest = bag)
    (ha : key a ≤ now)
    (h : Releases key now rest ready left) :
    Releases key now bag (a :: ready) left where
  due := by
    rw [← hrest, Multiset.filter_cons_of_pos (p := fun a => key a ≤ now) rest ha, ← h.due]
    rfl
  later := by
    rw [← hrest, Multiset.filter_cons_of_neg (p := fun a => now < key a) rest (not_lt.mpr ha)]
    exact h.later
  sorted := by
    refine List.Pairwise.cons ?_ h.sorted
    intro b hb
    have hmem : b ∈ (ready : Multiset ι) := hb
    rw [h.due] at hmem
    refine hfirst.le b ?_
    rw [← hrest]
    exact Multiset.mem_cons_of_mem (Multiset.mem_of_mem_filter hmem)

theorem Releases.mem_due
    (h : Releases key now bag ready rest)
    {a : ι} :
    a ∈ ready ↔ a ∈ bag ∧ key a ≤ now := by
  have hmem : a ∈ ready ↔ a ∈ (ready : Multiset ι) := Iff.rfl
  rw [hmem, h.due, Multiset.mem_filter]

theorem Releases.mem_later
    (h : Releases key now bag ready rest)
    {a : ι} :
    a ∈ rest ↔ a ∈ bag ∧ now < key a := by
  rw [h.later, Multiset.mem_filter]

end PriorityBag

end Lib
end TaskQueue
