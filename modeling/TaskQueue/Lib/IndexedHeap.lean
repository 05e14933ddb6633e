import Mathlib.Tactic

/-!
# Binary heaps whose elements know their position

The heap operations of Go's `container/heap` on a slice whose `Swap`, `Push` and
`Pop` keep, for every element, the index at which it stands.  The index is data
of the element, so it exists also for elements that are not in the heap: it is
`0` before the first push and `-1` after a pop.

Every operation rearranges the slice by swaps.  `Rearranged` says what a series
of swaps below a bound can do; `push_spec`, `pop_spec` and `remove_spec` are the
only facts a user of the heap needs about its elements and indices.
-/

namespace TaskQueue
namespace Lib

universe u

/-- A slice of elements together with the index every element has stored. -/
structure IndexedHeap (ι : Type u) where
  inner : List ι
  index : ι → Int

namespace IndexedHeap

variable {ι : Type u}

/-- The empty heap: no element has been pushed, all indices are the zero value. -/
def empty : IndexedHeap ι where
  inner := []
  index := fun _ => 0

/-- Every element of the slice has its position stored. -/
def Indexed (h : IndexedHeap ι) : Prop :=
  ∀ (k : Nat) (a : ι), h.inner[k]? = some a → h.index a = k

theorem empty_indexed : (empty : IndexedHeap ι).Indexed := by
  intro k a hk
  simp [empty] at hk

/-- Stored positions tell the elements apart. -/
theorem Indexed.nodup
    {h : IndexedHeap ι}
    (hi : h.Indexed) :
    h.inner.Nodup := by
  rw [List.nodup_iff_getElem?_ne_getElem?]
  intro i j hij hj heq
  have hget := List.getElem?_eq_getElem hj
  have hindex := hi j _ hget
  rw [hi i _ (heq.trans hget)] at hindex
  omega

/--
`h'` arises from `h` by swaps of positions below `n`: the elements are the same,
those from position `n` on stay in place, the stored positions stay right, and
no other index changes.
-/
structure Rearranged (n : Nat) (h h' : IndexedHeap ι) : Prop where
  perm : h'.inner.Perm h.inner
  above : ∀ k, n ≤ k → h'.inner[k]? = h.inner[k]?
  indexed : h.Indexed → h'.Indexed
  others : ∀ a, a ∉ h.inner → h'.index a = h.index a

theorem Rearranged.refl
    (n : Nat) (h : IndexedHeap ι) :
    Rearranged n h h where
  perm := List.Perm.refl _
  above := fun _ _ => rfl
  indexed := id
  others := fun _ _ => rfl

theorem Rearranged.trans
    {n : Nat} {h₁ h₂ h₃ : IndexedHeap ι}
    (h₁₂ : Rearranged n h₁ h₂)
    (h₂₃ : Rearranged n h₂ h₃) :
    Rearranged n h₁ h₃ where
  perm := h₂₃.perm.trans h₁₂.perm
  above := fun k hk => (h₂₃.above k hk).trans (h₁₂.above k hk)
  indexed := fun h => h₂₃.indexed (h₁₂.indexed h)
  others := by
    intro a ha
    have ha₂ : a ∉ h₂.inner := fun hmem => ha (h₁₂.perm.mem_iff.mp hmem)
    exact (h₂₃.others a ha₂).trans (h₁₂.others a ha)

theorem Rearranged.mono
    {m n : Nat} {h h' : IndexedHeap ι}
    (hr : Rearranged m h h')
    (hmn : m ≤ n) :
    Rearranged n h h' where
  perm := hr.perm
  above := fun k hk => hr.above k (hmn.trans hk)
  indexed := hr.indexed
  others := hr.others

/-- With the positions stored, no element stands at two of them. -/
theorem Indexed.position_unique
    {h : IndexedHeap ι}
    (hi : h.Indexed)
    {k l : Nat} {a : ι}
    (hk : h.inner[k]? = some a)
    (hl : h.inner[l]? = some a) :
    k = l := by
  have hkl : (k : Int) = l := (hi k a hk).symm.trans (hi l a hl)
  exact_mod_cast hkl

/--
What taking an element out does: the element is returned with index `-1`, the
others stay with their positions stored, and no index outside the heap changes.
-/
structure Taken (h : IndexedHeap ι) (a : ι) (h' : IndexedHeap ι) : Prop where
  perm : (a :: h'.inner).Perm h.inner
  indexed : h.Indexed → h'.Indexed
  index_self : h'.index a = -1
  others : ∀ b, b ∉ h.inner → h'.index b = h.index b

/-- `Taken` before a swap of the element to the last position. -/
theorem Taken.of_rearranged
    {n : Nat} {h h₁ h' : IndexedHeap ι} {a : ι}
    (hr : Rearranged n h h₁)
    (ht : Taken h₁ a h') :
    Taken h a h' where
  perm := ht.perm.trans hr.perm
  indexed := fun hi => ht.indexed (hr.indexed hi)
  index_self := ht.index_self
  others := by
    intro b hb
    have hb₁ : b ∉ h₁.inner := fun hmem => hb (hr.perm.mem_iff.mp hmem)
    exact (ht.others b hb₁).trans (hr.others b hb)

variable [DecidableEq ι]

/-- `Swap`: exchange two elements and store their new positions. -/
def swap (h : IndexedHeap ι) (i j : Nat) : IndexedHeap ι :=
  match h.inner[i]?, h.inner[j]? with
  | some a, some b =>
      { inner := (h.inner.set i b).set j a
        index := Function.update (Function.update h.index b i) a j }
  | _, _ => h

/-- `Less`, for elements ordered by `key`. -/
def less (key : ι → Int) (h : IndexedHeap ι) (i j : Nat) : Bool :=
  match h.inner[i]?, h.inner[j]? with
  | some a, some b => key a < key b
  | _, _ => false

/-- `heap.up`: let the element at `j` rise while it is less than its parent. -/
def up (key : ι → Int) (h : IndexedHeap ι) (j : Nat) : IndexedHeap ι :=
  if hj : j = 0 then
    h
  else if less key h j ((j - 1) / 2) then
    up key (h.swap ((j - 1) / 2) j) ((j - 1) / 2)
  else
    h
termination_by j

/-- The lesser child of `i` among the first `n` elements, of which `2 * i + 1` is one. -/
def lesserChild (key : ι → Int) (h : IndexedHeap ι) (i n : Nat) : Nat :=
  if 2 * i + 2 < n ∧ less key h (2 * i + 2) (2 * i + 1) then
    2 * i + 2
  else
    2 * i + 1

/--
`heap.down`: let the element at `i` sink below `n` while a child is less than it.
The second component is the position at which it ends.
-/
def down (key : ι → Int) (h : IndexedHeap ι) (i n : Nat) : IndexedHeap ι × Nat :=
  if _hn : 2 * i + 1 < n then
    if less key h (lesserChild key h i n) i then
      down key (h.swap i (lesserChild key h i n)) (lesserChild key h i n) n
    else
      (h, i)
  else
    (h, i)
termination_by n - i
decreasing_by
  unfold lesserChild
  split_ifs <;> omega

/-- The `Push` of the slice followed by `heap.up`. -/
def push (key : ι → Int) (h : IndexedHeap ι) (a : ι) : IndexedHeap ι :=
  up key
    { inner := h.inner ++ [a]
      index := Function.update h.index a h.inner.length }
    h.inner.length

/-- The `Pop` of the slice: take the last element and store `-1` as its index. -/
def popLast (h : IndexedHeap ι) : Option (ι × IndexedHeap ι) :=
  h.inner.getLast?.map fun a =>
    (a, { inner := h.inner.dropLast, index := Function.update h.index a (-1) })

/-- `heap.Pop`. -/
def pop (key : ι → Int) (h : IndexedHeap ι) : Option (ι × IndexedHeap ι) :=
  let n := h.inner.length - 1
  (down key (h.swap 0 n) 0 n).1.popLast

/-- `heap.Remove`. -/
def remove (key : ι → Int) (h : IndexedHeap ι) (i : Nat) :
    Option (ι × IndexedHeap ι) :=
  let n := h.inner.length - 1
  if n = i then
    h.popLast
  else
    let sunk := down key (h.swap i n) i n
    if i < sunk.2 then
      sunk.1.popLast
    else
      (up key sunk.1 i).popLast

theorem swap_of_getElem?
    {h : IndexedHeap ι} {i j : Nat} {a b : ι}
    (ha : h.inner[i]? = some a)
    (hb : h.inner[j]? = some b) :
    h.swap i j =
      { inner := (h.inner.set i b).set j a
        index := Function.update (Function.update h.index b i) a j } := by
  simp only [swap, ha, hb]

theorem swap_indexed
    {h : IndexedHeap ι}
    (hi : h.Indexed)
    (i j : Nat) :
    (h.swap i j).Indexed := by
  unfold swap
  split
  · next a b ha hb =>
    intro k c hk
    have hil : i < h.inner.length := (List.getElem?_eq_some_iff.mp ha).1
    have hjl : j < h.inner.length := (List.getElem?_eq_some_iff.mp hb).1
    simp only [List.getElem?_set, List.length_set] at hk
    by_cases hjk : j = k
    · subst hjk
      rw [if_pos rfl, if_pos hjl, Option.some.injEq] at hk
      subst hk
      simp
    · rw [if_neg hjk] at hk
      by_cases hik : i = k
      · subst hik
        rw [if_pos rfl, if_pos hil, Option.some.injEq] at hk
        subst hk
        have hba : b ≠ a := by
          intro hba
          subst hba
          exact hjk (hi.position_unique hb ha)
        dsimp only
        rw [Function.update_of_ne hba, Function.update_self]
      · rw [if_neg hik] at hk
        have hca : c ≠ a := by
          intro hca
          subst hca
          exact hik (hi.position_unique ha hk)
        have hcb : c ≠ b := by
          intro hcb
          subst hcb
          exact hjk (hi.position_unique hb hk)
        dsimp only
        rw [Function.update_of_ne hca, Function.update_of_ne hcb]
        exact hi k c hk
  · exact hi

theorem swap_rearranged
    (h : IndexedHeap ι)
    {i j n : Nat}
    (hin : i < n) (hjn : j < n) :
    Rearranged n h (h.swap i j) where
  perm := by
    unfold swap
    split
    · next a b ha hb =>
      obtain ⟨hil, ha'⟩ := List.getElem?_eq_some_iff.mp ha
      obtain ⟨hjl, hb'⟩ := List.getElem?_eq_some_iff.mp hb
      subst ha' hb'
      exact List.set_set_perm hil hjl
    · exact List.Perm.refl _
  above := by
    intro k hk
    unfold swap
    split
    · rw [List.getElem?_set_ne (by omega), List.getElem?_set_ne (by omega)]
    · rfl
  indexed := fun hi => swap_indexed hi i j
  others := by
    intro c hc
    unfold swap
    split
    · next a b ha hb =>
      have hca : c ≠ a := by
        intro hca
        subst hca
        exact hc (List.mem_of_getElem? ha)
      have hcb : c ≠ b := by
        intro hcb
        subst hcb
        exact hc (List.mem_of_getElem? hb)
      dsimp only
      rw [Function.update_of_ne hca, Function.update_of_ne hcb]
    · rfl

theorem up_rearranged
    (key : ι → Int)
    (h : IndexedHeap ι)
    (j : Nat) :
    Rearranged (j + 1) h (up key h j) := by
  induction j using Nat.strong_induction_on generalizing h with
  | h j ih =>
      rw [up]
      split_ifs with hj hless
      · exact Rearranged.refl _ _
      · have hlt : (j - 1) / 2 < j := by omega
        have hswap : Rearranged (j + 1) h (h.swap ((j - 1) / 2) j) :=
          swap_rearranged h (by omega) (by omega)
        exact hswap.trans ((ih _ hlt _).mono (by omega))
      · exact Rearranged.refl _ _

omit [DecidableEq ι] in
theorem lesserChild_bounds
    (key : ι → Int)
    (h : IndexedHeap ι)
    {i n : Nat}
    (hn : 2 * i + 1 < n) :
    i < lesserChild key h i n ∧ lesserChild key h i n < n := by
  unfold lesserChild
  split_ifs <;> omega

theorem down_rearranged
    (key : ι → Int)
    (h : IndexedHeap ι)
    (i n : Nat) :
    Rearranged n h (down key h i n).1 := by
  induction hm : n - i using Nat.strong_induction_on generalizing h i with
  | h m ih =>
      rw [down]
      split_ifs with hn hless
      · have hb := lesserChild_bounds key h hn
        have hswap : Rearranged n h (h.swap i (lesserChild key h i n)) :=
          swap_rearranged h (by omega) hb.2
        exact hswap.trans (ih _ (by omega) _ _ rfl)
      · exact Rearranged.refl _ _
      · exact Rearranged.refl _ _

/-- `popLast` after a rearrangement of the positions before the last one. -/
theorem popLast_taken
    {h h' : IndexedHeap ι} {a : ι}
    (hr : Rearranged (h.inner.length - 1) h h')
    (ha : h.inner[h.inner.length - 1]? = some a) :
    ∃ h'', h'.popLast = some (a, h'') ∧ Taken h a h'' := by
  have hlen : h'.inner.length = h.inner.length := hr.perm.length_eq
  have hlast : h'.inner.getLast? = some a := by
    rw [List.getLast?_eq_getElem?, hlen, hr.above _ le_rfl, ha]
  have hsplit : h'.inner.dropLast ++ [a] = h'.inner :=
    List.dropLast_append_getLast? a hlast
  refine ⟨_, by simp only [popLast, hlast, Option.map_some]; rfl, ?_⟩
  constructor
  · have hperm : (a :: h'.inner.dropLast).Perm (h'.inner.dropLast ++ [a]) :=
      (List.perm_append_singleton a _).symm
    rw [hsplit] at hperm
    exact hperm.trans hr.perm
  · intro hi k b hk
    have hb : h'.inner[k]? = some b := by
      rw [← hsplit]
      exact List.getElem?_append_left (List.getElem?_eq_some_iff.mp hk).1 ▸ hk
    have hkl : k < h'.inner.dropLast.length := (List.getElem?_eq_some_iff.mp hk).1
    have hba : b ≠ a := by
      intro hba
      subst hba
      have hpos := (hr.indexed hi).position_unique hb
        ((hr.above _ le_rfl).trans ha)
      rw [List.length_dropLast] at hkl
      omega
    dsimp only
    rw [Function.update_of_ne hba]
    exact hr.indexed hi k b hb
  · simp
  · intro b hb
    have hba : b ≠ a := by
      intro hba
      subst hba
      exact hb (List.mem_of_getElem? ha)
    dsimp only
    rw [Function.update_of_ne hba]
    exact hr.others b hb

theorem swap_length
    (h : IndexedHeap ι)
    (i j : Nat) :
    (h.swap i j).inner.length = h.inner.length :=
  (swap_rearranged h (Nat.lt_succ_of_le (Nat.le_add_right i j))
    (Nat.lt_succ_of_le (Nat.le_add_left j i))).perm.length_eq

/-- After a swap with the last position the element stands there. -/
theorem swap_last
    {h : IndexedHeap ι} {i : Nat} {a : ι}
    (ha : h.inner[i]? = some a) :
    (h.swap i (h.inner.length - 1)).inner[h.inner.length - 1]? = some a := by
  have hil : i < h.inner.length := (List.getElem?_eq_some_iff.mp ha).1
  have hlast : h.inner.length - 1 < h.inner.length := by omega
  have hb : h.inner[h.inner.length - 1]? = some (h.inner[h.inner.length - 1]) :=
    List.getElem?_eq_getElem hlast
  rw [swap_of_getElem? ha hb, List.getElem?_set_self]
  rw [List.length_set]
  exact hlast

/-- An element swapped to the end and a rearrangement before it, then `popLast`. -/
theorem popLast_swapped
    {h h' : IndexedHeap ι} {i : Nat} {a : ι}
    (ha : h.inner[i]? = some a)
    (hr : Rearranged (h.inner.length - 1) (h.swap i (h.inner.length - 1)) h') :
    ∃ h'', h'.popLast = some (a, h'') ∧ Taken h a h'' := by
  have hil : i < h.inner.length := (List.getElem?_eq_some_iff.mp ha).1
  have hlen := swap_length h i (h.inner.length - 1)
  obtain ⟨h'', hpop, htaken⟩ :=
    popLast_taken (by rw [hlen]; exact hr) (by rw [hlen]; exact swap_last ha)
  have hswap : Rearranged h.inner.length h (h.swap i (h.inner.length - 1)) :=
    swap_rearranged h hil (by omega)
  exact ⟨h'', hpop, Taken.of_rearranged hswap htaken⟩

/-- `heap.Pop` takes the root out. -/
theorem pop_spec
    (key : ι → Int)
    {h : IndexedHeap ι} {a : ι}
    (ha : h.inner[0]? = some a) :
    ∃ h', h.pop key = some (a, h') ∧ Taken h a h' :=
  popLast_swapped ha (down_rearranged key _ 0 _)

/-- `heap.Remove` takes the element at the given position out. -/
theorem remove_spec
    (key : ι → Int)
    {h : IndexedHeap ι} {i : Nat} {a : ι}
    (ha : h.inner[i]? = some a) :
    ∃ h', h.remove key i = some (a, h') ∧ Taken h a h' := by
  have hil : i < h.inner.length := (List.getElem?_eq_some_iff.mp ha).1
  unfold remove
  dsimp only
  split_ifs with hlast hsunk
  · exact popLast_taken (Rearranged.refl _ h) (by rw [hlast]; exact ha)
  · exact popLast_swapped ha (down_rearranged key _ i _)
  · refine popLast_swapped ha ((down_rearranged key _ i _).trans ?_)
    exact (up_rearranged key _ i).mono (by omega)

/-- `heap.Push` of an element that is not in the heap puts it in. -/
theorem push_spec
    (key : ι → Int)
    (h : IndexedHeap ι)
    (a : ι) :
    (push key h a).inner.Perm (a :: h.inner) ∧
      (a ∉ h.inner → h.Indexed → (push key h a).Indexed) ∧
      ∀ b, b ∉ h.inner → b ≠ a → (push key h a).index b = h.index b := by
  have hr := up_rearranged key
    { inner := h.inner ++ [a]
      index := Function.update h.index a h.inner.length } h.inner.length
  refine ⟨hr.perm.trans (List.perm_append_singleton a h.inner), ?_, ?_⟩
  · intro ha hi
    refine hr.indexed ?_
    intro k b hk
    dsimp only at hk ⊢
    rcases lt_or_ge k h.inner.length with hkl | hkl
    · rw [List.getElem?_append_left hkl] at hk
      have hba : b ≠ a := by
        intro hba
        subst hba
        exact ha (List.mem_of_getElem? hk)
      rw [Function.update_of_ne hba]
      exact hi k b hk
    · rw [List.getElem?_append_right hkl] at hk
      obtain ⟨hk0, hba⟩ := List.getElem?_eq_some_iff.mp hk
      have hkeq : k = h.inner.length := by
        simp only [List.length_singleton] at hk0
        omega
      subst hkeq
      have hba' : b = a := by simpa using hba.symm
      subst hba'
      simp
  · intro b hb hba
    have hmem : b ∉ h.inner ++ [a] := by simp [hb, hba]
    rw [push, hr.others b hmem]
    exact Function.update_of_ne hba _ _

/--
What the stored indices say when `pushed` are the elements that were ever pushed: the
position of an element in the heap, `-1` of one that was taken out, and `0`, which is also
the position of the root, of one that was never pushed.
-/
structure Accounted (pushed : List ι) (h : IndexedHeap ι) : Prop where
  indexed : h.Indexed
  inside : ∀ a ∈ h.inner, a ∈ pushed
  taken : ∀ a ∈ pushed, a ∉ h.inner → h.index a = -1
  never : ∀ a, a ∉ pushed → h.index a = 0

omit [DecidableEq ι] in
theorem accounted_empty : Accounted [] (empty : IndexedHeap ι) where
  indexed := empty_indexed
  inside := fun _ ha => ha
  taken := fun _ ha => absurd ha List.not_mem_nil
  never := fun _ _ => rfl

theorem Accounted.push
    {pushed : List ι} {h : IndexedHeap ι}
    (hacc : Accounted pushed h)
    (key : ι → Int)
    {a : ι} (ha : a ∉ h.inner) :
    Accounted (a :: pushed) (push key h a) := by
  obtain ⟨hperm, hindexed, hothers⟩ := push_spec key h a
  have hmem : ∀ b, b ∈ (IndexedHeap.push key h a).inner ↔ b = a ∨ b ∈ h.inner := fun b => by
    rw [hperm.mem_iff, List.mem_cons]
  refine ⟨hindexed ha hacc.indexed, ?_, ?_, ?_⟩
  · intro b hb
    rcases (hmem b).mp hb with rfl | hb
    · exact List.mem_cons_self
    · exact List.mem_cons_of_mem _ (hacc.inside b hb)
  · intro b hb hout
    rw [hmem, not_or] at hout
    rw [hothers b hout.2 hout.1]
    exact hacc.taken b ((List.mem_cons.mp hb).resolve_left hout.1) hout.2
  · intro b hb
    rw [List.mem_cons, not_or] at hb
    rw [hothers b (fun hin => hb.2 (hacc.inside b hin)) hb.1]
    exact hacc.never b hb.2

omit [DecidableEq ι] in
theorem Accounted.take
    {pushed : List ι} {h h' : IndexedHeap ι} {a : ι}
    (hacc : Accounted pushed h)
    (ht : Taken h a h') :
    Accounted pushed h' := by
  have hmem : ∀ b, b ∈ h.inner ↔ b = a ∨ b ∈ h'.inner := fun b => by
    rw [← ht.perm.mem_iff, List.mem_cons]
  refine ⟨ht.indexed hacc.indexed, ?_, ?_, ?_⟩
  · intro b hb
    exact hacc.inside b ((hmem b).mpr (Or.inr hb))
  · intro b hb hout
    by_cases hba : b = a
    · rw [hba]
      exact ht.index_self
    · have hout' : b ∉ h.inner := fun hin => ((hmem b).mp hin).elim hba hout
      rw [ht.others b hout']
      exact hacc.taken b hb hout'
  · intro b hb
    rw [ht.others b (fun hin => hb (hacc.inside b hin))]
    exact hacc.never b hb

end IndexedHeap

end Lib
end TaskQueue
