import TaskQueue.Lib.IndexedHeap

/-!
# The order of a binary heap

The heap property of the operations of `container/heap`, on top of what `IndexedHeap` says
about their elements and indices.  The proofs are about the keys by position, `f i` being
the key of the element at position `i`: no child has a smaller key than its parent
(`Heaped`), except for the pairs around one position (`Hole`) while an element rises or
sinks.  `up_heaped` and `down_heaped` close the hole.

`push_ordered`, `pop_ordered` and `remove_ordered` are the results for the operations, and
`Ordered.root_le` says what the order is for: the root has the least key.
-/

namespace TaskQueue
namespace Lib

universe u

/-- No position below `n` has a smaller key than its parent. -/
def Heaped (f : Nat → Int) (n : Nat) : Prop :=
  ∀ k, 0 < k → k < n → f ((k - 1) / 2) ≤ f k

/--
The pairs that do not touch position `i` are in order, and the children of `i` are not
less than its parent.
-/
structure Hole (f : Nat → Int) (n i : Nat) : Prop where
  away : ∀ k, 0 < k → k < n → k ≠ i → (k - 1) / 2 ≠ i → f ((k - 1) / 2) ≤ f k
  across : ∀ k, 0 < i → 0 < k → k < n → (k - 1) / 2 = i → f ((i - 1) / 2) ≤ f k

section Order

variable {f : Nat → Int} {n i : Nat}

theorem Heaped.mono
    {m : Nat}
    (h : Heaped f n)
    (hm : m ≤ n) :
    Heaped f m :=
  fun k hk hkm => h k hk (hkm.trans_le hm)

theorem Heaped.congr
    {g : Nat → Int}
    (h : Heaped f n)
    (hfg : ∀ k, k < n → g k = f k) :
    Heaped g n := by
  intro k hk hkn
  rw [hfg k hkn, hfg _ (by omega)]
  exact h k hk hkn

/-- The root has the least key. -/
theorem Heaped.root_le
    (h : Heaped f n)
    {k : Nat}
    (hk : k < n) :
    f 0 ≤ f k := by
  induction k using Nat.strong_induction_on with
  | h k ih =>
      by_cases hzero : k = 0
      · rw [hzero]
      · exact (ih ((k - 1) / 2) (by omega) (by omega)).trans (h k (by omega) hk)

/-- A hole whose element fits between its neighbours is none. -/
theorem Hole.heaped
    (h : Hole f n i)
    (habove : 0 < i → i < n → f ((i - 1) / 2) ≤ f i)
    (hbelow : ∀ k, 0 < k → k < n → (k - 1) / 2 = i → f i ≤ f k) :
    Heaped f n := by
  intro k hk hkn
  by_cases hki : k = i
  · subst hki
    exact habove hk hkn
  · by_cases hpi : (k - 1) / 2 = i
    · rw [hpi]
      exact hbelow k hk hkn hpi
    · exact h.away k hk hkn hki hpi

/-- An order whose keys from some position on are new has a hole at that position alone. -/
theorem Heaped.hole
    {g : Nat → Int}
    (h : Heaped f n)
    (hfg : ∀ k, k < n → k ≠ i → g k = f k) :
    Hole g n i := by
  constructor
  · intro k hk hkn hki hpi
    rw [hfg k hkn hki, hfg _ (by omega) hpi]
    exact h k hk hkn
  · intro k hi hk hkn hpi
    have hparent := h i hi (by omega)
    have hchild := h k hk hkn
    rw [hpi] at hchild
    rw [hfg k hkn (by omega), hfg _ (by omega) (by omega)]
    exact hparent.trans hchild

/-- The element in the hole is less than its parent: the hole moves up, the rest is below it. -/
theorem Hole.rise
    (h : Hole f n i)
    (hi : 0 < i) (hin : i < n)
    (hbelow : ∀ k, 0 < k → k < n → (k - 1) / 2 = i → f i ≤ f k)
    (hless : f i < f ((i - 1) / 2)) :
    Hole (f ∘ Equiv.swap ((i - 1) / 2) i) n ((i - 1) / 2) ∧
      ∀ k, 0 < k → k < n → (k - 1) / 2 = (i - 1) / 2 →
        (f ∘ Equiv.swap ((i - 1) / 2) i) ((i - 1) / 2) ≤
          (f ∘ Equiv.swap ((i - 1) / 2) i) k := by
  have hp : (i - 1) / 2 < i := by omega
  generalize hpdef : (i - 1) / 2 = p at *
  have hself : (f ∘ Equiv.swap p i) i = f p := by simp
  have hparent : (f ∘ Equiv.swap p i) p = f i := by simp
  have hother : ∀ k, k ≠ p → k ≠ i → (f ∘ Equiv.swap p i) k = f k := fun k hkp hki => by
    simp [Equiv.swap_apply_of_ne_of_ne hkp hki]
  -- the old parent is not greater than anything below it
  have hsibling : ∀ k, 0 < k → k < n → k ≠ i → (k - 1) / 2 = p → f p ≤ f k := by
    intro k hk hkn hki hkp
    have := h.away k hk hkn hki (by omega)
    rwa [hkp] at this
  refine ⟨⟨?_, ?_⟩, ?_⟩
  · intro k hk hkn hkp hpk
    by_cases hki : k = i
    · subst hki
      exact absurd hpdef hpk
    · rw [hother k hkp hki]
      by_cases hpi : (k - 1) / 2 = i
      · rw [hpi, hself, ← hpdef]
        exact h.across k hi hk hkn hpi
      · rw [hother _ hpk hpi]
        exact h.away k hk hkn hki hpi
  · intro k hp0 hk hkn hkp
    have hgrand := h.away p hp0 (by omega) (by omega) (by omega)
    rw [hother ((p - 1) / 2) (by omega) (by omega)]
    by_cases hki : k = i
    · rw [hki, hself]
      exact hgrand
    · rw [hother k (by omega) hki]
      exact hgrand.trans (hsibling k hk hkn hki hkp)
  · intro k hk hkn hkp
    rw [hparent]
    by_cases hki : k = i
    · rw [hki, hself]
      exact hless.le
    · rw [hother k (by omega) hki]
      exact hless.le.trans (hsibling k hk hkn hki hkp)

/-- A child is less than the element in the hole: the hole moves to the lesser child. -/
theorem Hole.sink
    {c : Nat}
    (h : Hole f n i)
    (hc : 0 < c) (hcn : c < n) (hci : (c - 1) / 2 = i)
    (hleast : ∀ k, 0 < k → k < n → (k - 1) / 2 = i → f c ≤ f k)
    (hless : f c < f i) :
    Hole (f ∘ Equiv.swap i c) n c ∧
      (f ∘ Equiv.swap i c) i ≤ (f ∘ Equiv.swap i c) c := by
  have hic : i < c := by omega
  have hself : (f ∘ Equiv.swap i c) i = f c := by simp
  have hchild : (f ∘ Equiv.swap i c) c = f i := by simp
  have hother : ∀ k, k ≠ i → k ≠ c → (f ∘ Equiv.swap i c) k = f k := fun k hki hkc => by
    simp [Equiv.swap_apply_of_ne_of_ne hki hkc]
  refine ⟨⟨?_, ?_⟩, ?_⟩
  · intro k hk hkn hkc hpk
    by_cases hki : k = i
    · subst hki
      rw [hself, hother _ (by omega) hpk]
      exact h.across c hk hc hcn hci
    · rw [hother k hki hkc]
      by_cases hpi : (k - 1) / 2 = i
      · rw [hpi, hself]
        exact hleast k hk hkn hpi
      · rw [hother _ hpi hpk]
        exact h.away k hk hkn hki hpi
  · intro k _ hk hkn hkc
    rw [hci, hself, hother k (by omega) (by omega), ← hkc]
    exact h.away k hk hkn (by omega) (by omega)
  · rw [hself, hchild]
    exact hless.le

end Order

namespace IndexedHeap

variable {ι : Type u}

/-- The key of the element at a position. -/
def keyAt (key : ι → Int) (h : IndexedHeap ι) (i : Nat) : Int :=
  (h.inner[i]?.map key).getD 0

theorem keyAt_of_getElem?
    {key : ι → Int} {h : IndexedHeap ι} {i : Nat} {a : ι}
    (ha : h.inner[i]? = some a) :
    h.keyAt key i = key a := by
  simp [keyAt, ha]

/-- No element of the heap has a smaller key than its parent. -/
def Ordered (key : ι → Int) (h : IndexedHeap ι) : Prop :=
  Heaped (h.keyAt key) h.inner.length

theorem empty_ordered
    (key : ι → Int) :
    (empty : IndexedHeap ι).Ordered key := by
  intro k _ hk
  simp [empty] at hk

/-- The order, by parent and child. -/
theorem ordered_iff
    (key : ι → Int) (h : IndexedHeap ι) :
    h.Ordered key ↔
      ∀ i j p c, (j = 2 * i + 1 ∨ j = 2 * i + 2) → h.inner[i]? = some p →
        h.inner[j]? = some c → key p ≤ key c := by
  constructor
  · intro hord i j p c hj hp hc
    have hjl : j < h.inner.length := (List.getElem?_eq_some_iff.mp hc).1
    have hle := hord j (by omega) hjl
    rwa [show (j - 1) / 2 = i by omega, keyAt_of_getElem? hp, keyAt_of_getElem? hc] at hle
  · intro hall k hk hkl
    have hpl : (k - 1) / 2 < h.inner.length := by omega
    have hp := List.getElem?_eq_getElem hpl
    have hc := List.getElem?_eq_getElem hkl
    rw [keyAt_of_getElem? hp, keyAt_of_getElem? hc]
    exact hall ((k - 1) / 2) k _ _ (by omega) hp hc

/-- The order depends on the keys of the elements only. -/
theorem Ordered.congr
    {key key' : ι → Int} {h : IndexedHeap ι}
    (hord : h.Ordered key)
    (hkey : ∀ a ∈ h.inner, key' a = key a) :
    h.Ordered key' := by
  refine Heaped.congr hord ?_
  intro k hk
  have ha := List.getElem?_eq_getElem hk
  rw [keyAt_of_getElem? ha, keyAt_of_getElem? ha]
  exact hkey _ (List.getElem_mem hk)

/-- The root has the least key. -/
theorem Ordered.root_le
    {key : ι → Int} {h : IndexedHeap ι}
    (hord : h.Ordered key)
    {a b : ι}
    (ha : h.inner[0]? = some a)
    (hb : b ∈ h.inner) :
    key a ≤ key b := by
  obtain ⟨k, hk⟩ := List.mem_iff_getElem?.mp hb
  have hle := Heaped.root_le hord (List.getElem?_eq_some_iff.mp hk).1
  rwa [keyAt_of_getElem? ha, keyAt_of_getElem? hk] at hle

variable [DecidableEq ι]

/-- A swap exchanges two keys. -/
theorem keyAt_swap
    (key : ι → Int) (h : IndexedHeap ι)
    {i j : Nat}
    (hi : i < h.inner.length) (hj : j < h.inner.length) :
    (h.swap i j).keyAt key = h.keyAt key ∘ Equiv.swap i j := by
  have ha := List.getElem?_eq_getElem hi
  have hb := List.getElem?_eq_getElem hj
  funext k
  rw [swap_of_getElem? ha hb]
  simp only [keyAt, Function.comp_apply, List.getElem?_set, List.length_set]
  by_cases hjk : j = k
  · subst hjk
    simp [hj, ha]
  · by_cases hik : i = k
    · subst hik
      simp [hjk, hi, hb]
    · simp [hjk, hik, Equiv.swap_apply_of_ne_of_ne (Ne.symm hik) (Ne.symm hjk)]

omit [DecidableEq ι] in
theorem less_eq
    (key : ι → Int) (h : IndexedHeap ι)
    {i j : Nat}
    (hi : i < h.inner.length) (hj : j < h.inner.length) :
    less key h i j = decide (h.keyAt key i < h.keyAt key j) := by
  have ha := List.getElem?_eq_getElem hi
  have hb := List.getElem?_eq_getElem hj
  rw [keyAt_of_getElem? ha, keyAt_of_getElem? hb]
  simp only [less, ha, hb]

/-- `heap.up` closes a hole whose element is not greater than its children. -/
theorem up_heaped
    (key : ι → Int) (h : IndexedHeap ι)
    {n j : Nat}
    (hn : n ≤ h.inner.length)
    (hj : j < n)
    (hole : Hole (h.keyAt key) n j)
    (hbelow : ∀ k, 0 < k → k < n → (k - 1) / 2 = j → h.keyAt key j ≤ h.keyAt key k) :
    Heaped ((up key h j).keyAt key) n := by
  induction j using Nat.strong_induction_on generalizing h with
  | h j ih =>
      rw [up]
      split_ifs with hzero hless
      · exact hole.heaped (fun hpos _ => absurd hzero hpos.ne') hbelow
      · rw [less_eq key h (by omega) (by omega), decide_eq_true_eq] at hless
        have hswap := keyAt_swap key h (i := (j - 1) / 2) (j := j) (by omega) (by omega)
        obtain ⟨hrise, hleast⟩ := hole.rise (by omega) hj hbelow hless
        refine ih ((j - 1) / 2) (by omega) (h.swap ((j - 1) / 2) j) ?_ (by omega) ?_ ?_
        · rw [swap_length]
          exact hn
        · rw [hswap]
          exact hrise
        · rw [hswap]
          exact hleast
      · rw [less_eq key h (by omega) (by omega), decide_eq_true_eq, not_lt] at hless
        exact hole.heaped (fun _ _ => hless) hbelow

omit [DecidableEq ι] in
/-- The lesser child is a child, and no child is less. -/
theorem lesserChild_least
    (key : ι → Int) (h : IndexedHeap ι)
    {i n : Nat}
    (hn : n ≤ h.inner.length) :
    (lesserChild key h i n - 1) / 2 = i ∧
      ∀ k, 0 < k → k < n → (k - 1) / 2 = i →
        h.keyAt key (lesserChild key h i n) ≤ h.keyAt key k := by
  unfold lesserChild
  split_ifs with hright
  · rw [less_eq key h (by omega) (by omega), decide_eq_true_eq] at hright
    refine ⟨by omega, ?_⟩
    intro k hk hkn hpk
    have hkc : k = 2 * i + 1 ∨ k = 2 * i + 2 := by omega
    rcases hkc with rfl | rfl
    · exact hright.2.le
    · exact le_rfl
  · refine ⟨by omega, ?_⟩
    intro k hk hkn hpk
    have hkc : k = 2 * i + 1 ∨ k = 2 * i + 2 := by omega
    rcases hkc with rfl | rfl
    · exact le_rfl
    · rw [less_eq key h (by omega) (by omega), decide_eq_true_eq, not_and, not_lt] at hright
      exact hright hkn

/--
`heap.down` from a hole: either the element stays, and no child is less than it, or it
sinks and the hole is closed.
-/
theorem down_heaped
    (key : ι → Int) (h : IndexedHeap ι)
    {n i : Nat}
    (hn : n ≤ h.inner.length)
    (hole : Hole (h.keyAt key) n i) :
    (down key h i n = (h, i) ∧
      ∀ k, 0 < k → k < n → (k - 1) / 2 = i → h.keyAt key i ≤ h.keyAt key k) ∨
    (i < (down key h i n).2 ∧ Heaped ((down key h i n).1.keyAt key) n) := by
  induction hm : n - i using Nat.strong_induction_on generalizing h i with
  | h m ih =>
      rw [down]
      split_ifs with hchild hless
      · have hb := lesserChild_bounds key h hchild
        obtain ⟨hparent, hleast⟩ := lesserChild_least key h hn
        rw [less_eq key h (by omega) (by omega), decide_eq_true_eq] at hless
        have hswap := keyAt_swap key h (i := i) (j := lesserChild key h i n)
          (by omega) (by omega)
        obtain ⟨hsink, hfits⟩ := hole.sink (by omega) hb.2 hparent hleast hless
        rw [← hswap] at hsink hfits
        right
        rcases ih (n - lesserChild key h i n) (by omega) (h.swap i (lesserChild key h i n))
            (by rw [swap_length]; exact hn) hsink rfl with
          ⟨hstays, hbelow⟩ | ⟨hmoves, hheaped⟩
        · rw [hstays]
          refine ⟨hb.1, hsink.heaped ?_ hbelow⟩
          intro _ _
          rw [hparent]
          exact hfits
        · exact ⟨hb.1.trans hmoves, hheaped⟩
      · refine Or.inl ⟨rfl, ?_⟩
        obtain ⟨-, hleast⟩ := lesserChild_least key h hn
        have hb := lesserChild_bounds key h hchild
        rw [less_eq key h (by omega) (by omega), decide_eq_true_eq, not_lt] at hless
        intro k hk hkn hpk
        exact hless.trans (hleast k hk hkn hpk)
      · refine Or.inl ⟨rfl, ?_⟩
        intro k hk hkn hpk
        omega

/-- `heap.Push` keeps the order. -/
theorem push_ordered
    {key : ι → Int} {h : IndexedHeap ι}
    (hord : h.Ordered key)
    (a : ι) :
    (push key h a).Ordered key := by
  have hlen : (push key h a).inner.length = h.inner.length + 1 := by
    rw [(push_spec key h a).1.length_eq, List.length_cons]
  unfold Ordered
  rw [hlen, push]
  refine up_heaped key _ (by simp) (Nat.lt_succ_self _) ⟨?_, ?_⟩ ?_
  · intro k hk hkn hki _
    have hkl : k < h.inner.length := by omega
    simp only [keyAt, List.getElem?_append_left hkl,
      List.getElem?_append_left (show (k - 1) / 2 < h.inner.length by omega)]
    exact hord k hk hkl
  · intro k _ hk hkn hpk
    omega
  · intro k hk hkn hpk
    omega

/-- The `Pop` of the slice keeps the order before the last position. -/
theorem popLast_ordered
    {key : ι → Int} {h h' : IndexedHeap ι} {a : ι} {n : Nat}
    (hlen : h.inner.length - 1 = n)
    (hheaped : Heaped (h.keyAt key) n)
    (hpop : h.popLast = some (a, h')) :
    h'.Ordered key := by
  obtain ⟨b, -, hb⟩ := Option.map_eq_some_iff.mp hpop
  cases hb
  unfold Ordered
  dsimp only
  rw [List.length_dropLast, hlen]
  refine hheaped.congr ?_
  intro k hk
  simp only [keyAt, List.getElem?_dropLast]
  rw [if_pos (by omega)]

/-- After a swap of position `i` with the last one there is a hole at `i`. -/
theorem swap_last_hole
    {key : ι → Int} {h : IndexedHeap ι}
    (hord : h.Ordered key)
    {i : Nat}
    (hi : i < h.inner.length) :
    Hole ((h.swap i (h.inner.length - 1)).keyAt key) (h.inner.length - 1) i := by
  refine (Heaped.mono hord (Nat.sub_le _ 1)).hole ?_
  intro k hk hki
  rw [keyAt_swap key h hi (by omega), Function.comp_apply,
    Equiv.swap_apply_of_ne_of_ne hki (by omega)]

/-- What `heap.Pop` returns is in the heap. -/
theorem pop_mem
    {key : ι → Int} {h h' : IndexedHeap ι} {a : ι}
    (hpop : h.pop key = some (a, h')) :
    a ∈ h.inner := by
  obtain ⟨b, hb, heq⟩ := Option.map_eq_some_iff.mp hpop
  cases heq
  have hdown := (down_rearranged key (h.swap 0 (h.inner.length - 1)) 0
    (h.inner.length - 1)).perm
  have hswap := (swap_rearranged h (i := 0) (j := h.inner.length - 1)
    (n := h.inner.length + 1) (by omega) (by omega)).perm
  exact (hdown.trans hswap).mem_iff.mp (List.mem_of_getLast? hb)

/-- `heap.Pop` keeps the order. -/
theorem pop_ordered
    {key : ι → Int} {h h' : IndexedHeap ι} {a : ι}
    (hord : h.Ordered key)
    (hpop : h.pop key = some (a, h')) :
    h'.Ordered key := by
  have hpos : 0 < h.inner.length := List.length_pos_of_mem (pop_mem hpop)
  have hlen : (h.swap 0 (h.inner.length - 1)).inner.length = h.inner.length := swap_length h _ _
  have hdown := (down_rearranged key (h.swap 0 (h.inner.length - 1)) 0
    (h.inner.length - 1)).perm.length_eq
  refine popLast_ordered (n := h.inner.length - 1) (by rw [hdown, hlen]) ?_ hpop
  have hole := swap_last_hole hord hpos
  rcases down_heaped key (h.swap 0 (h.inner.length - 1)) (by omega) hole with
    ⟨hstays, hbelow⟩ | ⟨-, hheaped⟩
  · rw [hstays]
    exact hole.heaped (fun hlt => absurd hlt (lt_irrefl 0)) hbelow
  · exact hheaped

/-- `heap.Remove` keeps the order. -/
theorem remove_ordered
    {key : ι → Int} {h h' : IndexedHeap ι} {i : Nat} {a : ι}
    (hord : h.Ordered key)
    (hi : i < h.inner.length)
    (hrem : h.remove key i = some (a, h')) :
    h'.Ordered key := by
  have hlen : (h.swap i (h.inner.length - 1)).inner.length = h.inner.length := swap_length h _ _
  have hdown := (down_rearranged key (h.swap i (h.inner.length - 1)) i
    (h.inner.length - 1)).perm.length_eq
  have hole := swap_last_hole hord hi
  unfold remove at hrem
  dsimp only at hrem
  split_ifs at hrem with hlast hsunk
  · exact popLast_ordered rfl (Heaped.mono hord (Nat.sub_le _ 1)) hrem
  · rcases down_heaped key (h.swap i (h.inner.length - 1)) (by omega) hole with
      ⟨hstays, -⟩ | ⟨-, hheaped⟩
    · rw [hstays] at hsunk
      exact absurd hsunk (lt_irrefl i)
    · exact popLast_ordered (n := h.inner.length - 1) (by rw [hdown, hlen]) hheaped hrem
  · rcases down_heaped key (h.swap i (h.inner.length - 1)) (by omega) hole with
      ⟨hstays, hbelow⟩ | ⟨hmoves, -⟩
    · -- the element has not sunk, so that it may rise
      rw [hstays] at hrem
      have hup := (up_rearranged key (h.swap i (h.inner.length - 1)) i).perm.length_eq
      refine popLast_ordered (n := h.inner.length - 1) (by rw [hup, hlen]) ?_ hrem
      exact up_heaped key (h.swap i (h.inner.length - 1)) (by omega) (by omega) hole hbelow
    · exact absurd hmoves hsunk

end IndexedHeap

end Lib
end TaskQueue
