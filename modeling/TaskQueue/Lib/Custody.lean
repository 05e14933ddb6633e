import Mathlib.Tactic

/-!
# Items in places

A family of lists says which items each place holds.  `Exclusive` says that no item
is held twice; it is kept when items are handed from one place to another, dropped,
or brought in from outside.  `Consistent` says that the label of every item is one that
the place where it is allows; `Consistent.act` is the rule for a step of one place and
`Consistent.single` the one for a step that touches one item.
-/

namespace TaskQueue
namespace Lib

universe u v

section Custody

variable {π : Type u}
variable {α : Type v}

/-- No item is in two places, or twice in one. -/
structure Exclusive (H : π → List α) : Prop where
  nodup : ∀ p, (H p).Nodup
  unique : ∀ {p q : π} {a : α}, a ∈ H p → a ∈ H q → p = q

/-- An item of one place is in no other. -/
theorem Exclusive.elsewhere
    {H : π → List α}
    (h : Exclusive H)
    {p q : π} {a : α}
    (ha : a ∈ H p)
    (hpq : q ≠ p) :
    a ∉ H q := by
  intro hq
  exact hpq (h.unique hq ha)

/-- Some of the items of some of the places. -/
theorem Exclusive.part
    {ρ : Type*} {H : π → List α} {K : ρ → List α}
    (h : Exclusive H)
    {f : ρ → π}
    (hf : Function.Injective f)
    (hsub : ∀ r, (K r).Sublist (H (f r))) :
    Exclusive K where
  nodup := fun r => (h.nodup (f r)).sublist (hsub r)
  unique := fun hp hq => hf (h.unique ((hsub _).subset hp) ((hsub _).subset hq))

/-- All places together hold an item once at most. -/
theorem Exclusive.sum_count_le_one
    [Fintype π] [DecidableEq α]
    {H : π → List α}
    (h : Exclusive H)
    (a : α) :
    ∑ p, (H p).count a ≤ 1 := by
  by_cases hheld : ∃ p, a ∈ H p
  · obtain ⟨p, hp⟩ := hheld
    have hother : ∀ q ∈ Finset.univ, q ≠ p → (H q).count a = 0 := by
      intro q _ hq
      exact List.count_eq_zero.mpr (h.elsewhere hp hq)
    rw [Finset.sum_eq_single p hother (fun hnot => absurd (Finset.mem_univ p) hnot)]
    exact List.nodup_iff_count_le_one.mp (h.nodup p) a
  · have hzero : ∀ p ∈ Finset.univ, (H p).count a = 0 := by
      intro p _
      exact List.count_eq_zero.mpr fun hp => hheld ⟨p, hp⟩
    rw [Finset.sum_eq_zero hzero]
    exact Nat.zero_le 1

/-- A sum of which one part changes. -/
theorem sum_exchange
    [Fintype π] [DecidableEq π]
    (f f' : π → Nat) (p : π)
    (hrest : ∀ q, q ≠ p → f' q = f q) :
    ∑ q, f' q + f p = ∑ q, f q + f' p := by
  rw [← Finset.add_sum_erase _ f (Finset.mem_univ p),
    ← Finset.add_sum_erase _ f' (Finset.mem_univ p)]
  have hothers : ∑ q ∈ Finset.univ.erase p, f' q = ∑ q ∈ Finset.univ.erase p, f q :=
    Finset.sum_congr rfl fun q hq => hrest q (Finset.ne_of_mem_erase hq)
  omega

/-- Items are handed from `p` to `q`. -/
theorem Exclusive.transfer
    {H H' : π → List α}
    (h : Exclusive H)
    {p q : π} (moved : List α)
    (hpq : p ≠ q)
    (hp : (moved ++ H' p).Perm (H p))
    (hq : (H' q).Perm (moved ++ H q))
    (hrest : ∀ r, r ≠ p → r ≠ q → H' r = H r) :
    Exclusive H' := by
  have hnodup : (moved ++ H' p).Nodup := hp.nodup_iff.mpr (h.nodup p)
  obtain ⟨hmoved, hleft, hdisjoint⟩ := List.nodup_append.mp hnodup
  have hfrom : ∀ a ∈ moved, a ∈ H p := fun a ha =>
    hp.mem_iff.mp (List.mem_append_left _ ha)
  -- where an item of the new family was before
  have horigin : ∀ r a, a ∈ H' r → (r ≠ q ∧ a ∉ moved ∧ a ∈ H r) ∨
      (r = q ∧ (a ∈ moved ∨ a ∈ H q)) := by
    intro r a ha
    by_cases hrq : r = q
    · subst hrq
      exact Or.inr ⟨rfl, List.mem_append.mp (hq.mem_iff.mp ha)⟩
    · by_cases hrp : r = p
      · subst hrp
        refine Or.inl ⟨hrq, ?_, hp.mem_iff.mp (List.mem_append_right _ ha)⟩
        intro hmem
        exact hdisjoint a hmem a ha rfl
      · rw [hrest r hrp hrq] at ha
        refine Or.inl ⟨hrq, ?_, ha⟩
        intro hmem
        exact hrp (h.unique ha (hfrom a hmem))
  constructor
  · intro r
    by_cases hrq : r = q
    · subst hrq
      refine hq.nodup_iff.mpr (List.nodup_append.mpr ⟨hmoved, h.nodup r, ?_⟩)
      rintro a ha b hb rfl
      exact hpq (h.unique (hfrom a ha) hb)
    · by_cases hrp : r = p
      · subst hrp
        exact hleft
      · rw [hrest r hrp hrq]
        exact h.nodup r
  · intro r₁ r₂ a h₁ h₂
    rcases horigin r₁ a h₁ with ⟨hne₁, hnot₁, hold₁⟩ | ⟨rfl, hold₁⟩
    · rcases horigin r₂ a h₂ with ⟨-, -, hold₂⟩ | ⟨rfl, hmem | hold₂⟩
      · exact h.unique hold₁ hold₂
      · exact absurd hmem hnot₁
      · exact h.unique hold₁ hold₂
    · rcases horigin r₂ a h₂ with ⟨-, hnot₂, hold₂⟩ | ⟨rfl, -⟩
      · rcases hold₁ with hmem | hold₁
        · exact absurd hmem hnot₂
        · exact h.unique hold₁ hold₂
      · rfl

/-- Items of `p` are dropped. -/
theorem Exclusive.drop
    {H H' : π → List α}
    (h : Exclusive H)
    {p : π}
    (hp : (H' p).Subperm (H p))
    (hrest : ∀ r, r ≠ p → H' r = H r) :
    Exclusive H' := by
  have hold : ∀ r a, a ∈ H' r → a ∈ H r := by
    intro r a ha
    by_cases hrp : r = p
    · subst hrp
      exact hp.subset ha
    · rw [hrest r hrp] at ha
      exact ha
  constructor
  · intro r
    by_cases hrp : r = p
    · subst hrp
      obtain ⟨l, hperm, hsub⟩ := hp
      exact hperm.nodup_iff.mp ((h.nodup r).sublist hsub)
    · rw [hrest r hrp]
      exact h.nodup r
  · intro r₁ r₂ a h₁ h₂
    exact h.unique (hold r₁ a h₁) (hold r₂ a h₂)

/-- An item that no place holds is brought to `q`. -/
theorem Exclusive.add
    {H H' : π → List α}
    (h : Exclusive H)
    {q : π} {a : α}
    (hfresh : ∀ r, a ∉ H r)
    (hq : (H' q).Perm (a :: H q))
    (hrest : ∀ r, r ≠ q → H' r = H r) :
    Exclusive H' := by
  have horigin : ∀ r b, b ∈ H' r → (r = q ∧ b = a) ∨ b ∈ H r := by
    intro r b hb
    by_cases hrq : r = q
    · subst hrq
      rcases List.mem_cons.mp (hq.mem_iff.mp hb) with rfl | hold
      · exact Or.inl ⟨rfl, rfl⟩
      · exact Or.inr hold
    · rw [hrest r hrq] at hb
      exact Or.inr hb
  constructor
  · intro r
    by_cases hrq : r = q
    · subst hrq
      exact hq.nodup_iff.mpr (List.nodup_cons.mpr ⟨hfresh r, h.nodup r⟩)
    · rw [hrest r hrq]
      exact h.nodup r
  · intro r₁ r₂ b h₁ h₂
    rcases horigin r₁ b h₁ with ⟨rfl, rfl⟩ | hold₁
    · rcases horigin r₂ b h₂ with ⟨rfl, -⟩ | hold₂
      · rfl
      · exact absurd hold₂ (hfresh r₂)
    · rcases horigin r₂ b h₂ with ⟨rfl, rfl⟩ | hold₂
      · exact absurd hold₁ (hfresh r₁)
      · exact h.unique hold₁ hold₂

/-- One item is taken from `src`, or from outside, and brought to `dst`, or dropped. -/
def Relocated [DecidableEq π] (a : α) (src dst : Option π) (H H' : π → List α) : Prop :=
  ∀ r, (if src = some r then a :: H' r else H' r).Perm
    (if dst = some r then a :: H r else H r)

section Relocated

variable [DecidableEq π] {a : α} {src dst : Option π} {H H' : π → List α}

/-- The other items stay where they are. -/
theorem Relocated.mem_iff
    (hm : Relocated a src dst H H')
    {b : α}
    (hb : b ≠ a)
    (r : π) :
    b ∈ H' r ↔ b ∈ H r := by
  have hmem := (hm r).mem_iff (a := b)
  split_ifs at hmem <;> simpa [hb] using hmem

/-- The item is where it has been brought to. -/
theorem Relocated.self_mem_iff
    (hm : Relocated a src dst H H')
    (h : Exclusive H)
    (hsrc : ∀ r, a ∈ H r ↔ src = some r)
    (hne : ∀ r, src = some r → dst ≠ some r)
    (r : π) :
    a ∈ H' r ↔ dst = some r := by
  have hperm := hm r
  by_cases hs : src = some r
  · rw [if_pos hs, if_neg (hne r hs)] at hperm
    have hnot : a ∉ H' r := (List.nodup_cons.mp (hperm.nodup_iff.mpr (h.nodup r))).1
    exact iff_of_false hnot (hne r hs)
  · rw [if_neg hs] at hperm
    rw [hperm.mem_iff]
    split_ifs with hd
    · exact iff_of_true List.mem_cons_self hd
    · exact iff_of_false (fun hmem => hs ((hsrc r).mp hmem)) hd

theorem Relocated.exclusive
    (hm : Relocated a src dst H H')
    (h : Exclusive H)
    (hsrc : ∀ r, a ∈ H r ↔ src = some r)
    (hne : ∀ r, src = some r → dst ≠ some r) :
    Exclusive H' := by
  constructor
  · intro r
    have hperm := hm r
    by_cases hs : src = some r
    · rw [if_pos hs, if_neg (hne r hs)] at hperm
      exact (List.nodup_cons.mp (hperm.nodup_iff.mpr (h.nodup r))).2
    · rw [if_neg hs] at hperm
      refine hperm.nodup_iff.mpr ?_
      split_ifs
      · exact List.nodup_cons.mpr ⟨fun hmem => hs ((hsrc r).mp hmem), h.nodup r⟩
      · exact h.nodup r
  · intro p q b hp hq
    by_cases hb : b = a
    · subst hb
      rw [hm.self_mem_iff h hsrc hne] at hp hq
      exact Option.some.inj (hp.symm.trans hq)
    · exact h.unique ((hm.mem_iff hb p).mp hp) ((hm.mem_iff hb q).mp hq)

end Relocated

/-- Items are handed over or dropped, or all stay where they are. -/
inductive Moves (H H' : π → List α) : Prop
  | kept (hsame : ∀ r, H' r = H r)
  | handed (p q : π) (moved : List α) (hpq : p ≠ q) (hp : (moved ++ H' p).Perm (H p))
      (hq : (H' q).Perm (moved ++ H q)) (hrest : ∀ r, r ≠ p → r ≠ q → H' r = H r)
  | dropped (p : π) (hp : (H' p).Subperm (H p)) (hrest : ∀ r, r ≠ p → H' r = H r)

theorem Moves.exclusive
    {H H' : π → List α}
    (hm : Moves H H')
    (h : Exclusive H) :
    Exclusive H' := by
  cases hm with
  | kept hsame =>
      have heq : H' = H := funext hsame
      rw [heq]
      exact h
  | handed p q moved hpq hp hq hrest =>
      exact h.transfer moved hpq hp hq hrest
  | dropped p hp hrest =>
      exact h.drop hp hrest

/-- No item comes from outside. -/
theorem Moves.origin
    {H H' : π → List α}
    (hm : Moves H H')
    {r : π} {a : α}
    (ha : a ∈ H' r) :
    ∃ r₀, a ∈ H r₀ := by
  cases hm with
  | kept hsame =>
      rw [hsame r] at ha
      exact ⟨r, ha⟩
  | handed p q moved hpq hp hq hrest =>
      by_cases hrq : r = q
      · subst hrq
        rcases List.mem_append.mp (hq.mem_iff.mp ha) with hmem | hold
        · exact ⟨p, hp.mem_iff.mp (List.mem_append_left _ hmem)⟩
        · exact ⟨r, hold⟩
      · by_cases hrp : r = p
        · subst hrp
          exact ⟨r, hp.mem_iff.mp (List.mem_append_right _ ha)⟩
        · rw [hrest r hrp hrq] at ha
          exact ⟨r, ha⟩
  | dropped p hp hrest =>
      by_cases hrp : r = p
      · subst hrp
        exact ⟨r, hp.subset ha⟩
      · rw [hrest r hrp] at ha
        exact ⟨r, ha⟩

/-- Every place allows the labels of its items. -/
def Consistent {β : Type*} (H : π → List α) (label : α → β) (Allowed : π → α → β → Prop) :
    Prop :=
  ∀ p, ∀ a ∈ H p, Allowed p a (label a)

/--
The place `q` acts: it relabels only what it has before or after, and what comes to
other places comes with a label they allow.
-/
theorem Consistent.act
    {β : Type*} {H H' : π → List α} {label label' : α → β}
    {Allowed Allowed' : π → α → β → Prop}
    (h : Consistent H label Allowed)
    (hex : Exclusive H)
    (hex' : Exclusive H')
    (q : π)
    (hallowed : ∀ p, p ≠ q → Allowed' p = Allowed p)
    (hlabel : ∀ a, a ∉ H q → a ∉ H' q → label' a = label a)
    (hcame : ∀ p, p ≠ q → ∀ a ∈ H' p, a ∈ H p ∨ Allowed' p a (label' a))
    (hactor : ∀ a ∈ H' q, Allowed' q a (label' a)) :
    Consistent H' label' Allowed' := by
  intro p a ha
  by_cases hp : p = q
  · subst hp
    exact hactor a ha
  · rcases hcame p hp a ha with hold | hnew
    · rw [hlabel a (hex.elsewhere hold (Ne.symm hp)) (hex'.elsewhere ha (Ne.symm hp)),
        hallowed p hp]
      exact h p a hold
    · exact hnew

/-- One item is relabelled and put in a place that allows it; no other item moves. -/
theorem Consistent.single
    {β : Type*} {H H' : π → List α} {label label' : α → β}
    {Allowed : π → α → β → Prop}
    (h : Consistent H label Allowed)
    (a₀ : α)
    (hlabel : ∀ a, a ≠ a₀ → label' a = label a)
    (hstay : ∀ p, ∀ a ∈ H' p, a ≠ a₀ → a ∈ H p)
    (hself : ∀ p, a₀ ∈ H' p → Allowed p a₀ (label' a₀)) :
    Consistent H' label' Allowed := by
  intro p a ha
  by_cases haa : a = a₀
  · subst haa
    exact hself p ha
  · rw [hlabel a haa]
    exact h p a (hstay p a ha haa)

end Custody

end Lib
end TaskQueue
