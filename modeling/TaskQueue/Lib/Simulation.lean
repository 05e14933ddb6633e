import Mathlib.Tactic
import TaskQueue.Lib.Runs

/-!
# Steps that are runs of another machine

A machine simulates another one if every step of the other, from related states, is a run of
its own that ends in related states; then it simulates whole runs (`Run.simulated`).

Where one machine has a bag of things and the other one threads that are idle or busy with one
of them, `Occupied` relates the two: for every thing there is a thread that is busy with it,
there is an idle thread if there are fewer things than threads, and the relation is kept when a
thread takes a thing up or lays it down.
-/

namespace TaskQueue
namespace Lib

universe u v w x

section Simulation

variable {σ : Type u} {ε : Type v} {τ : Type w} {φ : Type x}

/-- If every step is matched by a run, every run is. -/
theorem Run.simulated
    {step : σ → ε → Option σ} {ok : σ → ε → Prop}
    {step' : τ → φ → Option τ} {ok' : τ → φ → Prop}
    (R : σ → τ → Prop)
    (hmatch : ∀ s e s' t, R s t → ok s e → step s e = some s' →
      ∃ fs t', Run step' ok' t fs t' ∧ R s' t')
    {s s' : σ} {es : List ε}
    (hrun : Run step ok s es s')
    {t : τ}
    (hst : R s t) :
    ∃ fs t', Run step' ok' t fs t' ∧ R s' t' := by
  induction hrun generalizing t with
  | nil s =>
      exact ⟨[], t, Run.nil t, hst⟩
  | cons hok hstep _ ih =>
      obtain ⟨fs, t', hfirst, ht'⟩ := hmatch _ _ _ _ hst hok hstep
      obtain ⟨gs, t'', hrest, ht''⟩ := ih ht'
      exact ⟨fs ++ gs, t'', hfirst.append hrest, ht''⟩

end Simulation

section Occupied

variable {ι : Type u} [Fintype ι] {α : Type v} {κ : Type w}

/-- What all threads hold together. -/
def bag (holds : ι → Option α) : Multiset α :=
  ∑ i, ((holds i).toList : Multiset α)

theorem mem_bag
    {holds : ι → Option α} {a : α} :
    a ∈ bag holds ↔ ∃ i, holds i = some a := by
  simp [bag, Multiset.mem_sum]

/-- Fewer things than threads: some thread holds nothing. -/
theorem exists_none_of_card_lt
    {holds : ι → Option α}
    (h : (bag holds).card < Fintype.card ι) :
    ∃ i, holds i = none := by
  by_contra hall
  push Not at hall
  have hone : ∀ i ∈ Finset.univ, 1 ≤ (holds i).toList.length := by
    intro i _
    obtain ⟨a, ha⟩ := Option.ne_none_iff_exists'.mp (hall i)
    simp [ha]
  have hsum := Finset.sum_le_sum hone
  simp only [Finset.sum_const, Finset.card_univ, smul_eq_mul, mul_one] at hsum
  have hcard : (bag holds).card = ∑ i, (holds i).toList.length := by
    simp [bag, Multiset.card_sum]
  omega

/-- The threads are idle or busy with one thing each, and these are the things. -/
def Occupied (idle : κ) (busy : α → κ) (pcs : ι → κ) (held : Multiset α) : Prop :=
  ∃ holds : ι → Option α, (∀ i, pcs i = (holds i).elim idle busy) ∧ bag holds = held

section Threads

variable {idle : κ} {busy : α → κ} {pcs : ι → κ} {held : Multiset α}

theorem occupied_idle
    (idle : κ) (busy : α → κ) :
    Occupied idle busy (fun _ : ι => idle) 0 :=
  ⟨fun _ => none, fun _ => rfl, by simp [bag]⟩

theorem Occupied.exists_idle
    (h : Occupied idle busy pcs held)
    (hcard : held.card < Fintype.card ι) :
    ∃ i, pcs i = idle := by
  obtain ⟨holds, hpcs, rfl⟩ := h
  obtain ⟨i, hi⟩ := exists_none_of_card_lt hcard
  exact ⟨i, by rw [hpcs, hi]; rfl⟩

theorem Occupied.exists_busy
    (h : Occupied idle busy pcs held)
    {a : α}
    (ha : a ∈ held) :
    ∃ i, pcs i = busy a := by
  obtain ⟨holds, hpcs, rfl⟩ := h
  obtain ⟨i, hi⟩ := mem_bag.mp ha
  exact ⟨i, by rw [hpcs, hi]; rfl⟩

variable [DecidableEq ι]

/-- One thread holds something else than before. -/
theorem bag_update
    (holds : ι → Option α) (i : ι) (o : Option α) :
    bag (Function.update holds i o) + ((holds i).toList : Multiset α) =
      bag holds + (o.toList : Multiset α) := by
  have hcoe : (fun j => ((Function.update holds i o j).toList : Multiset α)) =
      Function.update (fun j => ((holds j).toList : Multiset α)) i (o.toList : Multiset α) := by
    funext j
    exact Function.apply_update (fun _ (x : Option α) => (x.toList : Multiset α)) holds i o j
  have hsplit := Finset.add_sum_erase Finset.univ (fun j => ((holds j).toList : Multiset α))
    (Finset.mem_univ i)
  rw [bag, bag, hcoe, Finset.sum_update_of_mem (Finset.mem_univ i),
    Finset.sdiff_singleton_eq_erase, ← hsplit]
  abel

omit [Fintype ι] in
theorem elim_update
    {holds : ι → Option α}
    (hpcs : ∀ i, pcs i = (holds i).elim idle busy)
    (i : ι) (o : Option α) (j : ι) :
    Function.update pcs i (o.elim idle busy) j =
      (Function.update holds i o j).elim idle busy := by
  by_cases hj : j = i
  · subst hj
    simp
  · simp [Function.update_of_ne hj, hpcs j]

/-- An idle thread takes a thing up. -/
theorem Occupied.engage
    (h : Occupied idle busy pcs held)
    (hbusy : ∀ a, busy a ≠ idle)
    {i : ι}
    (hi : pcs i = idle)
    (a : α) :
    Occupied idle busy (Function.update pcs i (busy a)) (a ::ₘ held) := by
  obtain ⟨holds, hpcs, rfl⟩ := h
  have hnone : holds i = none := by
    cases hholds : holds i with
    | none =>
        rfl
    | some b =>
        rw [hpcs, hholds] at hi
        exact absurd hi (hbusy b)
  refine ⟨Function.update holds i (some a), elim_update hpcs i (some a), ?_⟩
  have hbag := bag_update holds i (some a)
  simp only [hnone, Option.toList_none, Multiset.coe_nil, add_zero, Option.toList_some] at hbag
  rw [hbag, Multiset.coe_singleton, add_comm, Multiset.singleton_add]

/-- A busy thread lays down its thing. -/
theorem Occupied.release
    [DecidableEq α]
    (h : Occupied idle busy pcs held)
    (hbusy : ∀ a, busy a ≠ idle)
    (hinj : Function.Injective busy)
    {i : ι} {a : α}
    (hi : pcs i = busy a) :
    Occupied idle busy (Function.update pcs i idle) (held.erase a) := by
  obtain ⟨holds, hpcs, rfl⟩ := h
  have hsome : holds i = some a := by
    cases hholds : holds i with
    | none =>
        rw [hpcs, hholds] at hi
        exact absurd hi.symm (hbusy a)
    | some b =>
        rw [hpcs, hholds] at hi
        exact congrArg some (hinj hi)
  refine ⟨Function.update holds i none, elim_update hpcs i none, ?_⟩
  have hbag := bag_update holds i none
  simp only [hsome, Option.toList_none, Multiset.coe_nil, add_zero, Option.toList_some] at hbag
  rw [← hbag, Multiset.coe_singleton, add_comm, Multiset.singleton_add, Multiset.erase_cons_head]

end Threads

end Occupied

end Lib
end TaskQueue
