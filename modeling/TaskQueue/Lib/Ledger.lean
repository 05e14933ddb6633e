import Mathlib.Tactic

/-!
# Counters that are raised later

Counters that several threads raise.  What a thread does and what it counts are different
steps: after the first it owes a list of entries, which it makes one by one, in this order,
before it goes on.  `total` is a counter with all entries that are still owed; an entry that
is made does not change it (`total_post`), and a thread that incurs new entries raises it by
what they add (`total_charge`).  So an equation between totals is kept by the entries for
free, and the counters meet it whenever nothing is owed (`total_of_settled`).
-/

namespace TaskQueue
namespace Lib

universe u v w

section Sums

variable {ι : Type u} [Fintype ι] [DecidableEq ι] {α : Type v}

/-- A sum over threads, one of which has moved. -/
theorem sum_update
    (f : α → Int) (g : ι → α) (i : ι) (x : α) :
    ∑ j, f (Function.update g i x j) = ∑ j, f (g j) + (f x - f (g i)) := by
  have hcomp : (fun j => f (Function.update g i x j)) =
      Function.update (fun j => f (g j)) i (f x) := by
    funext j
    exact Function.apply_update (fun _ => f) g i x j
  have hsplit := Finset.add_sum_erase Finset.univ (fun j => f (g j)) (Finset.mem_univ i)
  rw [hcomp, Finset.sum_update_of_mem (Finset.mem_univ i), ← hsplit, Finset.sdiff_singleton_eq_erase]
  ring

end Sums

/-- Counters, and the entries that each thread still has to make. -/
structure Ledger (ι : Type u) (κ : Type v) (τ : Type w) where
  counters : κ → Int
  dues : ι → List τ

namespace Ledger

variable {ι : Type u} {κ : Type v} {τ : Type w} (delta : τ → κ → Int)

/-- What a list of entries adds to a counter. -/
def due (entries : List τ) (c : κ) : Int :=
  (entries.map fun entry => delta entry c).sum

@[simp]
theorem due_nil
    (c : κ) :
    due delta [] c = 0 := rfl

@[simp]
theorem due_cons
    (entry : τ) (entries : List τ) (c : κ) :
    due delta (entry :: entries) c = delta entry c + due delta entries c := by
  simp [due]

/-- A counter, with everything that is owed to it. -/
def total [Fintype ι] (l : Ledger ι κ τ) (c : κ) : Int :=
  l.counters c + ∑ i, due delta (l.dues i) c

/-- No thread owes an entry. -/
def Settled (l : Ledger ι κ τ) : Prop :=
  ∀ i, l.dues i = []

theorem total_of_settled
    [Fintype ι] {l : Ledger ι κ τ}
    (h : l.Settled)
    (c : κ) :
    l.total delta c = l.counters c := by
  simp [total, h _]

variable [DecidableEq ι]

/-- A thread makes its next entry. -/
def post (l : Ledger ι κ τ) (i : ι) : Option (Ledger ι κ τ) :=
  match l.dues i with
  | [] => none
  | entry :: entries =>
      some
        { counters := fun c => l.counters c + delta entry c
          dues := Function.update l.dues i entries }

/-- A thread that owes nothing has to make new entries. -/
def charge (l : Ledger ι κ τ) (i : ι) (entries : List τ) : Ledger ι κ τ :=
  { l with dues := Function.update l.dues i entries }

theorem post_cases
    {l l' : Ledger ι κ τ} {i : ι}
    (h : l.post delta i = some l') :
    ∃ entry entries, l.dues i = entry :: entries ∧
      l' = ⟨fun c => l.counters c + delta entry c, Function.update l.dues i entries⟩ := by
  unfold post at h
  cases hdues : l.dues i with
  | nil =>
      simp [hdues] at h
  | cons entry entries =>
      simp only [hdues, Option.some.injEq] at h
      exact ⟨entry, entries, rfl, h.symm⟩

theorem total_post
    [Fintype ι] {l l' : Ledger ι κ τ} {i : ι}
    (h : l.post delta i = some l')
    (c : κ) :
    l'.total delta c = l.total delta c := by
  obtain ⟨entry, entries, hdues, rfl⟩ := post_cases delta h
  simp only [total]
  rw [sum_update (fun es => due delta es c), hdues, due_cons]
  ring

theorem total_charge
    [Fintype ι] {l : Ledger ι κ τ} {i : ι}
    (h : l.dues i = [])
    (entries : List τ) (c : κ) :
    (l.charge i entries).total delta c = l.total delta c + due delta entries c := by
  simp only [total, charge]
  rw [sum_update (fun es => due delta es c), h, due_nil]
  ring

end Ledger

end Lib
end TaskQueue
