import Mathlib.Tactic
import TaskQueue.Lib.Runs

/-!
# Runs that come to an end

Steps that lower a measure cannot go on for ever: a run is not longer than the measure of its
first state (`Run.length_le`).  If moreover some step is possible unless a goal is reached, there
is a run to the goal (`exists_run_to`).  A measure that is a sum over threads goes down when one
thread acts and the others do not get more to do (`sum_add_le`).
-/

namespace TaskQueue
namespace Lib

universe u v

section Measure

variable {σ : Type u} {ε : Type v}
variable {step : σ → ε → Option σ} {ok : σ → ε → Prop}

/-- A run, all of whose steps keep an invariant and lower a measure. -/
theorem Run.length_le
    (Inv : σ → Prop) (measure : σ → Nat)
    (hinv : ∀ s e t, Inv s → ok s e → step s e = some t → Inv t)
    (hlower : ∀ s e t, Inv s → ok s e → step s e = some t → measure t < measure s)
    {s t : σ} {es : List ε}
    (hrun : Run step ok s es t)
    (hs : Inv s) :
    measure t + es.length ≤ measure s := by
  induction hrun with
  | nil =>
      simp
  | cons hok hstep _ ih =>
      have hrest := ih (hinv _ _ _ hs hok hstep)
      have hfirst := hlower _ _ _ hs hok hstep
      rw [List.length_cons]
      omega

/-- If a step that lowers the measure is possible unless the goal is reached, it is reached. -/
theorem exists_run_to
    (Inv : σ → Prop) (measure : σ → Nat) (Goal : σ → Prop)
    (hinv : ∀ s e t, Inv s → ok s e → step s e = some t → Inv t)
    (hlower : ∀ s e t, Inv s → ok s e → step s e = some t → measure t < measure s)
    (hgoes : ∀ s, Inv s → Goal s ∨ ∃ e t, ok s e ∧ step s e = some t)
    {s : σ}
    (hs : Inv s) :
    ∃ es t, Run step ok s es t ∧ Goal t := by
  induction hk : measure s using Nat.strong_induction_on generalizing s with
  | _ k ih =>
      rcases hgoes s hs with hgoal | ⟨e, t, hok, hstep⟩
      · exact ⟨[], s, Run.nil s, hgoal⟩
      · have hless := hlower s e t hs hok hstep
        obtain ⟨es, u, hrun, hgoal⟩ :=
          ih (measure t) (hk ▸ hless) (hinv s e t hs hok hstep) rfl
        exact ⟨e :: es, u, Run.cons hok hstep hrun, hgoal⟩

end Measure

/-- A sum of which one part changes and the others do not grow. -/
theorem sum_add_le
    {ι : Type u} [Fintype ι] [DecidableEq ι]
    (f f' : ι → Nat) (i : ι)
    (hrest : ∀ j, j ≠ i → f' j ≤ f j) :
    ∑ j, f' j + f i ≤ ∑ j, f j + f' i := by
  rw [← Finset.add_sum_erase _ f (Finset.mem_univ i),
    ← Finset.add_sum_erase _ f' (Finset.mem_univ i)]
  have hothers : ∑ j ∈ Finset.univ.erase i, f' j ≤ ∑ j ∈ Finset.univ.erase i, f j :=
    Finset.sum_le_sum fun j hj => hrest j (Finset.ne_of_mem_erase hj)
  omega

end Lib
end TaskQueue
