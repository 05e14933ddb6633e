import Mathlib.Tactic

/-!
# Runs of a partial step function

A machine is given by a step function `step : σ → ε → Option σ` (`none` means
that the event cannot be taken in that state).  A run is a list of events, each
of which is taken.  A side condition `ok : σ → ε → Prop` on the state before a
step and the event restricts the runs to those all of whose steps meet it; with
`ok := fun _ _ => True` all runs are meant.

The module packages the induction over runs once (`Run.invariant`) and the
evaluation of a run on concrete events (`exec_run`).
-/

namespace TaskQueue
namespace Lib

universe u v w

section Runs

variable {σ : Type u} {ε : Type v}

/-- The events `es` lead from one state to another and every step meets `ok`. -/
inductive Run
    (step : σ → ε → Option σ)
    (ok : σ → ε → Prop) :
    σ → List ε → σ → Prop
  | nil (s : σ) : Run step ok s [] s
  | cons
      {s t u : σ} {e : ε} {es : List ε}
      (hok : ok s e)
      (hstep : step s e = some t)
      (rest : Run step ok t es u) :
      Run step ok s (e :: es) u

/-- What every step preserves, a whole run preserves. -/
theorem Run.invariant
    {step : σ → ε → Option σ}
    {ok : σ → ε → Prop}
    (Inv : σ → Prop)
    (hstep : ∀ s e t, Inv s → ok s e → step s e = some t → Inv t)
    {s t : σ} {es : List ε}
    (hrun : Run step ok s es t)
    (hs : Inv s) :
    Inv t := by
  induction hrun with
  | nil =>
      exact hs
  | cons hok hs' _ ih =>
      exact ih (hstep _ _ _ hs hok hs')

/-- A run followed by a run. -/
theorem Run.append
    {step : σ → ε → Option σ}
    {ok : σ → ε → Prop}
    {s t u : σ} {es fs : List ε}
    (hrun : Run step ok s es t)
    (hrest : Run step ok t fs u) :
    Run step ok s (es ++ fs) u := by
  induction hrun with
  | nil =>
      exact hrest
  | cons hok hstep _ ih =>
      exact Run.cons hok hstep (ih hrest)

/-- A map of states under which every step is a step for the same event maps runs to runs. -/
theorem Run.map
    {τ : Type w} {step : σ → ε → Option σ} {step' : τ → ε → Option τ}
    {ok : σ → ε → Prop}
    (f : σ → τ)
    (hstep : ∀ s e t, step s e = some t → step' (f s) e = some (f t))
    {s t : σ} {es : List ε}
    (hrun : Run step ok s es t) :
    Run step' (fun _ _ => True) (f s) es (f t) := by
  induction hrun with
  | nil =>
      exact Run.nil _
  | cons _ hs _ ih =>
      exact Run.cons trivial (hstep _ _ _ hs) ih

/--
A property holds in all states of a run if and only if it holds in the first one and
every step keeps it.
-/
theorem Run.forall_prefix_iff
    {step : σ → ε → Option σ}
    {ok keeps : σ → ε → Prop}
    {P : σ → Prop}
    (hkeeps : ∀ s e t, P s → ok s e → step s e = some t → (P t ↔ keeps s e))
    {s t : σ} {es : List ε}
    (hrun : Run step ok s es t) :
    (∀ fs u, fs <+: es → Run step ok s fs u → P u) ↔ P s ∧ Run step keeps s es t := by
  induction hrun with
  | nil s =>
      constructor
      · intro h
        exact ⟨h [] s List.prefix_rfl (Run.nil s), Run.nil s⟩
      · rintro ⟨hs, -⟩ fs u hfs hu
        rw [List.prefix_nil.mp hfs] at hu
        cases hu
        exact hs
  | @cons s s' t e es hok hstep _ ih =>
      constructor
      · intro h
        have hs : P s := h [] s List.nil_prefix (Run.nil s)
        have hall : ∀ fs u, fs <+: es → Run step ok s' fs u → P u := by
          intro fs u hfs hu
          exact h (e :: fs) u (List.cons_prefix_cons.mpr ⟨rfl, hfs⟩) (Run.cons hok hstep hu)
        obtain ⟨hs', hrest⟩ := ih.mp hall
        exact ⟨hs, Run.cons ((hkeeps s e s' hs hok hstep).mp hs') hstep hrest⟩
      · rintro ⟨hs, hkept⟩ fs u hfs hu
        cases hkept with
        | cons hkeep hstep' hrest =>
            cases hstep.symm.trans hstep'
            have hs' := (hkeeps s e s' hs hok hstep).mpr hkeep
            cases hu with
            | nil =>
                exact hs
            | cons _ hfirst hu =>
                obtain ⟨rfl, htail⟩ := List.cons_prefix_cons.mp hfs
                cases hstep.symm.trans hfirst
                exact ih.mpr ⟨hs', hrest⟩ _ u htail hu

/-- Evaluate a list of events, checking the condition at every step. -/
def exec
    (step : σ → ε → Option σ)
    (ok : σ → ε → Prop) [∀ s e, Decidable (ok s e)] :
    σ → List ε → Option σ
  | s, [] => some s
  | s, e :: es =>
      if ok s e then
        match step s e with
        | some t => exec step ok t es
        | none => none
      else
        none

/-- An evaluation that succeeds is a run. -/
theorem exec_run
    {step : σ → ε → Option σ}
    {ok : σ → ε → Prop} [∀ s e, Decidable (ok s e)]
    {s t : σ} {es : List ε}
    (h : exec step ok s es = some t) :
    Run step ok s es t := by
  induction es generalizing s with
  | nil =>
      simp only [exec, Option.some.injEq] at h
      subst h
      exact Run.nil _
  | cons e es ih =>
      simp only [exec] at h
      split_ifs at h with hok
      cases hs : step s e with
      | none =>
          simp [hs] at h
      | some s' =>
          rw [hs] at h
          exact Run.cons hok hs (ih h)

/-- A check on the last state of an evaluation gives a run that ends in such a state. -/
theorem exists_run_of_exec
    (step : σ → ε → Option σ)
    (ok : σ → ε → Prop) [∀ s e, Decidable (ok s e)]
    (P : σ → Prop) [DecidablePred P]
    (s : σ) (es : List ε)
    (h : (exec step ok s es).any (fun t => decide (P t)) = true) :
    ∃ t, Run step ok s es t ∧ P t := by
  cases hx : exec step ok s es with
  | none =>
      simp [hx] at h
  | some t =>
      refine ⟨t, exec_run hx, ?_⟩
      simpa [hx] using h

/-- The values of `view` before and after each step of an evaluation that changes it. -/
def changes
    {β : Type w} [DecidableEq β]
    (step : σ → ε → Option σ)
    (view : σ → β) :
    σ → List ε → List (β × β)
  | _, [] => []
  | s, e :: es =>
      match step s e with
      | some t =>
          if view s = view t then changes step view t es
          else (view s, view t) :: changes step view t es
      | none => []

/-- A change that an evaluation shows is one step after a run. -/
theorem exists_step_of_mem_changes
    {β : Type w} [DecidableEq β]
    {step : σ → ε → Option σ} {view : σ → β}
    {s : σ} {es : List ε} {a b : β}
    (h : (a, b) ∈ changes step view s es) :
    ∃ fs t e u, Run step (fun _ _ => True) s fs t ∧ step t e = some u ∧ view t = a ∧
      view u = b := by
  induction es generalizing s with
  | nil =>
      cases h
  | cons e es ih =>
      simp only [changes] at h
      cases hs : step s e with
      | none =>
          simp [hs] at h
      | some t =>
          have later : (a, b) ∈ changes step view t es →
              ∃ fs t e u, Run step (fun _ _ => True) s fs t ∧ step t e = some u ∧ view t = a ∧
                view u = b := by
            intro hrest
            obtain ⟨fs, t', e', u, hrun, hstep, ha, hb⟩ := ih hrest
            exact ⟨e :: fs, t', e', u, .cons trivial hs hrun, hstep, ha, hb⟩
          simp only [hs] at h
          split_ifs at h
          · exact later h
          · rcases List.mem_cons.mp h with hnow | hrest
            · cases hnow
              exact ⟨[], s, e, t, .nil s, hs, rfl, rfl⟩
            · exact later hrest

end Runs

end Lib
end TaskQueue
