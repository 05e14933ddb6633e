import Mathlib.Tactic

/-!
# Actions that overwrite

Entries act on a state one after another.  An action overwrites if what it did at an
earlier time no longer shows once it is done again, whatever other action came in
between: its writes do not depend on the state, and no other action reads them.  A list
of such actions can be applied twice, and a part of it can be applied again before the
rest (`Overwriting.foldl_overlap`), with the result of applying it once.
-/

namespace TaskQueue
namespace Lib

universe u v w

section Overwrite

variable {σ : Type u} {ε : Type v}

/-- An action that is done again hides its first time. -/
structure Overwriting (act : σ → ε → σ) : Prop where
  again : ∀ s x, act (act s x) x = act s x
  hides : ∀ s x y, act (act (act s x) y) x = act (act s y) x

namespace Overwriting

variable {act : σ → ε → σ}

/-- The first time is hidden behind any number of other actions. -/
theorem foldl_over
    (h : Overwriting act)
    (l : List ε) (s : σ) (x : ε) :
    act (l.foldl act (act s x)) x = act (l.foldl act s) x := by
  induction l generalizing s with
  | nil =>
      exact h.again s x
  | cons y l ih =>
      -- the induction hypothesis puts an `x` behind the `y`, and takes it away again
      calc act (l.foldl act (act (act s x) y)) x
          = act (l.foldl act (act (act (act s x) y) x)) x := (ih (act (act s x) y)).symm
        _ = act (l.foldl act (act (act s y) x)) x := by rw [h.hides]
        _ = act (l.foldl act (act s y)) x := ih (act s y)

/-- A list of actions can be done twice. -/
theorem foldl_twice
    (h : Overwriting act)
    (l : List ε) (s : σ) :
    l.foldl act (l.foldl act s) = l.foldl act s := by
  induction l using List.reverseRecOn with
  | nil =>
      rfl
  | append_singleton l x ih =>
      simp only [List.foldl_append, List.foldl_cons, List.foldl_nil]
      rw [h.foldl_over l (l.foldl act s) x, ih]

/-- The middle of a list can be done once more before the rest. -/
theorem foldl_repeated
    (h : Overwriting act)
    (first middle rest : List ε) (s : σ) :
    (middle ++ rest).foldl act ((first ++ middle).foldl act s) =
      (first ++ (middle ++ rest)).foldl act s := by
  simp only [List.foldl_append]
  rw [h.foldl_twice]

/-- The actions from `i` on, done after the first `j`, give what all of them give. -/
theorem foldl_overlap
    (h : Overwriting act)
    (l : List ε) {i j : Nat}
    (hij : i ≤ j)
    (s : σ) :
    (l.drop i).foldl act ((l.take j).foldl act s) = l.foldl act s := by
  obtain ⟨k, rfl⟩ := Nat.exists_eq_add_of_le hij
  have hrepeat := h.foldl_repeated (l.take i) ((l.drop i).take k) ((l.drop i).drop k) s
  rw [List.take_append_drop, List.take_append_drop, ← List.take_add] at hrepeat
  exact hrepeat

/-- Actions that are named in another way overwrite as well. -/
theorem comap
    {ι : Type w}
    (h : Overwriting act)
    (name : ι → ε) :
    Overwriting (fun s i => act s (name i)) where
  again := fun s i => h.again s (name i)
  hides := fun s i k => h.hides s (name i) (name k)

/-- Actions on the values of a function overwrite if they do so at every argument. -/
theorem pointwise
    {α : Type w} {g : α → ε → σ → σ}
    (h : ∀ a, Overwriting (fun s x => g a x s)) :
    Overwriting (fun (f : α → σ) x a => g a x (f a)) where
  again := fun f x => funext fun a => (h a).again (f a) x
  hides := fun f x y => funext fun a => (h a).hides (f a) x y

/-- Actions on the two parts of a pair overwrite if they do so on each. -/
theorem prod
    {τ : Type w} {act₂ : τ → ε → τ}
    (h : Overwriting act)
    (h₂ : Overwriting act₂) :
    Overwriting (fun (s : σ × τ) x => (act s.1 x, act₂ s.2 x)) where
  again := fun s x => Prod.ext (h.again s.1 x) (h₂.again s.2 x)
  hides := fun s x y => Prod.ext (h.hides s.1 x y) (h₂.hides s.2 x y)

end Overwriting

/-- A field that is set, or left, twice around another write. -/
theorem getD_over
    (a b : Option σ) (v : σ) :
    a.getD (b.getD (a.getD v)) = a.getD (b.getD v) := by
  cases a <;> rfl

theorem getD_again
    (a : Option σ) (v : σ) :
    a.getD (a.getD v) = a.getD v := by
  cases a <;> rfl

end Overwrite

end Lib
end TaskQueue
