import Mathlib.Tactic

/-!
# A condition variable

The wait list of one condition variable, in the FIFO reading of `sync.Cond`: a
thread that waits is appended to the list, `signal` moves the oldest waiter to
the woken threads, `broadcast` moves all of them.  A woken thread stays woken
until it gets the mutex again (`resume`); the woken threads run in any order.

For a class of threads, given by a decidable predicate, the module counts the
woken threads of that class (`wokenCount`) and says how the operations change
the count.  `Aligned` says that a signal reaches the class it is meant for.
-/

namespace TaskQueue
namespace Lib

universe u

/-- The threads blocked in `Wait`, oldest first, and the woken threads. -/
structure Cond (τ : Type u) where
  waiting : List τ
  woken : List τ
deriving DecidableEq

namespace Cond

variable {τ : Type u}

/-- No thread waits and none is woken. -/
def empty : Cond τ := ⟨[], []⟩

/-- The caller joins the back of the wait list. -/
def wait (c : Cond τ) (t : τ) : Cond τ :=
  { c with waiting := c.waiting ++ [t] }

/-- Wake the oldest waiter, if any. -/
def signal (c : Cond τ) : Cond τ :=
  match c.waiting with
  | [] => c
  | t :: ts => { waiting := ts, woken := c.woken ++ [t] }

/-- Wake every waiter. -/
def broadcast (c : Cond τ) : Cond τ :=
  { waiting := [], woken := c.woken ++ c.waiting }

/-- A woken thread gets the mutex and runs. -/
def resume [DecidableEq τ] (c : Cond τ) (t : τ) : Cond τ :=
  { c with woken := c.woken.erase t }

/-- The number of woken threads of a class. -/
def wokenCount (p : τ → Bool) (c : Cond τ) : Nat :=
  c.woken.countP p

/-- Some waiter is of the class. -/
def HasWaiter (p : τ → Bool) (c : Cond τ) : Prop :=
  ∃ t ∈ c.waiting, p t = true

instance (p : τ → Bool) (c : Cond τ) : Decidable (c.HasWaiter p) :=
  inferInstanceAs (Decidable (∃ t ∈ c.waiting, p t = true))

/-- If a thread of the class waits, the oldest waiter is of the class. -/
def Aligned (p : τ → Bool) (c : Cond τ) : Prop :=
  c.HasWaiter p → ∃ t ∈ c.waiting.head?, p t = true

instance (p : τ → Bool) (c : Cond τ) : Decidable (c.Aligned p) :=
  inferInstanceAs (Decidable (_ → ∃ t ∈ c.waiting.head?, p t = true))

theorem hasWaiter_wait
    {p : τ → Bool} {c : Cond τ} {t : τ}
    (h : (c.wait t).HasWaiter p) :
    c.HasWaiter p ∨ p t = true := by
  obtain ⟨t', hmem, hp⟩ := h
  rcases List.mem_append.mp hmem with hmem | hmem
  · exact Or.inl ⟨t', hmem, hp⟩
  · rw [List.mem_singleton] at hmem
    subst hmem
    exact Or.inr hp

/-- A signal adds no waiter. -/
theorem mem_waiting_of_mem_signal
    {c : Cond τ} {t : τ}
    (h : t ∈ c.signal.waiting) :
    t ∈ c.waiting := by
  cases hw : c.waiting with
  | nil =>
      simp [signal, hw] at h
  | cons t' ts =>
      simp only [signal, hw] at h
      exact List.mem_cons_of_mem _ h

theorem hasWaiter_of_signal
    {p : τ → Bool} {c : Cond τ}
    (h : c.signal.HasWaiter p) :
    c.HasWaiter p := by
  obtain ⟨t, hmem, hp⟩ := h
  exact ⟨t, mem_waiting_of_mem_signal hmem, hp⟩

/-- A signal puts no woken thread back. -/
theorem wokenCount_le_signal
    (p : τ → Bool) (c : Cond τ) :
    c.wokenCount p ≤ c.signal.wokenCount p := by
  cases hw : c.waiting with
  | nil =>
      simp [signal, hw]
  | cons t ts =>
      simp [wokenCount, signal, hw, List.countP_append]

/-- A signal that is aligned with a class, some thread of which waits, wakes one of the class. -/
theorem wokenCount_signal_of_aligned
    {p : τ → Bool} {c : Cond τ}
    (hal : c.Aligned p)
    (hwt : c.HasWaiter p) :
    c.signal.wokenCount p = c.wokenCount p + 1 := by
  obtain ⟨t, hhead, hp⟩ := hal hwt
  cases hw : c.waiting with
  | nil =>
      simp [hw] at hhead
  | cons t' ts =>
      have : t' = t := by
        simpa [hw] using hhead
      subst this
      simp [wokenCount, signal, hw, List.countP_append, hp]

section Resume

variable [DecidableEq τ]

/-- Resuming a thread of the class takes one from the count. -/
theorem wokenCount_resume
    {p : τ → Bool} {c : Cond τ} {t : τ}
    (hmem : t ∈ c.woken)
    (hp : p t = true) :
    (c.resume t).wokenCount p = c.wokenCount p - 1 := by
  unfold wokenCount resume
  rw [List.countP_erase]
  simp [hmem, hp]

/-- Resuming a thread of another class leaves the count alone. -/
theorem wokenCount_resume_other
    {p : τ → Bool} {c : Cond τ} {t : τ}
    (hp : p t = false) :
    (c.resume t).wokenCount p = c.wokenCount p := by
  unfold wokenCount resume
  rw [List.countP_erase]
  simp [hp]

end Resume

end Cond

end Lib
end TaskQueue
