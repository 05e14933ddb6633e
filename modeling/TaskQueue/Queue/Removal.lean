import TaskQueue.Lib.Runs
import TaskQueue.Queue.DelayedHeap

/-!
# Removing tasks from the delayed heap

Any sequence of `Push`, `Pop`, `PromoteReady` and `Remove` on the `DelayedHeap` of
`internal/queue/heap.go`, with `Remove` on arbitrary tasks.  `Remove` decides by the
`heapIndex` of the task alone.  A task that was taken out has index `-1` and is refused; a
task that was never pushed still has the zero value of the field, which is the position of
the root, and the root is removed in its place.  `remove_exact_iff` says that this is the
only way in which it goes wrong.

The `ScheduledAt` of the tasks may change between two calls, so every call has its own.
-/

namespace TaskQueue
namespace Queue

open Lib (IndexedHeap Run)

namespace DelayedHeap

/-- `DelayedHeap.Pop`. -/
def pop (scheduledAt : TaskID → Time) (dh : DelayedHeap) : Option TaskID × DelayedHeap :=
  if dh.inner = [] then
    (none, dh)
  else
    match IndexedHeap.pop scheduledAt dh with
    | some (t, dh') => (some t, dh')
    | none => (none, dh)

/-- `Pop` takes the root out, if there is one. -/
theorem pop_cases
    (scheduledAt : TaskID → Time) (dh : DelayedHeap) :
    pop scheduledAt dh = (none, dh) ∨
    ∃ t dh', pop scheduledAt dh = (some t, dh') ∧ IndexedHeap.Taken dh t dh' := by
  unfold pop
  split_ifs with hnil
  · exact Or.inl rfl
  · have hroot := List.getElem?_eq_getElem (List.length_pos_iff.mpr hnil)
    obtain ⟨dh', hpop, htaken⟩ := IndexedHeap.pop_spec scheduledAt hroot
    rw [hpop]
    exact Or.inr ⟨_, dh', rfl, htaken⟩

/-- `Remove(t)` reports whether `t` is in the heap, and takes out `t` and nothing else. -/
def RemovesExactly (scheduledAt : TaskID → Time) (dh : DelayedHeap) (t : TaskID) : Prop :=
  ((remove scheduledAt dh t).1 = true ↔ t ∈ dh.inner) ∧
    (remove scheduledAt dh t).2.inner.Perm (dh.inner.erase t)

instance (scheduledAt : TaskID → Time) (dh : DelayedHeap) (t : TaskID) :
    Decidable (dh.RemovesExactly scheduledAt t) :=
  inferInstanceAs (Decidable (_ ∧ _))

theorem accounted_promoteLoop
    {pushed : List TaskID} {dh : DelayedHeap}
    (h : dh.Accounted pushed)
    (scheduledAt : TaskID → Time) (now : Time) (fuel : Nat) :
    (promoteLoop scheduledAt now fuel dh).2.Accounted pushed := by
  induction fuel generalizing dh with
  | zero =>
      exact h
  | succ fuel ih =>
      rw [promoteLoop]
      split
      · exact h
      · next t hdue =>
        obtain ⟨hroot, -⟩ := Option.filter_eq_some_iff.mp hdue
        obtain ⟨dh', hpop, htaken⟩ := IndexedHeap.pop_spec scheduledAt hroot
        rw [hpop]
        exact ih (h.take htaken)

/-- A task in the heap is removed, and nothing else. -/
theorem removesExactly_of_mem
    {pushed : List TaskID} {dh : DelayedHeap} {t : TaskID}
    (h : dh.Accounted pushed)
    (scheduledAt : TaskID → Time)
    (ht : t ∈ dh.inner) :
    dh.RemovesExactly scheduledAt t := by
  have hspec := remove_spec scheduledAt dh t
  rw [target_of_mem h.indexed ht] at hspec
  obtain ⟨htrue, htaken⟩ := hspec
  refine ⟨⟨fun _ => ht, fun _ => htrue⟩, ?_⟩
  have hperm := htaken.perm.erase t
  rwa [List.erase_cons_head] at hperm

/-- A task that is not in the heap and has no index in it is refused. -/
theorem removesExactly_of_target
    {dh : DelayedHeap} {t : TaskID}
    (scheduledAt : TaskID → Time)
    (ht : t ∉ dh.inner)
    (htarget : dh.target t = none) :
    dh.RemovesExactly scheduledAt t := by
  have hspec := remove_spec scheduledAt dh t
  rw [htarget] at hspec
  unfold RemovesExactly
  rw [hspec, List.erase_of_not_mem ht]
  exact ⟨⟨fun hfalse => absurd hfalse Bool.false_ne_true, fun hin => absurd hin ht⟩,
    List.Perm.refl _⟩

/-- Which tasks `Remove` treats rightly. -/
theorem removesExactly_iff
    {pushed : List TaskID} {dh : DelayedHeap}
    (h : dh.Accounted pushed)
    (scheduledAt : TaskID → Time) (t : TaskID) :
    dh.RemovesExactly scheduledAt t ↔ t ∈ pushed ∨ dh.inner = [] := by
  constructor
  · rintro ⟨htrue, -⟩
    by_contra hnot
    rw [not_or] at hnot
    have hout : t ∉ dh.inner := fun hin => hnot.1 (h.inside t hin)
    -- the zero value of the index is in the range of a heap that is not empty
    have hrange : dh.indexInRange t = true := by
      have := List.length_pos_iff.mpr hnot.2
      simp only [indexInRange, h.never t hnot.1, Bool.and_eq_true, decide_eq_true_eq]
      omega
    refine hout (htrue.mp ?_)
    unfold remove
    rw [if_pos hrange]
    split <;> rfl
  · intro hgood
    by_cases hin : t ∈ dh.inner
    · exact removesExactly_of_mem h scheduledAt hin
    · refine removesExactly_of_target scheduledAt hin ?_
      have hrange : dh.indexInRange t = false := by
        rcases hgood with hpushed | hnil
        · simp [indexInRange, h.taken t hpushed hin]
        · simp [indexInRange, hnil]
      rw [target, hrange]
      rfl

end DelayedHeap

/-- A heap and the tasks that were ever pushed. -/
structure HeapSession where
  heap : DelayedHeap
  pushed : List TaskID

/-- The calls, with the `ScheduledAt` of the tasks at their time. -/
inductive HeapCall
  | push (scheduledAt : TaskID → Time) (t : TaskID)
  | pop (scheduledAt : TaskID → Time)
  | promoteReady (scheduledAt : TaskID → Time) (now : Time)
  | remove (scheduledAt : TaskID → Time) (t : TaskID)

namespace HeapSession

/-- `NewDelayedHeap`. -/
def start : HeapSession :=
  ⟨DelayedHeap.new, []⟩

def step (s : HeapSession) : HeapCall → Option HeapSession
  | .push scheduledAt t => some ⟨s.heap.push scheduledAt t, t :: s.pushed⟩
  | .pop scheduledAt => some { s with heap := (s.heap.pop scheduledAt).2 }
  | .promoteReady scheduledAt now =>
      some { s with heap := (s.heap.promoteReady scheduledAt now).2 }
  | .remove scheduledAt t => some { s with heap := (s.heap.remove scheduledAt t).2 }

/-- No task is pushed while it is in the heap. -/
def PushesOnce (s : HeapSession) : HeapCall → Prop
  | .push _ t => t ∉ s.heap.inner
  | _ => True

instance (s : HeapSession) (c : HeapCall) : Decidable (s.PushesOnce c) :=
  match c with
  | .push _ t => inferInstanceAs (Decidable (t ∉ s.heap.inner))
  | .pop _ => inferInstanceAs (Decidable True)
  | .promoteReady _ _ => inferInstanceAs (Decidable True)
  | .remove _ _ => inferInstanceAs (Decidable True)

theorem step_accounted
    (s : HeapSession) (c : HeapCall) (s' : HeapSession)
    (h : s.heap.Accounted s.pushed)
    (hok : s.PushesOnce c)
    (hstep : s.step c = some s') :
    s'.heap.Accounted s'.pushed := by
  cases c with
  | push scheduledAt t =>
      cases hstep
      exact h.push scheduledAt hok
  | pop scheduledAt =>
      cases hstep
      rcases DelayedHeap.pop_cases scheduledAt s.heap with hpop | ⟨t, dh, hpop, htaken⟩
      · simp only [hpop]
        exact h
      · simp only [hpop]
        exact h.take htaken
  | promoteReady scheduledAt now =>
      cases hstep
      exact DelayedHeap.accounted_promoteLoop h scheduledAt now _
  | remove scheduledAt t =>
      cases hstep
      have hspec := DelayedHeap.remove_spec scheduledAt s.heap t
      cases htarget : s.heap.target t with
      | none =>
          rw [htarget] at hspec
          simp only [hspec]
          exact h
      | some a =>
          rw [htarget] at hspec
          exact h.take hspec.2

/--
After any sequence of calls, `Remove(t)` is right if and only if `t` was pushed at some
time or the heap is empty.
-/
theorem remove_exact_iff
    (calls : List HeapCall) (s : HeapSession)
    (hrun : Run step PushesOnce start calls s)
    (scheduledAt : TaskID → Time) (t : TaskID) :
    s.heap.RemovesExactly scheduledAt t ↔ t ∈ s.pushed ∨ s.heap.inner = [] := by
  have hacc : s.heap.Accounted s.pushed :=
    hrun.invariant (fun s => s.heap.Accounted s.pushed) step_accounted
      IndexedHeap.accounted_empty
  exact DelayedHeap.removesExactly_iff hacc scheduledAt t

/-- Two tasks are pushed, and one of them is popped. -/
def pushedAndPopped : List HeapCall :=
  [.push (fun _ => 5) "a", .push (fun _ => 5) "b", .pop (fun _ => 5)]

theorem remove_exact_iff_popped :
    ∃ s, Run step PushesOnce start pushedAndPopped s ∧ s.heap.inner = ["b"] ∧
      s.heap.RemovesExactly (fun _ => 5) "a" ∧ s.heap.RemovesExactly (fun _ => 5) "b" := by
  obtain ⟨s, hrun, hinner, hpushed⟩ :=
    Lib.exists_run_of_exec step PushesOnce
      (fun s => s.heap.inner = ["b"] ∧ s.pushed = ["b", "a"]) start pushedAndPopped
      (by decide +kernel)
  refine ⟨s, hrun, hinner, ?_, ?_⟩
  · exact (remove_exact_iff pushedAndPopped s hrun _ "a").mpr (Or.inl (by rw [hpushed]; decide))
  · exact (remove_exact_iff pushedAndPopped s hrun _ "b").mpr (Or.inl (by rw [hpushed]; decide))

/-- `Remove` of a task that was never pushed takes out another task and reports success. -/
theorem remove_never_pushed :
    ∃ s, Run step PushesOnce start [.push (fun _ => 5) "a"] s ∧
      "b" ∉ s.heap.inner ∧ s.heap.inner = ["a"] ∧
      (s.heap.remove (fun _ => 5) "b").1 = true ∧
      (s.heap.remove (fun _ => 5) "b").2.inner = [] :=
  Lib.exists_run_of_exec step PushesOnce
    (fun s => "b" ∉ s.heap.inner ∧ s.heap.inner = ["a"] ∧
      (s.heap.remove (fun _ => 5) "b").1 = true ∧
      (s.heap.remove (fun _ => 5) "b").2.inner = [])
    start [.push (fun _ => 5) "a"] (by decide +kernel)

end HeapSession

end Queue
end TaskQueue
