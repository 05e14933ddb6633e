import Mathlib.Tactic
import TaskQueue.Lib.IndexedHeap
import TaskQueue.Queue.Task

/-!
# The delayed heap

`DelayedHeap` of `internal/queue/heap.go`: tasks ordered by `ScheduledAt`, on the
algorithms of `container/heap`.  The heap holds task IDs; `scheduledAt` reads the
field of the task an ID stands for.  `remove` takes out whatever stands at the
index that the given task has stored, as the source does.
-/

namespace TaskQueue
namespace Queue

open Lib (IndexedHeap)

/-- `DelayedHeap`, with the `heapIndex` of every task. -/
abbrev DelayedHeap := IndexedHeap TaskID

namespace DelayedHeap

/-- `NewDelayedHeap`. -/
def new : DelayedHeap :=
  IndexedHeap.empty

/-- `DelayedHeap.Push`. -/
def push (scheduledAt : TaskID → Time) (dh : DelayedHeap) (t : TaskID) : DelayedHeap :=
  IndexedHeap.push scheduledAt dh t

/-- The stored index of `t` lies in the slice. -/
def indexInRange (dh : DelayedHeap) (t : TaskID) : Bool :=
  decide (0 ≤ dh.index t) && decide (dh.index t < dh.inner.length)

/-- `DelayedHeap.Remove`. -/
def remove (scheduledAt : TaskID → Time) (dh : DelayedHeap) (t : TaskID) :
    Bool × DelayedHeap :=
  if dh.indexInRange t then
    match IndexedHeap.remove scheduledAt dh (dh.index t).toNat with
    | some (_, dh') => (true, dh')
    | none => (true, dh)
  else
    (false, dh)

/-- The entry that `remove` of `t` takes out, if it takes out one. -/
def target (dh : DelayedHeap) (t : TaskID) : Option TaskID :=
  if dh.indexInRange t then
    dh.inner[(dh.index t).toNat]?
  else
    none

/-- The root, when it is due. -/
def due (scheduledAt : TaskID → Time) (now : Time) (dh : DelayedHeap) : Option TaskID :=
  dh.inner[0]?.filter fun t => decide (scheduledAt t ≤ now)

/-- The loop of `PromoteReady`, at most `fuel` times around. -/
def promoteLoop (scheduledAt : TaskID → Time) (now : Time) :
    Nat → DelayedHeap → List TaskID × DelayedHeap
  | 0, dh => ([], dh)
  | fuel + 1, dh =>
      match due scheduledAt now dh with
      | none => ([], dh)
      | some _ =>
          match IndexedHeap.pop scheduledAt dh with
          | none => ([], dh)
          | some (t, dh') =>
              let rest := promoteLoop scheduledAt now fuel dh'
              (t :: rest.1, rest.2)

/--
`DelayedHeap.PromoteReady`, without the writes of the task states.  Every turn of
the loop shortens the heap, so that its length bounds the number of turns.
-/
def promoteReady (scheduledAt : TaskID → Time) (now : Time) (dh : DelayedHeap) :
    List TaskID × DelayedHeap :=
  promoteLoop scheduledAt now dh.inner.length dh

/-- A task in the heap, its position stored, is the one that `remove` takes out. -/
theorem target_of_mem
    {dh : DelayedHeap} {t : TaskID}
    (hi : dh.Indexed)
    (ht : t ∈ dh.inner) :
    dh.target t = some t := by
  obtain ⟨k, hk⟩ := List.mem_iff_getElem?.mp ht
  have hkl : k < dh.inner.length := (List.getElem?_eq_some_iff.mp hk).1
  have hidx : dh.index t = k := hi k t hk
  have hrange : dh.indexInRange t = true := by
    simp only [indexInRange, hidx, Bool.and_eq_true, decide_eq_true_eq]
    omega
  rw [target, if_pos hrange, hidx, Int.toNat_natCast, hk]

/-- `remove` takes its target out, or does nothing when there is none. -/
theorem remove_spec
    (scheduledAt : TaskID → Time)
    (dh : DelayedHeap) (t : TaskID) :
    match dh.target t with
    | some a =>
        (remove scheduledAt dh t).1 = true ∧
          IndexedHeap.Taken dh a (remove scheduledAt dh t).2
    | none => remove scheduledAt dh t = (false, dh) := by
  unfold target
  split_ifs with hrange
  · have hlt : (dh.index t).toNat < dh.inner.length := by
      simp only [indexInRange, Bool.and_eq_true, decide_eq_true_eq] at hrange
      omega
    have ha := List.getElem?_eq_getElem hlt
    obtain ⟨dh', hrem, htaken⟩ := IndexedHeap.remove_spec scheduledAt ha
    rw [ha]
    simp only [remove, hrange, if_true, hrem, true_and]
    exact htaken
  · simp [remove, hrange]

/--
What the loop of `PromoteReady` returns: the ready tasks and those left are
together the tasks of the heap, and the ready ones have index `-1`.
-/
structure Promoted (dh : DelayedHeap) (ready : List TaskID) (dh' : DelayedHeap) :
    Prop where
  perm : (ready ++ dh'.inner).Perm dh.inner
  indexed : dh.Indexed → dh'.Indexed
  others : ∀ a, a ∉ dh.inner → dh'.index a = dh.index a

theorem promoteLoop_spec
    (scheduledAt : TaskID → Time) (now : Time)
    (fuel : Nat) (dh : DelayedHeap) :
    Promoted dh
      (promoteLoop scheduledAt now fuel dh).1
      (promoteLoop scheduledAt now fuel dh).2 := by
  induction fuel generalizing dh with
  | zero =>
      exact ⟨List.Perm.refl _, id, fun _ _ => rfl⟩
  | succ fuel ih =>
      rw [promoteLoop]
      split
      · exact ⟨List.Perm.refl _, id, fun _ _ => rfl⟩
      · next t hdue =>
        have hroot : dh.inner[0]? = some t := by
          obtain ⟨hroot, -⟩ := Option.filter_eq_some_iff.mp hdue
          exact hroot
        obtain ⟨dh', hpop, htaken⟩ := IndexedHeap.pop_spec scheduledAt hroot
        rw [hpop]
        have hrest := ih dh'
        constructor
        · exact (hrest.perm.cons t).trans htaken.perm
        · intro hi
          exact hrest.indexed (htaken.indexed hi)
        · intro a ha
          have ha' : a ∉ dh'.inner := fun hmem =>
            ha (htaken.perm.mem_iff.mp (List.mem_cons_of_mem _ hmem))
          exact (hrest.others a ha').trans (htaken.others a ha)

theorem promoteReady_spec
    (scheduledAt : TaskID → Time) (now : Time)
    (dh : DelayedHeap) :
    Promoted dh
      (promoteReady scheduledAt now dh).1
      (promoteReady scheduledAt now dh).2 :=
  promoteLoop_spec scheduledAt now _ dh

/-- What the loop of `PromoteReady` takes out is due. -/
theorem promoteLoop_due
    (scheduledAt : TaskID → Time) (now : Time)
    (fuel : Nat) (dh : DelayedHeap) {a : TaskID}
    (ha : a ∈ (promoteLoop scheduledAt now fuel dh).1) :
    scheduledAt a ≤ now := by
  induction fuel generalizing dh with
  | zero =>
      cases ha
  | succ fuel ih =>
      rw [promoteLoop] at ha
      split at ha
      · cases ha
      · next t hdue =>
        obtain ⟨hroot, htime⟩ := Option.filter_eq_some_iff.mp hdue
        obtain ⟨dh', hpop, -⟩ := IndexedHeap.pop_spec scheduledAt hroot
        rw [hpop] at ha
        rcases List.mem_cons.mp ha with rfl | hrest
        · exact of_decide_eq_true htime
        · exact ih dh' hrest

end DelayedHeap

end Queue
end TaskQueue
