import TaskQueue.Lib.HeapOrder
import TaskQueue.Lib.PriorityBag
import TaskQueue.Queue.Removal

/-!
# The delayed heap as a priority queue

`DelayedHeap` of `internal/queue/heap.go` refines a priority multiset ordered by
`ScheduledAt`.  The machine of this module takes `Push`, `Pop`, `PromoteReady` and `Remove`
as their callers may use them: only tasks that are not in the heap are pushed, only tasks
that are in it are removed, and between the calls a task may be written to, but not its
`ScheduledAt` while it is in the heap.

The invariant (`Valid`) joins the positions that the tasks have stored with the order of
the heap.  `delayedHeap_refines` reads off what every call answers and leaves.
-/

namespace TaskQueue
namespace Queue

open Lib (IndexedHeap IsFirst Pops Releases Run)

namespace DelayedHeap

/-- `DelayedHeap.Peek`. -/
def peek (dh : DelayedHeap) : Option TaskID :=
  dh.inner[0]?

/-- `DelayedHeap.NextDeadline`; `none` is the answer `false`. -/
def nextDeadline (scheduledAt : TaskID → Time) (dh : DelayedHeap) : Option Time :=
  dh.inner[0]?.map scheduledAt

/-- The tasks in the heap, without their positions. -/
def bag (dh : DelayedHeap) : Multiset TaskID :=
  dh.inner

section Order

variable {scheduledAt : TaskID → Time} {dh : DelayedHeap}

/-- Taking a task out of the heap takes it out of the bag. -/
theorem bag_of_taken
    {dh' : DelayedHeap} {t : TaskID}
    (h : IndexedHeap.Taken dh t dh') :
    t ::ₘ dh'.bag = dh.bag :=
  Multiset.coe_eq_coe.mpr h.perm

theorem isFirst_root
    (hord : dh.Ordered scheduledAt)
    {t : TaskID}
    (ht : dh.inner[0]? = some t) :
    IsFirst scheduledAt dh.bag t where
  mem := List.mem_of_getElem? ht
  le := fun _ hu => hord.root_le ht hu

/-- `Peek` gives a task with the least time. -/
theorem peek_isFirst
    (hord : dh.Ordered scheduledAt) :
    match dh.peek with
    | none => dh.bag = 0
    | some t => IsFirst scheduledAt dh.bag t := by
  unfold peek
  split
  · next hnone =>
      rw [List.getElem?_eq_none_iff, Nat.le_zero, List.length_eq_zero_iff] at hnone
      rw [bag, hnone, Multiset.coe_nil]
  · next t ht =>
      exact isFirst_root hord ht

/-- The deadline is the least time of the tasks in the heap. -/
theorem nextDeadline_isLeast
    (hord : dh.Ordered scheduledAt) :
    match dh.nextDeadline scheduledAt with
    | none => dh.bag = 0
    | some deadline => ∃ t, IsFirst scheduledAt dh.bag t ∧ scheduledAt t = deadline := by
  have hpeek := peek_isFirst hord
  unfold nextDeadline
  unfold peek at hpeek
  cases hroot : dh.inner[0]? with
  | none =>
      rw [hroot] at hpeek
      exact hpeek
  | some t =>
      rw [hroot] at hpeek
      exact ⟨t, hpeek, rfl⟩

/-- `Pop` takes out a task with the least time. -/
theorem pop_pops
    (hord : dh.Ordered scheduledAt) :
    Pops scheduledAt dh.bag (pop scheduledAt dh).1 (pop scheduledAt dh).2.bag ∧
      (pop scheduledAt dh).2.Ordered scheduledAt := by
  by_cases hnil : dh.inner = []
  · rw [pop, if_pos hnil]
    exact ⟨.empty (by rw [bag, hnil, Multiset.coe_nil]), hord⟩
  · have hroot := List.getElem?_eq_getElem (List.length_pos_iff.mpr hnil)
    obtain ⟨dh', hpop, htaken⟩ := IndexedHeap.pop_spec scheduledAt hroot
    rw [pop, if_neg hnil, hpop]
    exact ⟨.first (isFirst_root hord hroot) (bag_of_taken htaken),
      IndexedHeap.pop_ordered hord hpop⟩

/-- The loop of `PromoteReady` takes out what is due, if it may go around often enough. -/
theorem promoteLoop_releases
    (now : Time) (fuel : Nat)
    (hord : dh.Ordered scheduledAt)
    (hfuel : dh.inner.length ≤ fuel) :
    Releases scheduledAt now dh.bag (promoteLoop scheduledAt now fuel dh).1
        (promoteLoop scheduledAt now fuel dh).2.bag ∧
      (promoteLoop scheduledAt now fuel dh).2.Ordered scheduledAt := by
  induction fuel generalizing dh with
  | zero =>
      have hnil : dh.inner = [] := List.length_eq_zero_iff.mp (Nat.le_zero.mp hfuel)
      refine ⟨Releases.nothing ?_, hord⟩
      intro t ht
      rw [bag, hnil] at ht
      cases ht
  | succ fuel ih =>
      rw [promoteLoop]
      cases hroot : dh.inner[0]? with
      | none =>
          rw [List.getElem?_eq_none_iff, Nat.le_zero, List.length_eq_zero_iff] at hroot
          have hdue : due scheduledAt now dh = none := by
            simp [due, hroot]
          rw [hdue]
          refine ⟨Releases.nothing ?_, hord⟩
          intro t ht
          rw [bag, hroot] at ht
          cases ht
      | some t =>
          by_cases htime : scheduledAt t ≤ now
          · have hdue : due scheduledAt now dh = some t := by
              simp [due, hroot, htime]
            obtain ⟨dh', hpop, htaken⟩ := IndexedHeap.pop_spec scheduledAt hroot
            have hlen := htaken.perm.length_eq
            rw [List.length_cons] at hlen
            obtain ⟨hrest, hord'⟩ :=
              ih (IndexedHeap.pop_ordered hord hpop) (by omega)
            rw [hdue, hpop]
            exact ⟨Releases.cons (isFirst_root hord hroot)
              (bag_of_taken htaken) htime hrest, hord'⟩
          · rw [not_le] at htime
            have hdue : due scheduledAt now dh = none := by
              simp [due, hroot, htime]
            rw [hdue]
            refine ⟨Releases.nothing ?_, hord⟩
            intro u hu
            exact htime.trans_le (hord.root_le hroot hu)

/-- `PromoteReady` takes out exactly what is due, in the order of the times. -/
theorem promoteReady_releases
    (now : Time)
    (hord : dh.Ordered scheduledAt) :
    Releases scheduledAt now dh.bag (promoteReady scheduledAt now dh).1
        (promoteReady scheduledAt now dh).2.bag ∧
      (promoteReady scheduledAt now dh).2.Ordered scheduledAt :=
  promoteLoop_releases now _ hord le_rfl

/-- `Remove` keeps the order. -/
theorem remove_ordered
    (hord : dh.Ordered scheduledAt)
    (t : TaskID) :
    (remove scheduledAt dh t).2.Ordered scheduledAt := by
  unfold remove
  split_ifs with hrange
  · have hlt : (dh.index t).toNat < dh.inner.length := by
      simp only [indexInRange, Bool.and_eq_true, decide_eq_true_eq] at hrange
      omega
    split
    · next hrem =>
        exact IndexedHeap.remove_ordered hord hlt hrem
    · exact hord
  · exact hord

end Order

end DelayedHeap

/-- A heap, the tasks that its entries point to, and those that were ever pushed. -/
structure DelayedTasks where
  heap : DelayedHeap
  tasks : TaskID → Task
  pushed : List TaskID

/-- The calls on the heap, and a write to a task by somebody else. -/
inductive DelayedOp
  | push (t : TaskID)
  | pop
  | promoteReady (now : Time)
  | remove (t : TaskID)
  | write (t : TaskID) (task : Task)

namespace DelayedTasks

/-- `NewDelayedHeap`, with any tasks around it. -/
def start (tasks : TaskID → Task) : DelayedTasks :=
  ⟨DelayedHeap.new, tasks, []⟩

/-- `ScheduledAt` of the task an ID stands for. -/
def scheduledAt (s : DelayedTasks) (t : TaskID) : Time :=
  (s.tasks t).scheduledAt

/-- `PromoteReady`: the tasks that it returns, with its writes of the states. -/
def promoteReady (s : DelayedTasks) (now : Time) : List TaskID × DelayedTasks :=
  let r := s.heap.promoteReady s.scheduledAt now
  (r.1,
    { s with
      heap := r.2
      tasks := fun t =>
        if t ∈ r.1 then (s.tasks t).forceSetState .pending else s.tasks t })

def step (s : DelayedTasks) : DelayedOp → Option DelayedTasks
  | .push t => some { s with heap := s.heap.push s.scheduledAt t, pushed := t :: s.pushed }
  | .pop => some { s with heap := (s.heap.pop s.scheduledAt).2 }
  | .promoteReady now => some (s.promoteReady now).2
  | .remove t => some { s with heap := (s.heap.remove s.scheduledAt t).2 }
  | .write t task => some { s with tasks := Function.update s.tasks t task }

/-- How the heap may be used. -/
def Proper (s : DelayedTasks) : DelayedOp → Prop
  | .push t => t ∉ s.heap.inner
  | .remove t => t ∈ s.heap.inner
  | .write t task => t ∈ s.heap.inner → task.scheduledAt = s.scheduledAt t
  | _ => True

instance (s : DelayedTasks) (op : DelayedOp) : Decidable (s.Proper op) :=
  match op with
  | .push t => inferInstanceAs (Decidable (t ∉ s.heap.inner))
  | .pop => inferInstanceAs (Decidable True)
  | .promoteReady _ => inferInstanceAs (Decidable True)
  | .remove t => inferInstanceAs (Decidable (t ∈ s.heap.inner))
  | .write t task =>
      inferInstanceAs (Decidable (t ∈ s.heap.inner → task.scheduledAt = s.scheduledAt t))

/-- The stored positions are right, and the heap is ordered. -/
structure Valid (s : DelayedTasks) : Prop where
  accounted : s.heap.Accounted s.pushed
  ordered : s.heap.Ordered s.scheduledAt

theorem valid_start
    (tasks : TaskID → Task) :
    Valid (start tasks) where
  accounted := IndexedHeap.accounted_empty
  ordered := IndexedHeap.empty_ordered _

/-- The writes of `PromoteReady` leave the times alone. -/
theorem scheduledAt_promoteReady
    (s : DelayedTasks) (now : Time) :
    (s.promoteReady now).2.scheduledAt = s.scheduledAt := by
  funext t
  simp only [scheduledAt, promoteReady]
  split_ifs <;> rfl

theorem step_valid
    (s : DelayedTasks) (op : DelayedOp) (s' : DelayedTasks)
    (h : Valid s)
    (hok : s.Proper op)
    (hstep : s.step op = some s') :
    Valid s' := by
  cases op with
  | push t =>
      cases hstep
      exact ⟨h.accounted.push s.scheduledAt hok, IndexedHeap.push_ordered h.ordered t⟩
  | pop =>
      cases hstep
      refine ⟨?_, (DelayedHeap.pop_pops h.ordered).2⟩
      rcases DelayedHeap.pop_cases s.scheduledAt s.heap with hpop | ⟨t, dh, hpop, htaken⟩
      · simp only [hpop]
        exact h.accounted
      · simp only [hpop]
        exact h.accounted.take htaken
  | promoteReady now =>
      cases hstep
      refine ⟨DelayedHeap.accounted_promoteLoop h.accounted s.scheduledAt now _, ?_⟩
      rw [scheduledAt_promoteReady]
      exact (DelayedHeap.promoteReady_releases now h.ordered).2
  | remove t =>
      cases hstep
      have hspec := DelayedHeap.remove_spec s.scheduledAt s.heap t
      rw [DelayedHeap.target_of_mem h.accounted.indexed hok] at hspec
      exact ⟨h.accounted.take hspec.2, DelayedHeap.remove_ordered h.ordered t⟩
  | write t task =>
      cases hstep
      refine ⟨h.accounted, IndexedHeap.Ordered.congr h.ordered ?_⟩
      intro u hu
      by_cases hut : u = t
      · subst hut
        simp only [scheduledAt, Function.update_self]
        exact hok hu
      · simp only [scheduledAt, Function.update_of_ne hut]

/--
The heap is a priority multiset: the positions are stored in the tasks, no child is earlier
than its parent, and every call answers and leaves what it should.
-/
structure IsPriorityQueue (s : DelayedTasks) : Prop where
  position : ∀ (i : Nat) t, s.heap.inner[i]? = some t → s.heap.index t = i
  order : ∀ i j p c, (j = 2 * i + 1 ∨ j = 2 * i + 2) → s.heap.inner[i]? = some p →
    s.heap.inner[j]? = some c → s.scheduledAt p ≤ s.scheduledAt c
  taken : ∀ t ∈ s.pushed, t ∉ s.heap.bag → s.heap.index t = -1
  peek : match s.heap.peek with
    | none => s.heap.bag = 0
    | some t => IsFirst s.scheduledAt s.heap.bag t
  push : ∀ t, (s.heap.push s.scheduledAt t).bag = t ::ₘ s.heap.bag
  pop : Pops s.scheduledAt s.heap.bag (s.heap.pop s.scheduledAt).1
    (s.heap.pop s.scheduledAt).2.bag
  remove : ∀ t ∈ s.heap.bag, (s.heap.remove s.scheduledAt t).1 = true ∧
    t ::ₘ (s.heap.remove s.scheduledAt t).2.bag = s.heap.bag
  promote : ∀ now, Releases s.scheduledAt now s.heap.bag (s.promoteReady now).1
    (s.promoteReady now).2.heap.bag
  promoted : ∀ now, ∀ t ∈ (s.promoteReady now).1,
    ((s.promoteReady now).2.tasks t).state = .pending
  deadline : ∀ now, match (s.promoteReady now).2.heap.nextDeadline s.scheduledAt with
    | none => (s.promoteReady now).2.heap.bag = 0
    | some deadline => ∃ t, IsFirst s.scheduledAt (s.promoteReady now).2.heap.bag t ∧
        s.scheduledAt t = deadline

theorem Valid.isPriorityQueue
    {s : DelayedTasks}
    (h : Valid s) :
    IsPriorityQueue s where
  position := h.accounted.indexed
  order := (IndexedHeap.ordered_iff s.scheduledAt s.heap).mp h.ordered
  taken := h.accounted.taken
  peek := DelayedHeap.peek_isFirst h.ordered
  push := fun t => Multiset.coe_eq_coe.mpr (IndexedHeap.push_spec s.scheduledAt s.heap t).1
  pop := (DelayedHeap.pop_pops h.ordered).1
  remove := by
    intro t ht
    have hspec := DelayedHeap.remove_spec s.scheduledAt s.heap t
    rw [DelayedHeap.target_of_mem h.accounted.indexed ht] at hspec
    exact ⟨hspec.1, DelayedHeap.bag_of_taken hspec.2⟩
  promote := fun now => (DelayedHeap.promoteReady_releases now h.ordered).1
  promoted := by
    intro now t ht
    simp only [promoteReady] at ht ⊢
    rw [if_pos ht]
    rfl
  deadline := fun now =>
    DelayedHeap.nextDeadline_isLeast (DelayedHeap.promoteReady_releases now h.ordered).2

/-- After any proper use, the heap is a priority multiset ordered by `ScheduledAt`. -/
theorem delayedHeap_refines
    (tasks : TaskID → Task) (ops : List DelayedOp) (s : DelayedTasks)
    (hrun : Run step Proper (start tasks) ops s) :
    IsPriorityQueue s := by
  have hvalid : Valid s := hrun.invariant Valid step_valid (valid_start tasks)
  exact hvalid.isPriorityQueue

/-- Tasks that are due at the length of their IDs. -/
def dueAtLength (t : TaskID) : Task :=
  { Task.zero with id := t, state := .scheduled, scheduledAt := t.length }

/-- Four tasks come in and one is taken out of the middle. -/
def fourPushedOneRemoved : List DelayedOp :=
  [.push "dddd", .push "bb", .push "a", .push "ccc", .remove "bb"]

theorem delayedHeap_refines_four :
    ∃ s, Run step Proper (start dueAtLength) fourPushedOneRemoved s ∧
      s.heap.inner = ["a", "ccc", "dddd"] ∧ (s.promoteReady 3).1 = ["a", "ccc"] ∧
      IsPriorityQueue s := by
  obtain ⟨s, hrun, hinner, hready⟩ :=
    Lib.exists_run_of_exec step Proper
      (fun s => s.heap.inner = ["a", "ccc", "dddd"] ∧ (s.promoteReady 3).1 = ["a", "ccc"])
      (start dueAtLength) fourPushedOneRemoved (by decide +kernel)
  exact ⟨s, hrun, hinner, hready,
    delayedHeap_refines dueAtLength fourPushedOneRemoved s hrun⟩

end DelayedTasks

end Queue
end TaskQueue
