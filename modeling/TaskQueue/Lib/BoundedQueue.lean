import TaskQueue.Lib.Runs

/-!
# Bounded FIFO queues

A bounded queue as a list, with the answers of its four operations; `none` means that the
caller has to wait.  `Traffic` is a queue of any implementation together with what has
entered and what has left it.

For the list the balance of the two is immediate (`Traffic.Balanced`).  An implementation
inherits it through a map to the list under which its answers are those of the list
(`Traffic.run_map`).
-/

namespace TaskQueue
namespace Lib

universe u v w

/-- A queue of at most `cap` items; when full it refuses, or lets the caller wait. -/
structure BoundedQueue (α : Type u) where
  items : List α
  cap : Nat
  closed : Bool
  rejects : Bool

/-- The operations of a queue. -/
inductive QueueOp (α : Type u) where
  | enqueue (a : α)
  | dequeue
  | tryDequeue
  | close

/-- What an operation that runs to its end answers. -/
inductive QueueAnswer (α : Type u) where
  | ok
  | item (a : α)
  | full
  | closed
  | empty
deriving DecidableEq

/-- The operation has failed. -/
def QueueAnswer.failed {α : Type u} : QueueAnswer α → Bool
  | .full => true
  | .closed => true
  | .empty => true
  | _ => false

/-- What `dequeue` answers on a closed queue with the given items. -/
def QueueAnswer.ofRest {α : Type u} : List α → QueueAnswer α
  | [] => .closed
  | a :: _ => .item a

namespace BoundedQueue

variable {α : Type u}

/-- Take the first item, or do what an empty queue does. -/
def take (q : BoundedQueue α) (onEmpty : Option (QueueAnswer α)) :
    Option (QueueAnswer α × BoundedQueue α) :=
  match q.items with
  | a :: rest => some (.item a, { q with items := rest })
  | [] => onEmpty.map fun ans => (ans, q)

/-- The answer of an operation and the queue after it. -/
def answer (q : BoundedQueue α) : QueueOp α → Option (QueueAnswer α × BoundedQueue α)
  | .enqueue a =>
      if q.closed then
        some (.closed, q)
      else if q.items.length = q.cap then
        if q.rejects then some (.full, q) else none
      else
        some (.ok, { q with items := q.items ++ [a] })
  | .dequeue => q.take (if q.closed then some .closed else none)
  | .tryDequeue => q.take (some .empty)
  | .close => some (.ok, { q with closed := true })

theorem take_of_cons
    {q : BoundedQueue α} {a : α} {rest : List α}
    (h : q.items = a :: rest)
    (onEmpty : Option (QueueAnswer α)) :
    q.take onEmpty = some (.item a, { q with items := rest }) := by
  simp only [take, h]

theorem take_of_nil
    {q : BoundedQueue α}
    (h : q.items = [])
    (onEmpty : Option (QueueAnswer α)) :
    q.take onEmpty = onEmpty.map fun ans => (ans, q) := by
  simp only [take, h]

theorem take_cases
    {q q' : BoundedQueue α} {onEmpty : Option (QueueAnswer α)} {ans : QueueAnswer α}
    (h : q.take onEmpty = some (ans, q')) :
    (∃ a, ans = .item a ∧ q.items = a :: q'.items ∧ q' = { q with items := q'.items }) ∨
    (onEmpty = some ans ∧ q' = q) := by
  cases hitems : q.items with
  | nil =>
      rw [take_of_nil hitems] at h
      obtain ⟨ans', hans, heq⟩ := Option.map_eq_some_iff.mp h
      cases heq
      exact Or.inr ⟨hans, rfl⟩
  | cons a rest =>
      rw [take_of_cons hitems] at h
      cases h
      exact Or.inl ⟨a, rfl, rfl, rfl⟩

/-- What an operation can do: enqueue, dequeue, close, or fail and change nothing. -/
theorem answer_cases
    {q q' : BoundedQueue α} {op : QueueOp α} {ans : QueueAnswer α}
    (h : q.answer op = some (ans, q')) :
    (∃ a, op = .enqueue a ∧ ans = .ok ∧ q.closed = false ∧ q.items.length ≠ q.cap ∧
      q' = { q with items := q.items ++ [a] }) ∨
    (∃ a, (∀ b, op ≠ .enqueue b) ∧ ans = .item a ∧ q.items = a :: q'.items ∧
      q' = { q with items := q'.items }) ∨
    (op = .close ∧ ans = .ok ∧ q' = { q with closed := true }) ∨
    (ans.failed = true ∧ q' = q) := by
  cases op with
  | enqueue a =>
      rw [answer] at h
      split_ifs at h with hclosed hfull hrejects
      · cases h
        exact Or.inr (Or.inr (Or.inr ⟨rfl, rfl⟩))
      · cases h
        exact Or.inr (Or.inr (Or.inr ⟨rfl, rfl⟩))
      · cases h
        exact Or.inl ⟨a, rfl, rfl, by simpa using hclosed, hfull, rfl⟩
  | dequeue =>
      rcases take_cases h with ⟨a, hans, hitems, hq⟩ | ⟨hempty, hq⟩
      · exact Or.inr (Or.inl ⟨a, by simp, hans, hitems, hq⟩)
      · split_ifs at hempty
        cases hempty
        exact Or.inr (Or.inr (Or.inr ⟨rfl, hq⟩))
  | tryDequeue =>
      rcases take_cases h with ⟨a, hans, hitems, hq⟩ | ⟨hempty, hq⟩
      · exact Or.inr (Or.inl ⟨a, by simp, hans, hitems, hq⟩)
      · cases hempty
        exact Or.inr (Or.inr (Or.inr ⟨rfl, hq⟩))
  | close =>
      cases h
      exact Or.inr (Or.inr (Or.inl ⟨rfl, rfl, rfl⟩))

theorem enqueue_full_iff
    (q : BoundedQueue α) (a : α) :
    (q.answer (.enqueue a)).map Prod.fst = some .full ↔
      q.items.length = q.cap ∧ q.closed = false ∧ q.rejects = true := by
  rw [answer]
  split_ifs with hclosed hfull hrejects <;> simp_all

theorem enqueue_closed_iff
    (q : BoundedQueue α) (a : α) :
    (q.answer (.enqueue a)).map Prod.fst = some .closed ↔ q.closed = true := by
  rw [answer]
  split_ifs with hclosed hfull hrejects <;> simp_all

/-- A closed queue gives its items away, and then reports that it is closed. -/
theorem dequeue_of_closed
    {q : BoundedQueue α}
    (h : q.closed = true) :
    (q.answer .dequeue).map Prod.fst = some (.ofRest q.items) := by
  rw [answer, if_pos h]
  cases hitems : q.items with
  | nil =>
      rw [take_of_nil hitems]
      rfl
  | cons a rest =>
      rw [take_of_cons hitems]
      rfl

end BoundedQueue

/-- A queue, what has entered it and what has left it, in order. -/
structure Traffic (κ : Type u) (α : Type v) where
  queue : κ
  entered : List α
  left : List α

namespace Traffic

variable {κ : Type u} {κ' : Type w} {α : Type v}

/-- An operation with its answer is entered in the books. -/
def record (t : Traffic κ α) (op : QueueOp α) (ans : QueueAnswer α) (queue : κ) :
    Traffic κ α where
  queue := queue
  entered :=
    match op, ans with
    | .enqueue a, .ok => t.entered ++ [a]
    | _, _ => t.entered
  left :=
    match ans with
    | .item a => t.left ++ [a]
    | _ => t.left

/-- One operation that runs to its end. -/
def step (answer : κ → QueueOp α → Option (QueueAnswer α × κ))
    (t : Traffic κ α) (op : QueueOp α) : Option (Traffic κ α) :=
  (answer t.queue op).map fun r => t.record op r.1 r.2

/-- The same books for another implementation. -/
def map (f : κ → κ') (t : Traffic κ α) : Traffic κ' α where
  queue := f t.queue
  entered := t.entered
  left := t.left

/-- Implementations with the same answers have the same runs. -/
theorem run_map
    {answer : κ → QueueOp α → Option (QueueAnswer α × κ)}
    {answer' : κ' → QueueOp α → Option (QueueAnswer α × κ')}
    (f : κ → κ')
    (hanswer : ∀ q op, (answer q op).map (Prod.map id f) = answer' (f q) op)
    {ok : Traffic κ α → QueueOp α → Prop}
    {t t' : Traffic κ α} {ops : List (QueueOp α)}
    (hrun : Run (step answer) ok t ops t') :
    Run (step answer') (fun _ _ => True) (t.map f) ops (t'.map f) := by
  refine hrun.map (map f) ?_
  intro t op t' hstep
  obtain ⟨r, hr, rfl⟩ := Option.map_eq_some_iff.mp hstep
  show (answer' (f t.queue) op).map _ = _
  rw [← hanswer, hr]
  rfl

/-- What has entered a queue has left it or is in it, in order. -/
structure Balanced (t : Traffic (BoundedQueue α) α) : Prop where
  balance : t.entered = t.left ++ t.queue.items
  bound : t.queue.items.length ≤ t.queue.cap

theorem step_balanced
    (t : Traffic (BoundedQueue α) α) (op : QueueOp α) (t' : Traffic (BoundedQueue α) α)
    (h : t.Balanced)
    (hstep : step BoundedQueue.answer t op = some t') :
    t'.Balanced ∧ t'.queue.cap = t.queue.cap ∧ t'.queue.rejects = t.queue.rejects := by
  obtain ⟨⟨ans, q⟩, hans, rfl⟩ := Option.map_eq_some_iff.mp hstep
  have hbound := h.bound
  rcases BoundedQueue.answer_cases hans with
    ⟨a, rfl, rfl, -, hroom, rfl⟩ | ⟨a, hop, rfl, hitems, hq⟩ | ⟨rfl, rfl, rfl⟩ | ⟨hfailed, rfl⟩
  · refine ⟨⟨?_, ?_⟩, rfl, rfl⟩
    · simp only [record, h.balance, List.append_assoc]
    · simp only [record, List.length_append, List.length_singleton]
      omega
  · have hentered : (t.record op (.item a) q).entered = t.entered := by
      cases op <;> rfl
    rw [hq]
    refine ⟨⟨?_, ?_⟩, rfl, rfl⟩
    · rw [hq] at hentered
      rw [hentered, h.balance, hitems]
      simp only [record, List.append_assoc, List.singleton_append]
    · rw [hitems, List.length_cons] at hbound
      simp only [record]
      omega
  · exact ⟨⟨h.balance, h.bound⟩, rfl, rfl⟩
  · have hsame : t.record op ans t.queue = t := by
      cases ans <;> cases op <;> first | rfl | cases hfailed
    rw [hsame]
    exact ⟨h, rfl, rfl⟩

/-- Nothing enters a closed queue, and it stays closed. -/
theorem step_closed
    {t t' : Traffic (BoundedQueue α) α} {op : QueueOp α}
    (h : t.queue.closed = true)
    (hstep : step BoundedQueue.answer t op = some t') :
    t'.queue.closed = true ∧ t'.entered = t.entered := by
  obtain ⟨⟨ans, q⟩, hans, rfl⟩ := Option.map_eq_some_iff.mp hstep
  rcases BoundedQueue.answer_cases hans with
    ⟨a, rfl, rfl, hopen, -, rfl⟩ | ⟨a, hop, rfl, hitems, hq⟩ | ⟨rfl, rfl, rfl⟩ | ⟨hfailed, rfl⟩
  · rw [h] at hopen
    cases hopen
  · rw [hq]
    refine ⟨h, ?_⟩
    cases op with
    | enqueue b => exact absurd rfl (hop b)
    | _ => rfl
  · exact ⟨rfl, rfl⟩
  · refine ⟨h, ?_⟩
    cases ans <;> cases op <;> first | rfl | cases hfailed

end Traffic

end Lib
end TaskQueue
