import TaskQueue.Lib.BoundedQueue
import TaskQueue.Queue.Monitor

/-!
# The ring buffer as a bounded FIFO queue

Any sequence of completed `Enqueue`, `Dequeue`, `TryDequeue` and `Close` calls on the ring
buffer of `internal/queue/queue.go`.  Read from its head the buffer is a list
(`toBounded`), and its operations answer as those of a bounded queue do
(`answer_toBounded`).  So the books of a session balance, whatever the order of the calls,
and `ringBuffer_fifo` reads off the slots, the order of delivery and the errors.

The calls of threads that block and are woken are such a session as well: every pass
through a critical section is a completed call or changes nothing (`monitor_session`).
-/

namespace TaskQueue
namespace Queue

open Lib (BoundedQueue QueueOp QueueAnswer Traffic Run)

universe u

section Fifo

variable {α : Type u}

namespace RingBuffer

/-- A call that runs to its end: its answer and the buffer after it. -/
def answer (rb : RingBuffer α) : QueueOp α → Option (QueueAnswer α × RingBuffer α)
  | .enqueue t =>
      match rb.enqueue t with
      | .done rb' => some (.ok, rb')
      | .fail .full => some (.full, rb)
      | .fail .closed => some (.closed, rb)
      | .wait => none
  | .dequeue =>
      match rb.dequeue with
      | .done t rb' => some (.item t, rb')
      | .closed => some (.closed, rb)
      | .wait => none
  | .tryDequeue =>
      match rb.tryDequeue with
      | some (t, rb') => some (.item t, rb')
      | none => some (.empty, rb)
  | .close => some (.ok, rb.close)

/-- The slots, read once around from the head. -/
def slots (rb : RingBuffer α) : List (Option α) :=
  (List.range rb.cap).map fun i => (rb.buf[(rb.head + i) % rb.cap]?).join

/-- The queue that the buffer stands for. -/
def toBounded (rb : RingBuffer α) : BoundedQueue α where
  items := rb.contents
  cap := rb.cap
  closed := rb.closed
  rejects := rb.policy = .reject

/-- The occupied slots come first and hold the contents; all others are nil. -/
theorem slots_eq
    (rb : RingBuffer α) :
    rb.slots = rb.contents.map some ++ List.replicate (rb.cap - rb.size) none := by
  have hle := rb.size_le
  have hocc : (List.range rb.size).map (fun i => (rb.buf[(rb.head + i) % rb.cap]?).join) =
      rb.contents.map some := by
    rw [contents, List.map_filterMap, ← List.filterMap_eq_map]
    refine List.filterMap_congr ?_
    intro i hi
    obtain ⟨a, ha⟩ := rb.occupied i (List.mem_range.mp hi)
    simp [ha]
  have hvac : (List.range (rb.cap - rb.size)).map
      (fun i => (rb.buf[(rb.head + (rb.size + i)) % rb.cap]?).join) =
      List.replicate (rb.cap - rb.size) none := by
    rw [List.eq_replicate_iff]
    refine ⟨by simp, ?_⟩
    intro x hx
    obtain ⟨i, hi, rfl⟩ := List.mem_map.mp hx
    rw [List.mem_range] at hi
    rw [rb.vacant (rb.size + i) (by omega) (by omega)]
    rfl
  have hrange : List.range rb.cap =
      List.range rb.size ++ (List.range (rb.cap - rb.size)).map (rb.size + ·) := by
    rw [← List.range_add]
    congr 1
    omega
  rw [slots, hrange, List.map_append, hocc, List.map_map, ← hvac]
  rfl

/-- The calls answer as those of a bounded queue. -/
theorem answer_toBounded
    (rb : RingBuffer α) (op : QueueOp α) :
    (rb.answer op).map (Prod.map id toBounded) = rb.toBounded.answer op := by
  cases op with
  | enqueue t =>
      have hlen : rb.toBounded.items.length = rb.size := rb.contents_length
      simp only [answer, BoundedQueue.answer, hlen]
      by_cases hclosed : rb.toBounded.closed = true
      · rw [enqueue_of_closed hclosed, if_pos hclosed]
        rfl
      have hopen : rb.closed = false := Bool.eq_false_of_not_eq_true hclosed
      rw [if_neg hclosed]
      by_cases hfull : rb.size = rb.toBounded.cap
      · rw [enqueue_of_full hopen hfull, if_pos hfull]
        by_cases hpolicy : rb.policy = .reject
        · have hrejects : rb.toBounded.rejects = true := decide_eq_true hpolicy
          rw [if_pos hpolicy, if_pos hrejects]
          rfl
        · have hrejects : rb.toBounded.rejects = false := decide_eq_false hpolicy
          rw [if_neg hpolicy, hrejects]
          rfl
      · have hroom : rb.size < rb.cap := Nat.lt_of_le_of_ne rb.size_le hfull
        rw [enqueue_of_room hopen hroom, if_neg hfull]
        simp only [Option.map_some, Prod.map, id, toBounded, put_contents]
        rfl
  | dequeue =>
      simp only [answer, dequeue, BoundedQueue.answer]
      by_cases hsize : 0 < rb.size
      · rw [dif_pos hsize, BoundedQueue.take_of_cons (take_contents rb hsize)]
        rfl
      · rw [dif_neg hsize, BoundedQueue.take_of_nil (contents_of_empty hsize)]
        by_cases hclosed : rb.toBounded.closed = true
        · rw [if_pos hclosed, show rb.closed = true from hclosed]
          rfl
        · rw [if_neg hclosed, show rb.closed = false from Bool.eq_false_of_not_eq_true hclosed]
          rfl
  | tryDequeue =>
      simp only [answer, tryDequeue, BoundedQueue.answer]
      by_cases hsize : 0 < rb.size
      · rw [dif_pos hsize, BoundedQueue.take_of_cons (take_contents rb hsize)]
        rfl
      · rw [dif_neg hsize, BoundedQueue.take_of_nil (contents_of_empty hsize)]
        rfl
  | close =>
      rfl

end RingBuffer

/-- A ring buffer with the tasks that were enqueued and those that were dequeued. -/
abbrev Session (α : Type u) := Traffic (RingBuffer α) α

namespace Session

/-- A new ring buffer. -/
def start (capacity : Nat) (policy : OverflowPolicy) (h : 0 < capacity) : Session α :=
  ⟨RingBuffer.new capacity policy h, [], []⟩

/-- A call that runs to its end. -/
def step (s : Session α) (op : QueueOp α) : Option (Session α) :=
  Traffic.step RingBuffer.answer s op

/-- The books of the queue that the buffer stands for. -/
def toBounded (s : Session α) : Traffic (BoundedQueue α) α :=
  s.map RingBuffer.toBounded

/--
The state of a session: the indices, the slots, what was delivered, and what the next
calls answer.
-/
structure Fifo (capacity : Nat) (policy : OverflowPolicy) (s : Session α) : Prop where
  cap_eq : s.queue.cap = capacity
  policy_eq : s.queue.policy = policy
  size_le : s.queue.size ≤ capacity
  tail_eq : s.queue.tail = (s.queue.head + s.queue.size) % capacity
  slots_eq : s.queue.slots =
    (s.entered.drop s.left.length).map some ++
      List.replicate (capacity - s.queue.size) none
  delivered : s.left <+: s.entered
  full_iff : ∀ t, (s.queue.answer (.enqueue t)).map Prod.fst = some .full ↔
    s.queue.size = capacity ∧ s.queue.closed = false ∧ policy = .reject
  closed_iff : ∀ t, (s.queue.answer (.enqueue t)).map Prod.fst = some .closed ↔
    s.queue.closed = true
  failed : ∀ op ans rb, s.queue.answer op = some (ans, rb) → ans.failed = true →
    rb = s.queue

theorem answer_fst
    (rb : RingBuffer α) (op : QueueOp α) :
    (rb.answer op).map Prod.fst = (rb.toBounded.answer op).map Prod.fst := by
  rw [← RingBuffer.answer_toBounded, Option.map_map]
  rfl

/-- A call that fails leaves the buffer alone. -/
theorem answer_failed
    {rb rb' : RingBuffer α} {op : QueueOp α} {ans : QueueAnswer α}
    (h : rb.answer op = some (ans, rb'))
    (hfailed : ans.failed = true) :
    rb' = rb := by
  cases op with
  | enqueue t =>
      simp only [RingBuffer.answer] at h
      split at h <;> cases h
      · cases hfailed
      · rfl
      · rfl
  | dequeue =>
      simp only [RingBuffer.answer] at h
      split at h <;> cases h
      · cases hfailed
      · rfl
  | tryDequeue =>
      simp only [RingBuffer.answer] at h
      split at h <;> cases h
      · cases hfailed
      · rfl
  | close =>
      cases h
      cases hfailed

/-- The settings of the queue and the balance of the books. -/
theorem run_balanced
    {capacity : Nat} {policy : OverflowPolicy} {h : 0 < capacity}
    {ops : List (QueueOp α)} {s : Session α}
    (hrun : Run step (fun _ _ => True) (start capacity policy h) ops s) :
    s.toBounded.Balanced ∧ s.queue.cap = capacity ∧ s.queue.policy = policy := by
  have hbounded := Traffic.run_map RingBuffer.toBounded RingBuffer.answer_toBounded hrun
  have hinv := hbounded.invariant
    (fun t => t.Balanced ∧ t.queue.cap = capacity ∧
      t.queue.rejects = decide (policy = .reject))
    (fun t op t' ht _ hstep => by
      obtain ⟨hbal, hcap, hrej⟩ := Traffic.step_balanced t op t' ht.1 hstep
      exact ⟨hbal, hcap.trans ht.2.1, hrej.trans ht.2.2⟩)
    ⟨⟨rfl, Nat.zero_le _⟩, rfl, rfl⟩
  refine ⟨hinv.1, hinv.2.1, ?_⟩
  have hrej : decide (s.queue.policy = .reject) = decide (policy = .reject) := hinv.2.2
  cases hs : s.queue.policy <;> cases policy <;> simp_all

/-- What the balance says about the slots and the next calls. -/
theorem fifo_of_balanced
    {capacity : Nat} {policy : OverflowPolicy} {s : Session α}
    (h : s.toBounded.Balanced)
    (hcap : s.queue.cap = capacity)
    (hpolicy : s.queue.policy = policy) :
    s.Fifo capacity policy := by
  have hbal : s.entered = s.left ++ s.queue.contents := h.balance
  subst hcap hpolicy
  refine ⟨rfl, rfl, s.queue.size_le, s.queue.tail_eq, ?_, ?_, ?_, ?_, ?_⟩
  · rw [hbal, List.drop_left]
    exact s.queue.slots_eq
  · rw [hbal]
    exact List.prefix_append _ _
  · intro t
    rw [answer_fst, BoundedQueue.enqueue_full_iff]
    simp only [RingBuffer.toBounded, RingBuffer.contents_length, decide_eq_true_eq]
  · intro t
    rw [answer_fst, BoundedQueue.enqueue_closed_iff]
    rfl
  · intro op ans rb hans hfailed
    exact answer_failed hans hfailed

/-- After `Close` nothing is enqueued any more. -/
theorem run_closed
    {s s' : Session α} {ops : List (QueueOp α)}
    (hrun : Run step (fun _ _ => True) s ops s')
    (h : s.queue.closed = true) :
    s'.queue.closed = true ∧ s'.entered = s.entered := by
  have hbounded := Traffic.run_map RingBuffer.toBounded RingBuffer.answer_toBounded hrun
  exact hbounded.invariant
    (fun t => t.queue.closed = true ∧ t.entered = s.entered)
    (fun t op t' ht _ hstep => by
      obtain ⟨hclosed, hentered⟩ := Traffic.step_closed ht.1 hstep
      exact ⟨hclosed, hentered.trans ht.2⟩)
    ⟨h, rfl⟩

/--
The ring buffer is a bounded FIFO queue: after any sequence of completed calls the state is
as `Fifo` says, a list takes the same calls, and from a closed buffer on every `Dequeue`
delivers the next of the tasks that were enqueued, or reports that the buffer is closed when
there is none left.
-/
theorem ringBuffer_fifo
    (capacity : Nat) (policy : OverflowPolicy) (h : 0 < capacity)
    (ops : List (QueueOp α)) (s : Session α)
    (hrun : Run step (fun _ _ => True) (start capacity policy h) ops s) :
    s.Fifo capacity policy ∧
    Run (Traffic.step BoundedQueue.answer) (fun _ _ => True)
      ⟨⟨[], capacity, false, decide (policy = .reject)⟩, [], []⟩ ops s.toBounded ∧
    (s.queue.closed = true → ∀ later s', Run step (fun _ _ => True) s later s' →
      s'.entered = s.entered ∧
      (s'.queue.answer .dequeue).map Prod.fst =
        some (.ofRest (s.entered.drop s'.left.length))) := by
  obtain ⟨hbal, hcap, hpolicy⟩ := run_balanced hrun
  refine ⟨fifo_of_balanced hbal hcap hpolicy,
    Traffic.run_map RingBuffer.toBounded RingBuffer.answer_toBounded hrun, ?_⟩
  intro hclosed later s' hlater
  obtain ⟨hclosed', hentered⟩ := run_closed hlater hclosed
  have hbal' : s'.toBounded.Balanced := (run_balanced (hrun.append hlater)).1
  have hitems : s.entered.drop s'.left.length = s'.queue.toBounded.items := by
    rw [← hentered]
    show s'.entered.drop s'.left.length = s'.queue.contents
    rw [show s'.entered = s'.left ++ s'.queue.contents from hbal'.balance, List.drop_left]
  refine ⟨hentered, ?_⟩
  rw [hitems, answer_fst, BoundedQueue.dequeue_of_closed hclosed']

/-- Three tasks through two slots, the buffer closed before the last `Dequeue`. -/
def aroundTheBuffer : List (QueueOp Nat) :=
  [.enqueue 1, .enqueue 2, .dequeue, .enqueue 3, .enqueue 4, .close, .tryDequeue]

theorem ringBuffer_fifo_two :
    ∃ s : Session Nat,
      Run step (fun _ _ => True) (start 2 .reject (by decide)) aroundTheBuffer s ∧
      s.entered = [1, 2, 3] ∧ s.left = [1, 2] ∧ s.Fifo 2 .reject := by
  obtain ⟨s, hrun, hentered, hleft⟩ :=
    Lib.exists_run_of_exec step (fun _ _ => True)
      (fun s => s.entered = [1, 2, 3] ∧ s.left = [1, 2]) (start 2 .reject (by decide))
      aroundTheBuffer (by decide +kernel)
  exact ⟨s, hrun, hentered, hleft,
    (ringBuffer_fifo 2 .reject (by decide) aroundTheBuffer s hrun).1⟩

end Session

namespace Monitor

/-- A pass through a critical section is a completed call, or leaves the buffer alone. -/
theorem step_rb
    [DecidableEq α]
    {m m' : Monitor α} {e : MonitorEvent α}
    (hstep : m.step e = some m') :
    m'.rb = m.rb ∨ ∃ op ans, m.rb.answer op = some (ans, m'.rb) := by
  have hpass : ∀ (m : Monitor α) (th : Thread α),
      (m.pass th).rb = m.rb ∨ ∃ op ans, m.rb.answer op = some (ans, (m.pass th).rb) := by
    intro m th
    cases th with
    | producer name t =>
        cases henq : m.rb.enqueue t with
        | done rb =>
            exact Or.inr ⟨.enqueue t, .ok, by simp [RingBuffer.answer, pass, enqueuePass, henq]⟩
        | fail err =>
            exact Or.inl (by simp [pass, enqueuePass, henq])
        | wait =>
            exact Or.inl (by simp [pass, enqueuePass, henq])
    | consumer name =>
        cases hdeq : m.rb.dequeue with
        | done t rb =>
            exact Or.inr ⟨.dequeue, .item t, by simp [RingBuffer.answer, pass, dequeuePass, hdeq]⟩
        | closed =>
            exact Or.inl (by simp [pass, dequeuePass, hdeq])
        | wait =>
            exact Or.inl (by simp [pass, dequeuePass, hdeq])
  cases e with
  | arrive th =>
      simp only [step] at hstep
      split_ifs at hstep
      cases hstep
      exact hpass m th
  | resume th =>
      simp only [step] at hstep
      split_ifs at hstep
      cases hstep
      exact hpass { m with cond := m.cond.resume th } th
  | tryDequeue =>
      cases hstep
      cases htry : m.rb.tryDequeue with
      | none =>
          exact Or.inl (by simp [tryDequeue, htry])
      | some r =>
          exact Or.inr ⟨.tryDequeue, .item r.1, by simp [RingBuffer.answer, tryDequeue, htry]⟩
  | close =>
      cases hstep
      exact Or.inr ⟨.close, .ok, rfl⟩

/-- The calls of threads that block and are woken are a session of completed calls. -/
theorem monitor_session
    [DecidableEq α]
    {capacity : Nat} {policy : OverflowPolicy} {h : 0 < capacity}
    {ok : Monitor α → MonitorEvent α → Prop}
    {es : List (MonitorEvent α)} {m : Monitor α}
    (hrun : Run step ok (new capacity policy h) es m) :
    ∃ ops s, Run Session.step (fun _ _ => True) (Session.start capacity policy h) ops s ∧
      s.queue = m.rb := by
  refine hrun.invariant
    (fun m => ∃ ops s, Run Session.step (fun _ _ => True)
      (Session.start capacity policy h) ops s ∧ s.queue = m.rb) ?_
    ⟨[], Session.start capacity policy h, Run.nil _, rfl⟩
  rintro m e m' ⟨ops, s, hs, hqueue⟩ - hstep
  rcases step_rb hstep with hsame | ⟨op, ans, hans⟩
  · exact ⟨ops, s, hs, hqueue.trans hsame.symm⟩
  · have hcall : Session.step s op = some (s.record op ans m'.rb) := by
      rw [Session.step, Traffic.step, hqueue, hans]
      rfl
    exact ⟨ops ++ [op], _, hs.append (Run.cons trivial hcall (Run.nil _)), rfl⟩

end Monitor

end Fifo

end Queue
end TaskQueue
