import Mathlib.Tactic
import TaskQueue.Queue.Task

/-!
# The ring buffer

`RingBuffer` of `internal/queue/queue.go`: a fixed slice of slots with a head, a
tail and a size.  The record carries its own well-formedness (the tail is `size`
slots after the head, the occupied slots are the ones from the head on, all
others are nil), so that every operation has to re-establish it.

`enqueue` and `dequeue` are one pass through the critical section: where the Go
code calls `cond.Wait()` they answer `wait`.  `contents` reads the buffer as a
queue; `put_contents` and `take_contents` say that the two index computations
are those of a FIFO queue.
-/

namespace TaskQueue
namespace Queue

universe u

/-- `OverflowPolicy`. -/
inductive OverflowPolicy
  | reject
  | block
deriving DecidableEq, Repr

/-- The errors of the ring buffer: `ErrQueueFull` and `ErrQueueClosed`. -/
inductive QueueError
  | full
  | closed
deriving DecidableEq, Repr

/-- The texts of the errors. -/
def QueueError.message : QueueError → String
  | .full => "queue: buffer is full"
  | .closed => "queue: buffer is closed"

/-- `RingBuffer`. -/
structure RingBuffer (α : Type u) where
  buf : List (Option α)
  head : Nat
  tail : Nat
  size : Nat
  cap : Nat
  closed : Bool
  policy : OverflowPolicy
  cap_pos : 0 < cap
  buf_length : buf.length = cap
  head_lt : head < cap
  size_le : size ≤ cap
  tail_eq : tail = (head + size) % cap
  occupied : ∀ i, i < size → ∃ a, buf[(head + i) % cap]? = some (some a)
  vacant : ∀ i, size ≤ i → i < cap → buf[(head + i) % cap]? = some none

/-- The outcome of one pass through `Enqueue`. -/
inductive EnqueueResult (α : Type u) where
  | done (rb : RingBuffer α)
  | fail (err : QueueError)
  | wait

/-- The outcome of one pass through `Dequeue`. -/
inductive DequeueResult (α : Type u) where
  | done (t : α) (rb : RingBuffer α)
  | closed
  | wait

namespace RingBuffer

variable {α : Type u}

/-- Slots of one turn around the buffer: distinct offsets are distinct slots. -/
theorem slot_ne
    {cap head i j : Nat}
    (hh : head < cap)
    (hi : i < cap) (hj : j < cap)
    (hij : i ≠ j) :
    (head + i) % cap ≠ (head + j) % cap := by
  have wrap : ∀ k, k < cap →
      (head + k) % cap = if head + k < cap then head + k else head + k - cap := by
    intro k hk
    split_ifs with h
    · exact Nat.mod_eq_of_lt h
    · rw [Nat.mod_eq_sub_mod (by omega), Nat.mod_eq_of_lt (by omega)]
  rw [wrap i hi, wrap j hj]
  split_ifs <;> omega

theorem slot_lt
    (rb : RingBuffer α) (i : Nat) :
    (rb.head + i) % rb.cap < rb.buf.length := by
  rw [rb.buf_length]
  exact Nat.mod_lt _ rb.cap_pos

/-- `NewRingBuffer`, for a positive capacity. -/
def new (capacity : Nat) (policy : OverflowPolicy) (h : 0 < capacity) :
    RingBuffer α where
  buf := List.replicate capacity none
  head := 0
  tail := 0
  size := 0
  cap := capacity
  closed := false
  policy := policy
  cap_pos := h
  buf_length := by simp
  head_lt := h
  size_le := Nat.zero_le _
  tail_eq := by simp
  occupied := by
    intro i hi
    omega
  vacant := by
    intro i _ _
    rw [List.getElem?_replicate_of_lt (Nat.mod_lt _ h)]

/-- The tasks in the buffer, in the order in which they will be dequeued. -/
def contents (rb : RingBuffer α) : List α :=
  (List.range rb.size).filterMap
    (fun i => (rb.buf[(rb.head + i) % rb.cap]?).join)

/-- The writing part of `Enqueue`: fill the slot at the tail and advance it. -/
def put (rb : RingBuffer α) (t : α) (h : rb.size < rb.cap) : RingBuffer α where
  buf := rb.buf.set rb.tail (some t)
  head := rb.head
  tail := (rb.tail + 1) % rb.cap
  size := rb.size + 1
  cap := rb.cap
  closed := rb.closed
  policy := rb.policy
  cap_pos := rb.cap_pos
  buf_length := by
    rw [List.length_set]
    exact rb.buf_length
  head_lt := rb.head_lt
  size_le := h
  tail_eq := by
    rw [rb.tail_eq, Nat.mod_add_mod, Nat.add_assoc]
  occupied := by
    intro i hi
    rw [rb.tail_eq]
    by_cases hs : i = rb.size
    · subst hs
      exact ⟨t, List.getElem?_set_self (rb.slot_lt _)⟩
    · have hne := slot_ne rb.head_lt (i := rb.size) (j := i) h (by omega) (by omega)
      rw [List.getElem?_set_ne hne]
      exact rb.occupied i (by omega)
  vacant := by
    intro i hi hc
    rw [rb.tail_eq]
    have hne := slot_ne rb.head_lt (i := rb.size) (j := i) h hc (by omega)
    rw [List.getElem?_set_ne hne]
    exact rb.vacant i (by omega) hc

/-- The task at the head of a non-empty buffer. -/
def front (rb : RingBuffer α) (h : 0 < rb.size) : α :=
  (rb.buf[rb.head]?).join.get (by
    obtain ⟨a, ha⟩ := rb.occupied 0 h
    rw [Nat.add_zero, Nat.mod_eq_of_lt rb.head_lt] at ha
    simp [ha])

/-- The removing part of `Dequeue`: clear the slot at the head and advance it. -/
def drop (rb : RingBuffer α) (h : 0 < rb.size) : RingBuffer α where
  buf := rb.buf.set rb.head none
  head := (rb.head + 1) % rb.cap
  tail := rb.tail
  size := rb.size - 1
  cap := rb.cap
  closed := rb.closed
  policy := rb.policy
  cap_pos := rb.cap_pos
  buf_length := by
    rw [List.length_set]
    exact rb.buf_length
  head_lt := Nat.mod_lt _ rb.cap_pos
  size_le := by
    have := rb.size_le
    omega
  tail_eq := by
    rw [rb.tail_eq, Nat.mod_add_mod]
    congr 1
    omega
  occupied := by
    intro i hi
    have hle := rb.size_le
    have hne := slot_ne rb.head_lt (i := 0) (j := i + 1) rb.cap_pos (by omega) (by omega)
    rw [Nat.add_zero, Nat.mod_eq_of_lt rb.head_lt] at hne
    rw [Nat.mod_add_mod, Nat.add_assoc, Nat.add_comm 1 i,
      List.getElem?_set_ne hne]
    exact rb.occupied (i + 1) (by omega)
  vacant := by
    intro i hi hc
    rw [Nat.mod_add_mod, Nat.add_assoc, Nat.add_comm 1 i]
    by_cases hlast : i + 1 = rb.cap
    · rw [hlast, Nat.add_mod_right, Nat.mod_eq_of_lt rb.head_lt]
      exact List.getElem?_set_self (by rw [rb.buf_length]; exact rb.head_lt)
    · have hne := slot_ne rb.head_lt (i := 0) (j := i + 1) rb.cap_pos
        (by omega) (by omega)
      rw [Nat.add_zero, Nat.mod_eq_of_lt rb.head_lt] at hne
      rw [List.getElem?_set_ne hne]
      exact rb.vacant (i + 1) (by omega) (by omega)

/-- One pass through `RingBuffer.Enqueue`. -/
def enqueue (rb : RingBuffer α) (t : α) : EnqueueResult α :=
  if hfull : rb.size = rb.cap then
    if rb.closed then
      .fail .closed
    else
      match rb.policy with
      | .reject => .fail .full
      | .block => .wait
  else if rb.closed then
    .fail .closed
  else
    .done (rb.put t (Nat.lt_of_le_of_ne rb.size_le hfull))

/-- One pass through `RingBuffer.Dequeue`. -/
def dequeue (rb : RingBuffer α) : DequeueResult α :=
  if h : 0 < rb.size then
    .done (rb.front h) (rb.drop h)
  else if rb.closed then
    .closed
  else
    .wait

/-- `RingBuffer.TryDequeue`. -/
def tryDequeue (rb : RingBuffer α) : Option (α × RingBuffer α) :=
  if h : 0 < rb.size then
    some (rb.front h, rb.drop h)
  else
    none

/-- `RingBuffer.Close`, without its broadcast. -/
def close (rb : RingBuffer α) : RingBuffer α :=
  { rb with closed := true }

/-- `RingBuffer.Len`. -/
def len (rb : RingBuffer α) : Nat :=
  rb.size

@[simp] theorem drop_size
    (rb : RingBuffer α) (h : 0 < rb.size) :
    (rb.drop h).size = rb.size - 1 := by
  rfl

@[simp] theorem new_contents
    (capacity : Nat) (policy : OverflowPolicy) (h : 0 < capacity) :
    (new capacity policy h : RingBuffer α).contents = [] := by
  rfl

/-- A full reading of the occupied slots skips none of them. -/
theorem contents_length
    (rb : RingBuffer α) :
    rb.contents.length = rb.size := by
  have key : ∀ n, n ≤ rb.size →
      ((List.range n).filterMap
        (fun i => (rb.buf[(rb.head + i) % rb.cap]?).join)).length = n := by
    intro n hn
    induction n with
    | zero =>
        rfl
    | succ n ih =>
        obtain ⟨a, ha⟩ := rb.occupied n (by omega)
        rw [List.range_succ, List.filterMap_append, List.length_append, ih (by omega)]
        simp [ha]
  exact key rb.size (Nat.le_refl _)

/-- Enqueueing appends at the back. -/
theorem put_contents
    (rb : RingBuffer α) (t : α) (h : rb.size < rb.cap) :
    (rb.put t h).contents = rb.contents ++ [t] := by
  have hlast :
      (rb.put t h).buf[(rb.head + rb.size) % rb.cap]? = some (some t) := by
    show (rb.buf.set rb.tail (some t))[_]? = _
    rw [rb.tail_eq]
    exact List.getElem?_set_self (rb.slot_lt _)
  have hrest : ∀ i, i ∈ List.range rb.size →
      ((rb.put t h).buf[(rb.head + i) % rb.cap]?).join =
        (rb.buf[(rb.head + i) % rb.cap]?).join := by
    intro i hi
    rw [List.mem_range] at hi
    have hne := slot_ne rb.head_lt (i := rb.size) (j := i) h (by omega) (by omega)
    show ((rb.buf.set rb.tail (some t))[_]?).join = _
    rw [rb.tail_eq, List.getElem?_set_ne hne]
  show (List.range (rb.size + 1)).filterMap
    (fun i => ((rb.put t h).buf[(rb.head + i) % rb.cap]?).join) = _
  rw [List.range_succ, List.filterMap_append, List.filterMap_congr hrest]
  simp [contents, hlast]

/-- Dequeueing removes the front. -/
theorem take_contents
    (rb : RingBuffer α) (h : 0 < rb.size) :
    rb.contents = rb.front h :: (rb.drop h).contents := by
  have hsize : rb.size = (rb.size - 1) + 1 := by
    omega
  have hfront : (rb.buf[rb.head]?).join = some (rb.front h) := by
    simp [front]
  have hrest : ∀ i, i ∈ List.range (rb.size - 1) →
      (rb.buf[(rb.head + (i + 1)) % rb.cap]?).join =
        ((rb.drop h).buf[((rb.head + 1) % rb.cap + i) % rb.cap]?).join := by
    intro i hi
    rw [List.mem_range] at hi
    have hle := rb.size_le
    have hne := slot_ne rb.head_lt (i := 0) (j := i + 1) rb.cap_pos (by omega) (by omega)
    rw [Nat.add_zero, Nat.mod_eq_of_lt rb.head_lt] at hne
    show _ = ((rb.buf.set rb.head none)[_]?).join
    rw [Nat.mod_add_mod, Nat.add_assoc, Nat.add_comm 1 i, List.getElem?_set_ne hne]
  have hhead :
      (rb.buf[(rb.head + 0) % rb.cap]?).join = some (rb.front h) := by
    rw [Nat.add_zero, Nat.mod_eq_of_lt rb.head_lt]
    exact hfront
  show (List.range rb.size).filterMap _ = _ ::
    (List.range (rb.size - 1)).filterMap
      (fun i => ((rb.drop h).buf[((rb.head + 1) % rb.cap + i) % rb.cap]?).join)
  rw [← List.filterMap_congr hrest]
  nth_rewrite 1 [hsize]
  rw [List.range_succ_eq_map, List.filterMap_cons, hhead, List.filterMap_map]
  rfl

/-- The settings of a buffer, which enqueueing and dequeueing leave as they are. -/
structure SameSettings (rb rb' : RingBuffer α) : Prop where
  cap : rb'.cap = rb.cap
  closed : rb'.closed = rb.closed
  policy : rb'.policy = rb.policy

/-- What a completed `Enqueue` did. -/
theorem enqueue_done
    {rb rb' : RingBuffer α} {t : α}
    (h : rb.enqueue t = .done rb') :
    rb'.contents = rb.contents ++ [t] ∧ SameSettings rb rb' := by
  unfold enqueue at h
  split_ifs at h
  · split at h <;> cases h
  · cases h
    exact ⟨put_contents _ _ _, rfl, rfl, rfl⟩

/-- The three cases of `Enqueue`: closed, full, and open with room. -/
theorem enqueue_of_closed
    {rb : RingBuffer α}
    (h : rb.closed = true)
    (t : α) :
    rb.enqueue t = .fail .closed := by
  simp [enqueue, h]

theorem enqueue_of_full
    {rb : RingBuffer α}
    (hopen : rb.closed = false)
    (hfull : rb.size = rb.cap)
    (t : α) :
    rb.enqueue t = if rb.policy = .reject then .fail .full else .wait := by
  rw [enqueue, dif_pos hfull, hopen]
  cases rb.policy <;> rfl

theorem enqueue_of_room
    {rb : RingBuffer α}
    (hopen : rb.closed = false)
    (hroom : rb.size < rb.cap)
    (t : α) :
    rb.enqueue t = .done (rb.put t hroom) := by
  simp [enqueue, hopen, Nat.ne_of_lt hroom]

/-- An open buffer does not report that it is closed. -/
theorem enqueue_ne_closed
    {rb : RingBuffer α}
    (hopen : rb.closed = false)
    (t : α) :
    rb.enqueue t ≠ .fail .closed := by
  by_cases hfull : rb.size = rb.cap
  · rw [enqueue_of_full hopen hfull]
    split_ifs <;> simp
  · rw [enqueue_of_room hopen (Nat.lt_of_le_of_ne rb.size_le hfull)]
    simp

/-- An open buffer with room takes the task. -/
theorem enqueue_of_lt
    {rb : RingBuffer α} {t : α}
    (hopen : rb.closed = false)
    (hroom : rb.size < rb.cap) :
    ∃ rb', rb.enqueue t = .done rb' :=
  ⟨rb.put t hroom, enqueue_of_room hopen hroom t⟩

theorem enqueue_len
    {rb rb' : RingBuffer α} {t : α}
    (h : rb.enqueue t = .done rb') :
    rb'.len = rb.len + 1 := by
  show rb'.size = rb.size + 1
  rw [← contents_length, ← contents_length, (enqueue_done h).1, List.length_append]
  rfl

theorem contents_of_empty
    {rb : RingBuffer α}
    (h : ¬ 0 < rb.size) :
    rb.contents = [] := by
  refine List.eq_nil_of_length_eq_zero ?_
  rw [contents_length]
  omega

/-- What a completed `Dequeue` did. -/
theorem dequeue_done
    {rb rb' : RingBuffer α} {t : α}
    (h : rb.dequeue = .done t rb') :
    rb.contents = t :: rb'.contents ∧ SameSettings rb rb' := by
  unfold dequeue at h
  split_ifs at h with hsize
  cases h
  exact ⟨take_contents rb hsize, rfl, rfl, rfl⟩

theorem contents_of_dequeue_closed
    {rb : RingBuffer α}
    (h : rb.dequeue = .closed) :
    rb.contents = [] := by
  unfold dequeue at h
  split_ifs at h with hsize
  exact contents_of_empty hsize

theorem dequeue_len
    {rb rb' : RingBuffer α} {t : α}
    (h : rb.dequeue = .done t rb') :
    rb.len = rb'.len + 1 := by
  show rb.size = rb'.size + 1
  rw [← contents_length, ← contents_length, (dequeue_done h).1, List.length_cons]

end RingBuffer

end Queue
end TaskQueue
