import Mathlib.Tactic
import TaskQueue.Lib.Custody
import TaskQueue.Engine.Placement

/-!
# The states of the queued tasks

With operations that are atomic and logged, the state of a task fits the place where it
is: what is on the heap is scheduled, what a worker has is running, and what waits for
the buffer, in it or before it, is pending or has been cancelled meanwhile.  A task is
running only while a worker has it.  There is one lemma for each step (`submit_placed` to
`checkpoint_placed`).
-/

namespace TaskQueue

open Lib (GoMap Exclusive Consistent)
open Queue
open Wal (Log LogEnv LogRecord Snapshot)

namespace System

open Engine (HandlerError)

/-- The places that a task can be in. -/
inductive Place
  | buffer
  | heap
  | ready
  | hands
  | blocked
deriving DecidableEq, Repr

/-- The tasks in a place. -/
def places (s : System) : Place → List TaskID
  | .buffer => s.engine.buffer.contents
  | .heap => s.engine.heap.inner
  | .ready => s.ready
  | .hands => s.hands
  | .blocked => s.blocked

/-- The states that the tasks of a place can have. -/
def Place.states : Place → List TaskState
  | .heap => [.scheduled]
  | .hands => [.running]
  | _ => [.pending, .cancelled]

/-- A task with this state may be in the place. -/
def Place.Allows (p : Place) (_ : TaskID) (state : Option TaskState) : Prop :=
  ∃ x ∈ p.states, state = some x

theorem Place.Allows.of_stateOf
    {p : Place} {id : TaskID} {state : Option TaskState} {x : TaskState}
    (h : state = some x)
    (hx : x ∈ p.states) :
    p.Allows id state :=
  ⟨x, hx, h⟩

theorem count_le_held
    (s : System) (p : Place) (id : TaskID) :
    (s.places p).count id ≤ s.held id := by
  unfold held
  cases p
  all_goals
    simp only [places]
    omega

theorem exists_place_of_held
    {s : System} {id : TaskID}
    (h : 0 < s.held id) :
    ∃ p, id ∈ s.places p := by
  by_contra hnone
  have hzero : ∀ p, (s.places p).count id = 0 := fun p =>
    List.count_eq_zero.mpr fun hp => hnone ⟨p, hp⟩
  have hbuffer := hzero .buffer
  have hheap := hzero .heap
  have hready := hzero .ready
  have hhands := hzero .hands
  have hblocked := hzero .blocked
  simp only [places] at hbuffer hheap hready hhands hblocked
  unfold held at h
  omega

theorem Sound.exclusive
    {s : System}
    (h : Sound s) :
    Exclusive s.places where
  nodup := by
    intro p
    rw [List.nodup_iff_count_le_one]
    intro id
    exact (s.count_le_held p id).trans (h.once id)
  unique := by
    intro p q id hp hq
    have hone := h.once id
    have hp' : 0 < (s.places p).count id := List.count_pos_iff.mpr hp
    have hq' : 0 < (s.places q).count id := List.count_pos_iff.mpr hq
    unfold held at hone
    cases p <;> cases q
    all_goals
      simp only [places] at hp' hq'
      first
        | rfl
        | omega

theorem Sound.registered_of_mem
    {s : System}
    (h : Sound s)
    {p : Place} {id : TaskID}
    (hid : id ∈ s.places p) :
    ∃ t, s.engine.tasks.get id = some t := by
  rw [← Option.isSome_iff_exists]
  have hpos : 0 < (s.places p).count id := List.count_pos_iff.mpr hid
  exact h.registered id (hpos.trans_le (s.count_le_held p id))

/-- The state of every task fits the place where the task is. -/
structure Placed (s : System) : Prop where
  states : Consistent s.places s.engine.stateOf Place.Allows
  running : ∀ id, s.engine.stateOf id = some .running → id ∈ s.hands

theorem Placed.state_of_hands
    {s : System}
    (h : Placed s)
    {id : TaskID}
    (hid : id ∈ s.hands) :
    s.engine.stateOf id = some .running := by
  obtain ⟨x, hx, hstate⟩ := h.states .hands id hid
  rw [hstate, List.mem_singleton.mp hx]

/-- Exactly the tasks in a worker's hands are running. -/
theorem Placed.running_iff
    {s : System}
    (h : Placed s)
    {id : TaskID} {t : Task}
    (hget : s.engine.tasks.get id = some t) :
    t.state = .running ↔ id ∈ s.hands := by
  have hstate : s.engine.stateOf id = some t.state := by
    rw [Engine.stateOf, hget, Option.map_some]
  constructor
  · intro hrunning
    exact h.running id (hstate.trans (congrArg some hrunning))
  · intro hmem
    exact Option.some.inj (hstate.symm.trans (h.state_of_hands hmem))

theorem Placed.state_of_heap
    {s : System}
    (h : Placed s)
    {id : TaskID}
    (hid : id ∈ s.engine.heap.inner) :
    s.engine.stateOf id = some .scheduled := by
  obtain ⟨x, hx, hstate⟩ := h.states .heap id hid
  rw [hstate, List.mem_singleton.mp hx]

theorem Placed.state_of_ready
    {s : System}
    (h : Placed s)
    {id : TaskID}
    (hid : id ∈ s.ready) :
    s.engine.stateOf id = some .pending ∨ s.engine.stateOf id = some .cancelled := by
  obtain ⟨x, hx, hstate⟩ := h.states .ready id hid
  simp only [Place.states, List.mem_cons, List.not_mem_nil, or_false] at hx
  rcases hx with rfl | rfl
  · exact Or.inl hstate
  · exact Or.inr hstate

/-- A task at its end is in no place. -/
theorem Placed.held_eq_zero
    {s : System} {id : TaskID} {x : TaskState}
    (h : Placed s)
    (hstate : s.engine.stateOf id = some x)
    (hend : x = .completed ∨ x = .dead) :
    s.held id = 0 := by
  by_contra hne
  obtain ⟨p, hp⟩ := exists_place_of_held (Nat.pos_of_ne_zero hne)
  obtain ⟨y, hy, hstate'⟩ := h.states p id hp
  rw [hstate, Option.some.injEq] at hstate'
  subst hstate'
  rcases hend with hend | hend
  all_goals
    rw [hend] at hy
    cases p <;> simp [Place.states] at hy

/-- A step that touches at most one task, which it puts in the place `q` or in none. -/
theorem Placed.single
    {s s' : System}
    (h : Placed s)
    (hsound : Sound s')
    (id : TaskID) (q : Place)
    (hlabel : ∀ j, j ≠ id → s'.engine.stateOf j = s.engine.stateOf j)
    (hstay : ∀ p, ∀ j ∈ s'.places p, j ≠ id → j ∈ s.places p)
    (hhands : ∀ j, j ≠ id → j ∈ s.hands → j ∈ s'.hands)
    (hplace : ∀ p, id ∈ s'.places p → id ∈ s'.places q)
    (hallowed : id ∈ s'.places q → q.Allows id (s'.engine.stateOf id))
    (hrunning : s'.engine.stateOf id = some .running → id ∈ s'.hands) :
    Placed s' := by
  refine ⟨h.states.single id hlabel hstay ?_, ?_⟩
  · intro p hp
    have hq := hplace p hp
    rw [hsound.exclusive.unique hp hq]
    exact hallowed hq
  · intro j hj
    by_cases hji : j = id
    · rw [hji] at hj ⊢
      exact hrunning hj
    · rw [hlabel j hji] at hj
      exact hhands j hji (h.running j hj)

/-- A task comes to a place with a state that fits. -/
theorem Placed.enters
    {s s' : System}
    (h : Placed s)
    (hsound : Sound s')
    {id : TaskID} {q : Place}
    (hself : q.Allows id (s'.engine.stateOf id))
    (hadded : ∀ j, j ∈ s'.places q ↔ j = id ∨ j ∈ s.places q)
    (hothers : ∀ p, p ≠ q → ∀ j ∈ s'.places p, j ∈ s.places p)
    (hlabel : ∀ j, j ≠ id → s'.engine.stateOf j = s.engine.stateOf j)
    (hhands : ∀ j, j ≠ id → j ∈ s.hands → j ∈ s'.hands) :
    Placed s' := by
  have hin : id ∈ s'.places q := (hadded id).mpr (Or.inl rfl)
  have hstay : ∀ p, ∀ j ∈ s'.places p, j ≠ id → j ∈ s.places p := by
    intro p j hj hne
    by_cases hp : p = q
    · subst hp
      exact ((hadded j).mp hj).resolve_left hne
    · exact hothers p hp j hj
  refine h.single hsound id q hlabel hstay hhands (fun _ _ => hin) (fun _ => hself) ?_
  intro hrunning
  obtain ⟨x, hx, hstate⟩ := hself
  rw [hrunning, Option.some.injEq] at hstate
  subst hstate
  cases q
  case hands =>
    exact hin
  all_goals
    simp [Place.states] at hx

theorem mem_buffer_of_enqueued
    {s s' : System} {id : TaskID}
    (hcontents : s'.engine.buffer.contents = s.engine.buffer.contents ++ [id])
    (j : TaskID) :
    j ∈ s'.places .buffer ↔ j = id ∨ j ∈ s.places .buffer := by
  simp only [places, hcontents, List.mem_append, List.mem_singleton, or_comm]

/-- A task that is not running has no place any more. -/
theorem Placed.leaves
    {s s' : System}
    (h : Placed s)
    (hsound : Sound s')
    {id : TaskID}
    (hnone : ∀ p, id ∉ s'.places p)
    (hself : s'.engine.stateOf id ≠ some .running)
    (hlabel : ∀ j, j ≠ id → s'.engine.stateOf j = s.engine.stateOf j)
    (hstay : ∀ p, ∀ j ∈ s'.places p, j ≠ id → j ∈ s.places p)
    (hhands : ∀ j, j ≠ id → j ∈ s.hands → j ∈ s'.hands) :
    Placed s' :=
  h.single hsound id .buffer hlabel hstay hhands (fun p hp => absurd hp (hnone p))
    (fun hp => absurd hp (hnone .buffer)) (fun hrunning => absurd hrunning hself)

/-- A step that changes no state, and moves no task but those it drops. -/
theorem Placed.dropped
    {s s' : System}
    (h : Placed s)
    (htasks : s'.engine.tasks = s.engine.tasks)
    (hstay : ∀ p, ∀ j ∈ s'.places p, j ∈ s.places p)
    (hhands : s'.hands = s.hands) :
    Placed s' := by
  have hstate : s'.engine.stateOf = s.engine.stateOf := by
    funext j
    rw [Engine.stateOf, htasks, Engine.stateOf]
  constructor
  · intro p j hj
    rw [hstate]
    exact h.states p j (hstay p j hj)
  · intro j hj
    rw [hstate] at hj
    rw [hhands]
    exact h.running j hj

theorem submit_placed
    {s s' : System} {task : Task} {generatedID : TaskID} {now : Time} {len : Nat}
    (hsound : Sound s)
    (h : Placed s)
    (hstep : s.submit task generatedID now len = some s') :
    Placed s' := by
  have hsound' := submit_sound hsound hstep
  obtain ⟨hid, hcases⟩ := submit_cases hsound hstep
  have hpending : (s.submitted task generatedID now).state ≠ .scheduled →
      (s.submitted task generatedID now).state = .pending :=
    (Engine.prepare_state s.engine task generatedID now).resolve_left
  have hnone : ∀ p, (s.submitted task generatedID now).id ∉ s.places p := by
    intro p hp
    obtain ⟨t, ht⟩ := hsound.registered_of_mem hp
    exact hid (hsound.named _ t ht).2
  have hlabel : ∀ j, j ≠ (s.submitted task generatedID now).id →
      (s.engine.register (s.submitted task generatedID now)).stateOf j =
        s.engine.stateOf j := fun j hj =>
    Engine.stateOf_register_of_ne s.engine hj
  have hself : (s.engine.register (s.submitted task generatedID now)).stateOf
      (s.submitted task generatedID now).id =
        some (s.submitted task generatedID now).state :=
    Engine.stateOf_register_self s.engine _
  generalize s.submitted task generatedID now = t at *
  rcases hcases with hs | ⟨-, ⟨hstate, hs⟩ | ⟨hstate, rb, henq, hs⟩ | ⟨hstate, hs⟩ |
    ⟨hstate, hs⟩⟩
  · subst hs
    exact h.dropped rfl (fun p j hj => by cases p <;> exact hj) rfl
  · have hperm := Engine.pushHeap_perm (s.engine.register t).nextLog t.id
    subst hs
    refine h.enters hsound' (q := .heap) (.of_stateOf hself (by simp [Place.states, hstate]))
      (fun j => hperm.mem_iff.trans List.mem_cons) ?_ hlabel (fun j _ hj => hj)
    intro p hp j hj
    cases p
    case heap =>
      exact absurd rfl hp
    all_goals
      exact hj
  · obtain ⟨hcontents, -⟩ := RingBuffer.enqueue_done henq
    subst hs
    refine h.enters hsound' (q := .buffer)
      (.of_stateOf hself (by simp [Place.states, hpending hstate]))
      (mem_buffer_of_enqueued hcontents) ?_ hlabel (fun j _ hj => hj)
    intro p hp j hj
    cases p
    case buffer =>
      exact absurd rfl hp
    all_goals
      exact hj
  · subst hs
    refine h.leaves hsound' ?_ ?_ hlabel ?_ (fun j _ hj => hj)
    · intro p hp
      exact absurd (show t.id ∈ s.places p by cases p <;> exact hp) (hnone p)
    · intro hrunning
      have := hself.symm.trans hrunning
      simp [hpending hstate] at this
    · intro p j hj _
      cases p <;> exact hj
  · subst hs
    refine h.enters hsound' (q := .blocked)
      (.of_stateOf hself (by simp [Place.states, hpending hstate]))
      (fun _ => List.mem_cons) ?_ hlabel (fun j _ hj => hj)
    intro p hp j hj
    cases p
    case blocked =>
      exact absurd rfl hp
    all_goals
      exact hj

theorem unblock_placed
    {s s' : System} {id : TaskID}
    (hsound : Sound s)
    (h : Placed s)
    (hstep : s.unblock id = some s') :
    Placed s' := by
  have hsound' := unblock_sound hsound hstep
  obtain ⟨hid, ⟨rb, henq, hs⟩ | hs⟩ := unblock_cases hstep
  · obtain ⟨hcontents, -⟩ := RingBuffer.enqueue_done henq
    have hself := h.states .blocked id hid
    subst hs
    refine h.enters hsound' (q := .buffer) hself (mem_buffer_of_enqueued hcontents) ?_
      (fun j _ => rfl) (fun j _ hj => hj)
    intro p hp j hj
    cases p
    case buffer =>
      exact absurd rfl hp
    case blocked =>
      exact List.mem_of_mem_erase hj
    all_goals
      exact hj
  · subst hs
    refine h.dropped rfl ?_ rfl
    intro p j hj
    cases p
    case blocked =>
      exact List.mem_of_mem_erase hj
    all_goals
      exact hj

theorem cancel_placed
    {s : System} {len : Nat}
    (hsound : Sound s)
    (h : Placed s)
    (hlen : len ≤ Wal.maxUint32)
    (id : TaskID) (now : Time) :
    Placed (s.cancel id now len) := by
  rcases cancel_logged hsound hlen id now with hs | ⟨t, hget, hc, hs⟩
  · rw [hs]
    exact h
  · have hsets := Engine.cancelledAt_sets s.engine id now
    have hself := hsets.self (by rw [hget]; rfl)
    have hnotin : id ∉
        ((s.engine.updateTask id (Engine.cancelledAt now)).nextLog.removeHeap id).heap.inner :=
      Engine.notMem_removeHeap hsound.indexed
        ((s.count_le_held .heap id).trans (hsound.once id))
    have hstay : ∀ p, ∀ j ∈ (s.cancel id now len).places p, j ∈ s.places p := by
      intro p j hj
      rw [hs] at hj
      cases p
      case heap =>
        exact (Engine.removeHeap_sublist
          (s.engine.updateTask id (Engine.cancelledAt now)).nextLog id).subset hj
      all_goals
        exact hj
    rw [hs] at hstay ⊢
    -- the task may be waiting anywhere but on the heap
    refine ⟨h.states.single id (fun j hj => hsets.of_ne hj) (fun p j hj _ => hstay p j hj) ?_,
      ?_⟩
    · intro p hp
      refine .of_stateOf hself ?_
      obtain ⟨x, hx, hstate⟩ := h.states p id (hstay p id hp)
      rw [Engine.stateOf, hget, Option.map_some, Option.some.injEq] at hstate
      cases p
      case heap =>
        exact absurd hp hnotin
      case hands =>
        rw [hstate, List.mem_singleton.mp hx] at hc
        cases hc
      all_goals
        simp [Place.states]
    · intro j hj
      by_cases hji : j = id
      · rw [hji] at hj
        cases hself.symm.trans hj
      · exact h.running j ((hsets.of_ne hji).symm.trans hj)

theorem promote_placed
    {s s' : System} {now : Time}
    (hsound : Sound s)
    (h : Placed s)
    (hstep : s.promote now = some s') :
    Placed s' := by
  have hsound' := promote_sound hsound hstep
  obtain ⟨-, hs⟩ := promote_cases hstep
  have hprom := Engine.promoteReady_promoted s.engine now
  have hmem : ∀ j ∈ (s.engine.promoteReady now).1, j ∈ s.engine.heap.inner := fun j hj =>
    hprom.perm.mem_iff.mp (List.mem_append_left _ hj)
  have hsame : ∀ j, j ∉ (s.engine.promoteReady now).1 →
      (s.engine.promoteReady now).2.stateOf j = s.engine.stateOf j := by
    intro j hj
    rw [Engine.stateOf, Engine.get_promoteReady, if_neg hj, Engine.stateOf]
  have hpending : ∀ j ∈ (s.engine.promoteReady now).1,
      (s.engine.promoteReady now).2.stateOf j = some .pending := by
    intro j hj
    obtain ⟨t, ht⟩ := hsound.registered_of_mem (p := .heap) (hmem j hj)
    rw [Engine.stateOf, Engine.get_promoteReady, if_pos hj, ht]
    rfl
  subst hs
  constructor
  · intro p j hj
    by_cases hready : j ∈ (s.engine.promoteReady now).1
    · have hp : p = .ready := hsound'.exclusive.unique hj (q := .ready) hready
      rw [hp]
      exact .of_stateOf (hpending j hready) (by simp [Place.states])
    · show p.Allows j ((s.engine.promoteReady now).2.stateOf j)
      rw [hsame j hready]
      refine h.states p j ?_
      cases p
      case heap =>
        exact hprom.perm.mem_iff.mp (List.mem_append_right _ hj)
      case ready =>
        exact absurd hj hready
      all_goals
        exact hj
  · intro j hj
    by_cases hready : j ∈ (s.engine.promoteReady now).1
    · have := (hpending j hready).symm.trans hj
      cases this
    · exact h.running j ((hsame j hready).symm.trans hj)

theorem schedule_placed
    {s s' : System} {now later : Time}
    (hsound : Sound s)
    (h : Placed s)
    (hstep : s.schedule now later = some s') :
    Placed s' := by
  have hsound' := schedule_sound hsound hstep
  obtain ⟨id, rest, t, hready, hget, hcases⟩ := schedule_cases hsound hstep
  have hless : ∀ j ∈ rest, j ∈ s.ready := by
    intro j hj
    rw [hready]
    exact List.mem_cons_of_mem _ hj
  have hsome : (s.engine.tasks.get id).isSome = true := by
    rw [hget]
    rfl
  have hfront : id ∈ s.places .ready := by
    simp [places, hready]
  have hself := h.states .ready id hfront
  have helsewhere : ∀ p, p ≠ .ready → id ∉ s.places p := fun p hp =>
    hsound.exclusive.elsewhere hfront hp
  have hnotin : id ∉ rest := by
    have hnodup := hsound.exclusive.nodup .ready
    simp only [places, hready] at hnodup
    exact (List.nodup_cons.mp hnodup).1
  rcases hcases with ⟨-, hs⟩ | ⟨-, -, hs⟩ | ⟨-, rb, henq, hs⟩ | ⟨-, hs⟩
  · subst hs
    refine h.dropped rfl ?_ rfl
    intro p j hj
    cases p
    case ready =>
      exact hless j hj
    all_goals
      exact hj
  · have hsets := Engine.expire_sets s.engine id
    have hexpired := hsets.self hsome
    have hstay : ∀ p, ∀ j ∈ s'.places p, j ∈ s.places p := by
      subst hs
      intro p j hj
      cases p
      case ready =>
        exact hless j hj
      all_goals
        exact hj
    have hgone : ∀ p, id ∉ s'.places p := by
      intro p hp
      by_cases hfirst : p = .ready
      · subst hfirst hs
        exact hnotin hp
      · exact helsewhere p hfirst (hstay p id hp)
    subst hs
    refine h.leaves hsound' hgone ?_ (fun j hj => hsets.of_ne hj) (fun p j hj _ => hstay p j hj)
      (fun j _ hj => hj)
    intro hrunning
    have := hexpired.symm.trans hrunning
    cases this
  · obtain ⟨hcontents, -⟩ := RingBuffer.enqueue_done henq
    subst hs
    refine h.enters hsound' (q := .buffer) hself (mem_buffer_of_enqueued hcontents) ?_
      (fun j _ => rfl) (fun j _ hj => hj)
    intro p hp j hj
    cases p
    case buffer =>
      exact absurd rfl hp
    case ready =>
      exact hless j hj
    all_goals
      exact hj
  · have hsets : Engine.SetsState s.engine id .scheduled
        (s.engine.updateTask id (Engine.postponedTo (later + 100000000))) :=
      Engine.setsState_updateTask s.engine id (fun _ => rfl)
    have hscheduled := hsets.self hsome
    have hperm := Engine.pushHeap_perm
      (s.engine.updateTask id (Engine.postponedTo (later + 100000000))) id
    subst hs
    refine h.enters hsound' (q := .heap) (.of_stateOf hscheduled (by simp [Place.states]))
      (fun j => hperm.mem_iff.trans List.mem_cons) ?_ (fun j hj => hsets.of_ne hj)
      (fun j _ hj => hj)
    intro p hp j hj
    cases p
    case heap =>
      exact absurd rfl hp
    case ready =>
      exact hless j hj
    all_goals
      exact hj

theorem start_placed
    {s s' : System} {now : Time} {len : Nat}
    (hsound : Sound s)
    (h : Placed s)
    (hstep : s.start now len = some s') :
    Placed s' := by
  have hsound' := start_sound hsound hstep
  obtain ⟨id, rb, hdeq, hs⟩ := start_cases hstep
  obtain ⟨hcontents, -⟩ := RingBuffer.dequeue_done hdeq
  have hfront : id ∈ s.engine.buffer.contents := by
    rw [hcontents]
    exact List.mem_cons_self
  obtain ⟨t, hget⟩ := hsound.registered_of_mem (p := .buffer) hfront
  have hsets : Engine.SetsState s.engine id .running
      ({ s.engine with buffer := rb }.updateTask id (Engine.runningFrom now)) :=
    Engine.setsState_updateTask { s.engine with buffer := rb } id (fun _ => rfl)
  have hrunning := hsets.self (by rw [hget]; rfl)
  subst hs
  refine h.enters hsound' (q := .hands) (.of_stateOf hrunning (by simp [Place.states]))
    (fun _ => List.mem_cons) ?_ (fun j hj => hsets.of_ne hj)
    (fun j _ hj => List.mem_cons_of_mem _ hj)
  intro p hp j hj
  cases p
  case buffer =>
    show j ∈ s.engine.buffer.contents
    rw [hcontents]
    exact List.mem_cons_of_mem _ hj
  case hands =>
    exact absurd rfl hp
  all_goals
    exact hj

/-- A worker is done with a task, which goes to the heap as scheduled, or is at its end. -/
theorem Placed.finished
    {s s' : System} {id : TaskID} {x : TaskState}
    (h : Placed s)
    (hsound : Sound s)
    (hsound' : Sound s')
    (hid : id ∈ s.hands)
    (hsets : Engine.SetsState s.engine id x s'.engine)
    (hx : x ≠ .running)
    (hbuffer : s'.engine.buffer = s.engine.buffer)
    (hheap : ∀ j ∈ s'.engine.heap.inner, (j = id ∧ x = .scheduled) ∨ j ∈ s.engine.heap.inner)
    (hready : s'.ready = s.ready)
    (hhands : s'.hands = s.hands.erase id)
    (hblocked : s'.blocked = s.blocked) :
    Placed s' := by
  obtain ⟨t, hget⟩ := hsound.registered_of_mem (p := .hands) hid
  have hself := hsets.self (by rw [hget]; rfl)
  have helsewhere : ∀ p, p ≠ .hands → id ∉ s.places p := fun p hp =>
    hsound.exclusive.elsewhere (p := .hands) hid hp
  have hgone : id ∉ s'.hands := by
    have hnodup : s.hands.Nodup := hsound.exclusive.nodup .hands
    rw [hhands, hnodup.mem_erase_iff]
    exact fun hmem => hmem.1 rfl
  have horigin : ∀ p, ∀ j ∈ s'.places p, (j = id ∧ p = .heap ∧ x = .scheduled) ∨
      j ∈ s.places p := by
    intro p j hj
    cases p
    case buffer =>
      rw [places, hbuffer] at hj
      exact Or.inr hj
    case heap =>
      rcases hheap j hj with ⟨hji, hxs⟩ | hold
      · exact Or.inl ⟨hji, rfl, hxs⟩
      · exact Or.inr hold
    case ready =>
      rw [places, hready] at hj
      exact Or.inr hj
    case hands =>
      rw [places, hhands] at hj
      exact Or.inr (List.mem_of_mem_erase hj)
    case blocked =>
      rw [places, hblocked] at hj
      exact Or.inr hj
  have hplace : ∀ p, id ∈ s'.places p → p = .heap ∧ x = .scheduled := by
    intro p hp
    rcases horigin p id hp with ⟨-, hpx⟩ | hold
    · exact hpx
    · by_cases hph : p = .hands
      · rw [hph] at hp
        exact absurd hp hgone
      · exact absurd hold (helsewhere p hph)
  refine h.single hsound' id .heap (fun j hj => hsets.of_ne hj) ?_ ?_ ?_ ?_ ?_
  · intro p j hj hne
    exact (horigin p j hj).resolve_left fun hnew => hne hnew.1
  · intro j hj hmem
    rw [hhands]
    exact (List.mem_erase_of_ne hj).mpr hmem
  · intro p hp
    rw [← (hplace p hp).1]
    exact hp
  · intro hp
    exact .of_stateOf hself (by simp [Place.states, (hplace .heap hp).2])
  · intro hrunning
    rw [hself, Option.some.injEq] at hrunning
    exact absurd hrunning hx

theorem finish_placed
    {s s' : System} {id : TaskID} {result : Option HandlerError} {now : Time}
    {delay : Duration} {len : Nat}
    (hsound : Sound s)
    (h : Placed s)
    (hstep : s.finish id result now delay len = some s') :
    Placed s' := by
  have hsound' := finish_sound hsound hstep
  obtain ⟨hid, t, -, hcases⟩ := finish_cases hsound hstep
  rcases hcases with ⟨-, hs⟩ | ⟨err, -, -, hs⟩ | ⟨err, -, -, hs⟩
  · subst hs
    exact h.finished (x := .completed) hsound hsound' hid
      (Engine.setsState_updateTask s.engine id (fun _ => rfl))
      (by simp) rfl (fun j hj => Or.inr hj) rfl rfl rfl
  · subst hs
    exact h.finished (x := .dead) hsound hsound' hid
      (Engine.setsState_updateTask s.engine id (fun _ => rfl))
      (by simp) rfl (fun j hj => Or.inr hj) rfl rfl rfl
  · subst hs
    refine h.finished (x := .scheduled) hsound hsound' hid
      (Engine.setsState_updateTask s.engine id (fun _ => rfl))
      (by simp) rfl ?_ rfl rfl rfl
    intro j hj
    have hmem := (Engine.pushHeap_perm _ id).mem_iff.mp hj
    rcases List.mem_cons.mp hmem with hji | hold
    · exact Or.inl ⟨hji, rfl⟩
    · exact Or.inr hold

/-- Every task that has a place after `Recover` is pending or scheduled. -/
theorem queued_after_boot
    {s : System} {loaded e : Engine} {id : TaskID} {t : Task}
    (hall : Engine.Restarted loaded e)
    (hget : e.tasks.get id = some t)
    (hheld : 0 < held { s with engine := e, ready := [], hands := [], blocked := [] } id) :
    t.state = .pending ∨ t.state = .scheduled := by
  have hstate : e.stateOf id = some t.state := by
    rw [Engine.stateOf, hget, Option.map_some]
  obtain ⟨p, hp⟩ := exists_place_of_held hheld
  cases p
  case buffer =>
    exact Or.inl (Option.some.inj (hstate.symm.trans (hall.pending hp)))
  case heap =>
    exact Or.inr (Option.some.inj (hstate.symm.trans (hall.scheduled hp)))
  all_goals
    cases hp

theorem boot_placed
    {s s' : System} {cfg : Engine.Config} {order : List TaskID}
    (hstep : s.boot cfg order = some s') :
    Placed s' := by
  obtain ⟨loaded, last, e, hload, horder, hreb, rfl⟩ := boot_cases hstep
  have hall := Engine.rebuildQueues_restarted hload horder hreb
  constructor
  · intro p j hj
    cases p
    case buffer =>
      exact .of_stateOf (hall.pending hj) (by simp [Place.states])
    case heap =>
      exact .of_stateOf (hall.scheduled hj) (by simp [Place.states])
    all_goals
      cases hj
  · intro j hj
    exfalso
    change e.stateOf j = some .running at hj
    rw [Engine.stateOf, hall.tasks j] at hj
    cases hget : loaded.tasks.get j with
    | none =>
        simp [hget] at hj
    | some t =>
        rw [hget, Option.map_some, Option.map_some, Option.some.injEq] at hj
        exact Engine.requeue_ne_running t hj

theorem checkpoint_placed
    {s s' : System} {order : List TaskID}
    (h : Placed s)
    (hstep : s.checkpoint order = some s') :
    Placed s' := by
  obtain ⟨-, rfl⟩ := checkpoint_cases hstep
  exact h.dropped rfl (fun p j hj => by cases p <;> exact hj) rfl

theorem placed_initial
    (cfg : Engine.Config) :
    Placed (initial cfg) := by
  constructor
  · intro p j hj
    cases p <;> cases hj
  · intro j hj
    cases hj

end System
end TaskQueue
