import Mathlib.Tactic
import TaskQueue.Queue.PriorityQueue
import TaskQueue.Concurrent.Timing

/-!
# The scheduler never oversleeps

`Scheduler.Run` between its passes: it asks the heap for the next deadline, sets a timer
for it (or for the poll interval, if the heap is empty) and sleeps until the timer fires,
until it is woken, or until the context is cancelled.  Whoever pushes a task to the heap
calls `NotifyNewTask` afterwards, which puts a signal into the channel `wake` unless there
is one already.  Between the push and the signal, and between the look at the deadline and
the start of the timer, the other goroutines go on.

The invariant (`Alert`) is that while the scheduler relies on a deadline, no task on the
heap is due earlier, or a signal is in the channel, or a goroutine that has pushed is about
to send one.  It rests on the order of the heap, which every step keeps because nobody
writes the time of a task that is on the heap.
-/

namespace TaskQueue

open Lib (GoMap IndexedHeap Run)
open Queue
open Wal (Log LogEnv LogRecord Snapshot)
open Engine (HandlerError)

namespace World

variable {n m : Nat} {s s' : World n m}

/-! ### The order of the heap -/

/-- A task on the heap keeps its time. -/
theorem step_scheduledAt
    {ev : Event n m}
    (h : Custody s)
    (hstep : s.step ev = some s')
    {id : TaskID}
    (hid : id ∈ s.engine.heap.inner) :
    s'.engine.scheduledAt id = s.engine.scheduledAt id := by
  cases ev with
  | worker w env result delay =>
      have hworker := workerStep_cases hstep
      rcases hworker.scheduledAt_cases id with hsame | hassigns
      · exact hsame
      · -- the worker holds the task that it gives a new time
        have hholds := WorkerPc.mem_holds_of_assigns hassigns
        rcases hworker.carries hholds with ⟨-, hnot⟩ | ⟨hheld, -⟩ | ⟨-, -, hnot⟩
        · exact absurd hassigns hnot
        · exact absurd hid (h.notMem_heap (p := .worker w) hheld (by simp))
        · exact absurd hassigns hnot
  | scheduler now =>
      rcases (schedulerStep_cases hstep).scheduledAt_cases id with hsame | hheld
      · exact hsame
      · exact absurd hid (h.notMem_heap (p := .scheduler) hheld (by simp))
  | submit c task generatedID now =>
      rcases submitStep_registers hstep with ⟨rfl, -⟩ | hreg
      · rfl
      · have hne : id ≠ (s.engine.prepare task generatedID now).id := by
          rintro rfl
          exact (h.fresh hreg.fresh).2 .heap hid
        rw [hreg.engine, Engine.scheduledAt, Engine.get_register, if_neg hne]
        rfl
  | cancel c target now =>
      rcases cancelStep_cases hstep with rfl | ⟨-, t, -, -, rfl⟩
      · rfl
      · exact Engine.scheduledAt_updateTask _ _ _ _ (fun _ => rfl)
  | call c env =>
      rcases (callStep_cases hstep).scheduledAt_cases id with hsame | ⟨task, hpc, rfl, -⟩
      · exact hsame
      · have hheld : task.id ∈ s.holdings (.call c) := by
          simp [holdings, hpc, CallPc.holds]
        exact absurd hid (h.notMem_heap hheld (by simp))
  | checkpoint order =>
      rw [Engine.scheduledAt, (checkpointStep_unmoved hstep).tasks]
      rfl

/-- `PromoteReady` changes no time. -/
theorem scheduledAt_promoteReady
    (e : Engine) (now : Time) :
    (e.promoteReady now).2.scheduledAt = e.scheduledAt := by
  funext id
  exact congrArg (Option.getD · zeroTime) (Engine.map_get_promoteReady (fun _ => rfl) e now id)

/-- Every step keeps the heap ordered. -/
theorem step_ordered
    {ev : Event n m}
    (h : Custody s)
    (hord : s.engine.heap.Ordered s.engine.scheduledAt)
    (hstep : s.step ev = some s') :
    s'.engine.heap.Ordered s'.engine.scheduledAt := by
  have hkeys : ∀ id ∈ s.engine.heap.inner,
      s'.engine.scheduledAt id = s.engine.scheduledAt id :=
    fun _ hid => step_scheduledAt h hstep hid
  cases ev with
  | worker w env result delay =>
      have hworker := workerStep_cases hstep
      cases hworker with
      | repush hpc =>
          exact IndexedHeap.push_ordered hord _
      | @write id result hpc =>
          cases result <;> exact hord.congr hkeys
      | _ =>
          exact hord.congr hkeys
  | scheduler now =>
      have hscheduler := schedulerStep_cases hstep
      cases hscheduler with
      | promote hpc =>
          show (s.engine.promoteReady now).2.heap.Ordered (s.engine.promoteReady now).2.scheduledAt
          rw [scheduledAt_promoteReady]
          exact (DelayedHeap.promoteReady_releases now hord).2
      | repush hpc =>
          exact IndexedHeap.push_ordered hord _
      | _ =>
          exact hord.congr hkeys
  | submit c task generatedID now =>
      rcases submitStep_registers hstep with ⟨rfl, -⟩ | hreg
      · exact hord
      · rw [hreg.engine] at hkeys ⊢
        exact hord.congr hkeys
  | cancel c target now =>
      rcases cancelStep_cases hstep with rfl | ⟨-, t, -, -, rfl⟩
      · exact hord
      · exact hord.congr hkeys
  | call c env =>
      have hcall := callStep_cases hstep
      cases hcall with
      | push hpc =>
          exact IndexedHeap.push_ordered hord _
      | remove hpc =>
          exact DelayedHeap.remove_ordered hord _
      | _ =>
          exact hord.congr hkeys
  | checkpoint order =>
      have hsame := checkpointStep_unmoved hstep
      rw [hsame.heap]
      exact hord.congr hkeys

/-- Only the scheduler itself changes where it is. -/
theorem step_scheduler_of_ne
    {ev : Event n m}
    (hstep : s.step ev = some s')
    (hscheduler : ∀ now, ev ≠ .scheduler now) :
    s'.scheduler = s.scheduler := by
  cases ev with
  | worker w env result delay =>
      exact (workerStep_cases hstep).acted.scheduler (by simp)
  | scheduler now =>
      exact absurd rfl (hscheduler now)
  | submit c task generatedID now =>
      rcases submitStep_cases hstep with rfl | ⟨-, -, -, rfl⟩ <;> rfl
  | cancel c target now =>
      rcases cancelStep_cases hstep with rfl | ⟨-, t, -, -, rfl⟩ <;> rfl
  | call c env =>
      exact (callStep_cases hstep).acted.scheduler (by simp)
  | checkpoint order =>
      exact (checkpointStep_unmoved hstep).scheduler

/-- The goroutine that has to call `NotifyNewTask` after the step, which is a push. -/
def notifier (s : World n m) : Event n m → Option (Fin n ⊕ Fin m)
  | .worker w _ _ _ =>
      match s.workers w with
      | .repushing _ _ => some (.inl w)
      | _ => none
  | .call c _ =>
      match s.calls c with
      | .pushing _ => some (.inr c)
      | _ => none
  | _ => none

/-- Only the scheduler and those who have to notify it put tasks on the heap. -/
theorem step_heap_subset
    {ev : Event n m}
    (hstep : s.step ev = some s')
    (hscheduler : ∀ now, ev ≠ .scheduler now)
    (hnotifier : s.notifier ev = none)
    {id : TaskID}
    (hid : id ∈ s'.engine.heap.inner) :
    id ∈ s.engine.heap.inner := by
  cases ev with
  | worker w env result delay =>
      have hworker := workerStep_cases hstep
      cases hworker with
      | repush hpc =>
          simp [notifier, hpc] at hnotifier
      | @write id result hpc =>
          cases result <;> exact hid
      | _ =>
          exact hid
  | scheduler now =>
      exact absurd rfl (hscheduler now)
  | submit c task generatedID now =>
      rcases submitStep_registers hstep with ⟨rfl, -⟩ | hreg
      · exact hid
      · rw [hreg.engine] at hid
        exact hid
  | cancel c target now =>
      rcases cancelStep_cases hstep with rfl | ⟨-, t, -, -, rfl⟩
      · exact hid
      · exact hid
  | call c env =>
      have hcall := callStep_cases hstep
      cases hcall with
      | push hpc =>
          simp [notifier, hpc] at hnotifier
      | remove hpc =>
          exact (Engine.removeHeap_sublist s.engine _).subset hid
      | _ =>
          exact hid
  | checkpoint order =>
      rwa [(checkpointStep_unmoved hstep).heap] at hid

end World

namespace Engine

theorem rebuildTask_ordered
    {e e' : Engine} {id : TaskID}
    (hord : e.heap.Ordered e.scheduledAt)
    (h : e.rebuildTask id = some e') :
    e'.heap.Ordered e'.scheduledAt := by
  have hre : ∀ {e₀ : Engine}, e₀.reEnqueue id = some e' →
      e₀.heap.Ordered e₀.scheduledAt → e'.heap.Ordered e'.scheduledAt := by
    intro e₀ hre hord₀
    obtain ⟨htasks, hheap, -⟩ := reEnqueue_some hre
    have htimes : e'.scheduledAt = e₀.scheduledAt := by
      funext j
      rw [scheduledAt, htasks]
      rfl
    rwa [hheap, htimes]
  unfold rebuildTask at h
  split at h
  · exact hre h hord
  · cases h
    exact IndexedHeap.push_ordered hord id
  · refine hre h (IndexedHeap.Ordered.congr hord ?_)
    intro j _
    exact scheduledAt_updateTask _ _ _ _ (fun _ => rfl)
  · cases h
    exact hord

theorem rebuildQueues_ordered
    {e e' : Engine} {order : List TaskID}
    (hord : e.heap.Ordered e.scheduledAt)
    (h : e.rebuildQueues order = some e') :
    e'.heap.Ordered e'.scheduledAt := by
  induction order generalizing e with
  | nil =>
      cases h
      exact hord
  | cons id order ih =>
      rw [rebuildQueues] at h
      split at h
      · next e₁ hone =>
          exact ih (rebuildTask_ordered hord hone) h
      · cases h

/-- The heap is ordered when the process starts after `Recover`. -/
theorem Recovered.ordered
    {cfg : Config} {d : Disk} {order : List TaskID} {e : Engine}
    (h : Recovered cfg d order e) :
    e.heap.Ordered e.scheduledAt := by
  obtain ⟨loaded, last, hload, hreb⟩ := recover_ok h.1
  refine rebuildQueues_ordered ?_ hreb
  obtain ⟨-, hheap, -⟩ := loadTasks_frame hload
  show loaded.heap.Ordered _
  rw [hheap]
  exact IndexedHeap.empty_ordered _

end Engine

/-- `time.Until`: the time to the deadline, within the bounds of `time.Duration`. -/
def timeUntil (deadline now : Time) : Duration :=
  max (-2 ^ 63) (min (2 ^ 63 - 1) (deadline - now))

/-- `defaultPollInterval`: 500 ms. -/
def defaultPollInterval : Duration := 500000000

/-- Where `Scheduler.Run` is between its passes. -/
inductive SchedulerPhase
  /-- At the top of the loop, before `PromoteReady`. -/
  | promoting
  /-- With the tasks that were ready. -/
  | passing
  /-- With the answer of `NextDeadline`. -/
  | measured (deadline : Option Time)
  /-- In the `select`, with a timer that was started `lag` after the call of `time.Until`. -/
  | sleeping (wakeAt : Time) (lag : Duration)
  /-- The context was cancelled. -/
  | returned
deriving DecidableEq, Repr

/-- A task with the given time may be on the heap; nobody has to wake the scheduler for it. -/
def SchedulerPhase.Allows (time : Time) : SchedulerPhase → Prop
  | .measured none => False
  | .measured (some deadline) => deadline ≤ time
  | .sleeping wakeAt lag => wakeAt ≤ time + lag
  | _ => True

/-- The scheduler is not in a pass. -/
def SchedulerPhase.between : SchedulerPhase → Bool
  | .passing => false
  | _ => true

/--
The process with the channel `wake` and what the scheduler does between its passes.  `owes`
marks the goroutines that have pushed a task and have not called `NotifyNewTask`.
-/
structure Waking (n m : Nat) where
  world : World n m
  wake : Bool
  owes : Fin n ⊕ Fin m → Bool
  phase : SchedulerPhase

namespace Waking

variable {n m : Nat}

/-- The steps of the process, and those between the passes of the scheduler. -/
inductive Event (n m : Nat)
  | world (ev : World.Event n m)
  /-- `NotifyNewTask`. -/
  | notify (i : Fin n ⊕ Fin m)
  /-- `NextDeadline`. -/
  | measure
  /-- `time.Until` at `now`, and `time.NewTimer` at `created`. -/
  | arm (now created : Time)
  /-- The timer fires. -/
  | fire (now : Time)
  /-- The signal is received. -/
  | receive
  /-- The context is cancelled. -/
  | cancelled

/-- The goroutine has pushed a task, and calls `NotifyNewTask` next. -/
def busy (s : Waking n m) (ev : World.Event n m) : Bool :=
  ev.actor.any s.owes

/-- Who has to call `NotifyNewTask` after the step. -/
def owesAfter (s : Waking n m) (ev : World.Event n m) : Fin n ⊕ Fin m → Bool :=
  match s.world.notifier ev with
  | some i => Function.update s.owes i true
  | none => s.owes

/-- A step of the process; a pass of the scheduler starts with `PromoteReady`. -/
def worldStep (s : Waking n m) (ev : World.Event n m) : Option (Waking n m) :=
  if s.busy ev then
    none
  else
    match ev with
    | .scheduler now =>
        match s.phase with
        | .promoting =>
            (s.world.step (.scheduler now)).map fun world =>
              { s with world := world, phase := .passing }
        | .passing =>
            if s.world.scheduler = .loop [] then
              none
            else
              (s.world.step (.scheduler now)).map fun world => { s with world := world }
        | _ => none
    | ev => (s.world.step ev).map fun world => { s with world := world, owes := s.owesAfter ev }

/-- The timer of the scheduler, or no sleep at all if the deadline is past. -/
def armed (deadline : Option Time) (now created : Time) : SchedulerPhase :=
  match deadline with
  | some deadline =>
      if timeUntil deadline now ≤ 0 then
        .promoting
      else
        .sleeping (created + timeUntil deadline now) (created - now)
  | none => .sleeping (created + defaultPollInterval) (created - now)

/-- The transitions. -/
def step (s : Waking n m) : Event n m → Option (Waking n m)
  | .world ev => s.worldStep ev
  | .notify i =>
      if s.owes i then
        some { s with wake := true, owes := Function.update s.owes i false }
      else
        none
  | .measure =>
      if s.phase = .passing ∧ s.world.scheduler = .loop [] then
        some
          { s with
            phase := .measured (s.world.engine.heap.nextDeadline s.world.engine.scheduledAt) }
      else
        none
  | .arm now created =>
      match s.phase with
      | .measured deadline => some { s with phase := armed deadline now created }
      | _ => none
  | .fire now =>
      match s.phase with
      | .sleeping wakeAt _ =>
          if wakeAt ≤ now then some { s with phase := .promoting } else none
      | _ => none
  | .receive =>
      match s.phase with
      | .sleeping _ _ =>
          if s.wake then some { s with wake := false, phase := .promoting } else none
      | _ => none
  | .cancelled =>
      match s.phase with
      | .sleeping _ _ => some { s with phase := .returned }
      | _ => none

/-- The process after `Start`, with the given engine and directory. -/
def start (e : Engine) (d : Engine.Disk) (ids : List TaskID) : Waking n m where
  world := World.start e d ids
  wake := false
  owes := fun _ => false
  phase := .promoting

/-- The clock does not go back between the two calls. -/
def Forward (_ : Waking n m) : Event n m → Prop
  | .arm now created => now ≤ created
  | _ => True

instance (s : Waking n m) (ev : Event n m) : Decidable (s.Forward ev) :=
  match ev with
  | .world _ => inferInstanceAs (Decidable True)
  | .notify _ => inferInstanceAs (Decidable True)
  | .measure => inferInstanceAs (Decidable True)
  | .arm now created => inferInstanceAs (Decidable (now ≤ created))
  | .fire _ => inferInstanceAs (Decidable True)
  | .receive => inferInstanceAs (Decidable True)
  | .cancelled => inferInstanceAs (Decidable True)

/-- The scheduler will be woken. -/
def Pending (s : Waking n m) : Prop :=
  s.wake = true ∨ ∃ i, s.owes i = true

/-- What every run keeps. -/
structure Alert (s : Waking n m) : Prop where
  custody : World.Custody s.world
  ordered : s.world.engine.heap.Ordered s.world.engine.scheduledAt
  between : s.phase.between = true → s.world.scheduler = .loop []
  covered : s.Pending ∨
    ∀ id ∈ s.world.engine.heap.inner, s.phase.Allows (s.world.engine.scheduledAt id)
  forward : ∀ wakeAt lag, s.phase = .sleeping wakeAt lag → 0 ≤ lag

theorem alert_start
    {cfg : Engine.Config} {d : Engine.Disk} {order : List TaskID} {e : Engine}
    (h : Engine.Recovered cfg d order e) :
    Alert (start e d order : Waking n m) where
  custody := World.start_custody h
  ordered := h.ordered
  between := fun _ => rfl
  covered := Or.inr fun _ _ => trivial
  forward := nofun

variable {s s' : Waking n m}

/-- Somebody has to notify after the step: the scheduler will be woken. -/
theorem pending_owesAfter
    {ev : World.Event n m} {i : Fin n ⊕ Fin m}
    (h : s.world.notifier ev = some i)
    (world : World n m) :
    Pending { s with world := world, owes := s.owesAfter ev } := by
  refine Or.inr ⟨i, ?_⟩
  simp [owesAfter, h]

/-- A step of a worker, a client or the checkpoint goroutine. -/
theorem alert_other
    {ev : World.Event n m} {world : World n m}
    (h : Alert s)
    (hscheduler : ∀ now, ev ≠ .scheduler now)
    (hstep : s.world.step ev = some world) :
    Alert { s with world := world, owes := s.owesAfter ev } := by
  refine ⟨World.step_custody h.custody hstep, World.step_ordered h.custody h.ordered hstep,
    ?_, ?_, h.forward⟩
  · intro hbetween
    rw [World.step_scheduler_of_ne hstep hscheduler]
    exact h.between hbetween
  · cases hnotifier : s.world.notifier ev with
    | some i =>
        exact Or.inl (pending_owesAfter hnotifier world)
    | none =>
        have howes : s.owesAfter ev = s.owes := by
          simp [owesAfter, hnotifier]
        rw [howes]
        rcases h.covered with hpending | hallows
        · exact Or.inl hpending
        · right
          intro id hid
          have hold := World.step_heap_subset hstep hscheduler hnotifier hid
          show s.phase.Allows (world.engine.scheduledAt id)
          rw [World.step_scheduledAt h.custody hstep hold]
          exact hallows id hold

/-- A step of the scheduler in a pass, or `PromoteReady`. -/
theorem alert_pass
    {now : Time} {world : World n m}
    (h : Alert s)
    (hstep : s.world.step (.scheduler now) = some world) :
    Alert { s with world := world, phase := .passing } where
  custody := World.step_custody h.custody hstep
  ordered := World.step_ordered h.custody h.ordered hstep
  between := nofun
  covered := Or.inr fun _ _ => trivial
  forward := nofun

theorem worldStep_cases
    {ev : World.Event n m}
    (h : s.worldStep ev = some s') :
    (∃ now world, s.world.step (.scheduler now) = some world ∧
        s' = { s with world := world, phase := .passing }) ∨
      (∀ now, ev ≠ .scheduler now) ∧ ∃ world, s.world.step ev = some world ∧
        s' = { s with world := world, owes := s.owesAfter ev } := by
  unfold worldStep at h
  by_cases hbusy : s.busy ev
  · simp [hbusy] at h
  rw [if_neg hbusy] at h
  cases ev with
  | scheduler now =>
      left
      cases hphase : s.phase with
      | promoting =>
          simp only [hphase] at h
          obtain ⟨world, hstep, rfl⟩ := Option.map_eq_some_iff.mp h
          exact ⟨now, world, hstep, rfl⟩
      | passing =>
          simp only [hphase] at h
          split_ifs at h with hloop
          obtain ⟨world, hstep, rfl⟩ := Option.map_eq_some_iff.mp h
          exact ⟨now, world, hstep, rfl⟩
      | _ =>
          simp [hphase] at h
  | _ =>
      right
      obtain ⟨world, hstep, rfl⟩ := Option.map_eq_some_iff.mp h
      exact ⟨nofun, world, hstep, rfl⟩

/-- A timer that is set for a deadline is not set for a later time. -/
theorem timeUntil_le
    {deadline now : Time}
    (h : 0 < timeUntil deadline now) :
    timeUntil deadline now ≤ deadline - now := by
  unfold timeUntil at h ⊢
  rcases lt_max_iff.mp h with hneg | hmin
  · norm_num at hneg
  · refine max_le ?_ (min_le_right _ _)
    have hpos := hmin.trans_le (min_le_right _ _)
    exact le_trans (by norm_num) hpos.le

/-- What the deadline allows, the timer for it allows. -/
theorem allows_armed
    {deadline : Option Time} {now created time : Time}
    (h : (SchedulerPhase.measured deadline).Allows time) :
    (armed deadline now created).Allows time := by
  cases deadline with
  | none =>
      exact h.elim
  | some deadline =>
      change deadline ≤ time at h
      simp only [armed]
      split_ifs with hpast
      · trivial
      · have hle := timeUntil_le (not_le.mp hpast)
        show created + timeUntil deadline now ≤ time + (created - now)
        linarith

theorem armed_forward
    {deadline : Option Time} {now created : Time}
    (h : now ≤ created)
    {wakeAt : Time} {lag : Duration}
    (harmed : armed deadline now created = .sleeping wakeAt lag) :
    0 ≤ lag := by
  have hlag : lag = created - now := by
    unfold armed at harmed
    split at harmed
    · split_ifs at harmed
      cases harmed
      rfl
    · cases harmed
      rfl
  rw [hlag]
  exact sub_nonneg.mpr h

/-- The answer of `NextDeadline` covers the heap. -/
theorem allows_measured
    (h : Alert s)
    {id : TaskID}
    (hid : id ∈ s.world.engine.heap.inner) :
    (SchedulerPhase.measured
      (s.world.engine.heap.nextDeadline s.world.engine.scheduledAt)).Allows
        (s.world.engine.scheduledAt id) := by
  have hleast := DelayedHeap.nextDeadline_isLeast h.ordered
  have hbag : id ∈ s.world.engine.heap.bag := hid
  cases hnext : s.world.engine.heap.nextDeadline s.world.engine.scheduledAt with
  | none =>
      rw [hnext] at hleast
      rw [show s.world.engine.heap.bag = 0 from hleast] at hbag
      exact absurd hbag (Multiset.notMem_zero id)
  | some deadline =>
      rw [hnext] at hleast
      obtain ⟨t, hfirst, rfl⟩ := hleast
      exact hfirst.le id hbag

/-- The scheduler goes on to a phase that covers what the one before has covered. -/
theorem Alert.goes
    {phase : SchedulerPhase}
    (h : Alert s)
    (hloop : s.world.scheduler = .loop [])
    (hcovers : s.Pending ∨
      ∀ id ∈ s.world.engine.heap.inner, phase.Allows (s.world.engine.scheduledAt id))
    (hforward : ∀ wakeAt lag, phase = .sleeping wakeAt lag → 0 ≤ lag) :
    Alert { s with phase := phase } where
  custody := h.custody
  ordered := h.ordered
  between := fun _ => hloop
  covered := hcovers
  forward := hforward

/-- Every step keeps the invariant. -/
theorem step_alert
    (s : Waking n m) (ev : Event n m) (s' : Waking n m)
    (h : Alert s)
    (hok : s.Forward ev)
    (hstep : s.step ev = some s') :
    Alert s' := by
  cases ev with
  | world ev =>
      rcases worldStep_cases hstep with ⟨now, world, hworld, rfl⟩ | ⟨hother, world, hworld, rfl⟩
      · exact alert_pass h hworld
      · exact alert_other h hother hworld
  | notify i =>
      simp only [step] at hstep
      split_ifs at hstep
      cases hstep
      exact ⟨h.custody, h.ordered, h.between, Or.inl (Or.inl rfl), h.forward⟩
  | measure =>
      simp only [step] at hstep
      split_ifs at hstep with hphase
      cases hstep
      exact h.goes hphase.2 (Or.inr fun id hid => allows_measured h hid) nofun
  | arm now created =>
      simp only [step] at hstep
      split at hstep
      · next deadline hphase =>
          cases hstep
          refine h.goes (h.between (by rw [hphase]; rfl)) ?_ fun _ _ => armed_forward hok
          rcases h.covered with hpending | hallows
          · exact Or.inl hpending
          · right
            intro id hid
            have hid' := hallows id hid
            rw [hphase] at hid'
            exact allows_armed hid'
      · cases hstep
  | fire now =>
      simp only [step] at hstep
      split at hstep
      · next wakeAt lag hphase =>
          split_ifs at hstep
          cases hstep
          exact h.goes (h.between (by rw [hphase]; rfl)) (Or.inr fun _ _ => trivial) nofun
      · cases hstep
  | receive =>
      simp only [step] at hstep
      split at hstep
      · next wakeAt lag hphase =>
          split_ifs at hstep
          cases hstep
          have hloop := h.between (by rw [hphase]; rfl)
          exact ⟨h.custody, h.ordered, fun _ => hloop, Or.inr fun _ _ => trivial, nofun⟩
      · cases hstep
  | cancelled =>
      simp only [step] at hstep
      split at hstep
      · next wakeAt lag hphase =>
          cases hstep
          exact h.goes (h.between (by rw [hphase]; rfl)) (Or.inr fun _ _ => trivial) nofun
      · cases hstep

/-- At the top of its loop, the scheduler takes a task that is due from the heap. -/
theorem promotes_due
    {now : Time} {id : TaskID}
    (h : Alert s)
    (hphase : s.phase = .promoting)
    (hid : id ∈ s.world.engine.heap.inner)
    (hdue : s.world.engine.scheduledAt id ≤ now) :
    ∃ t, s.step (.world (.scheduler now)) = some t ∧ id ∈ t.world.scheduler.holds := by
  have hloop := h.between (by rw [hphase]; rfl)
  refine ⟨{ s with
    world := s.world.toScheduler (.loop (s.world.engine.promoteReady now).1)
      (s.world.engine.promoteReady now).2
    phase := .passing }, ?_, ?_⟩
  · simp [step, worldStep, busy, World.Event.actor, hphase, World.step, World.schedulerStep, hloop]
  · exact (DelayedHeap.promoteReady_releases now h.ordered).1.mem_due.mpr ⟨hid, hdue⟩

/-- A scheduler that sleeps and is woken takes a task that is due from the heap. -/
theorem promotes_after
    {ev : Event n m} {t : Waking n m} {now : Time} {id : TaskID}
    (h : Alert s)
    (hok : s.Forward ev)
    (hstep : s.step ev = some t)
    (hphase : t.phase = .promoting)
    (hworld : t.world = s.world)
    (hid : id ∈ s.world.engine.heap.inner)
    (hdue : s.world.engine.scheduledAt id ≤ now) :
    ∃ u, Run step Forward s [ev, .world (.scheduler now)] u ∧ id ∈ u.world.scheduler.holds := by
  have ht := step_alert s ev t h hok hstep
  rw [← hworld] at hid hdue
  obtain ⟨u, hu, hheld⟩ := promotes_due ht hphase hid hdue
  exact ⟨u, .cons hok hstep (.cons trivial hu (.nil u)), hheld⟩

/-- With a signal in the channel, a scheduler that sleeps takes a task that is due. -/
theorem promotes_of_wake
    {wakeAt : Time} {lag : Duration} {now : Time} {id : TaskID}
    (h : Alert s)
    (hsleeps : s.phase = .sleeping wakeAt lag)
    (hwake : s.wake = true)
    (hid : id ∈ s.world.engine.heap.inner)
    (hdue : s.world.engine.scheduledAt id ≤ now) :
    ∃ u, Run step Forward s [.receive, .world (.scheduler now)] u ∧
      id ∈ u.world.scheduler.holds := by
  refine promotes_after (t := { s with wake := false, phase := .promoting }) h trivial ?_ rfl
    rfl hid hdue
  simp [step, hsleeps, hwake]

/-- The scheduler goes to sleep over an empty heap; then a task for the time 100 comes in. -/
def sleptThenPushed : List (Event 1 1) :=
  [.world (.scheduler 0), .measure, .arm 0 1] ++
    (World.wholeSubmit 0 { Task.zero with scheduledAt := 100 } "a" 10).map .world

end Waking
end TaskQueue
