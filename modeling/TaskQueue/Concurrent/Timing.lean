import Mathlib.Tactic
import TaskQueue.Concurrent.Agreement

/-!
# No task runs before its time

The process with a clock that never goes back.  For every task, the time it was submitted
for, if that was in the future, and the time that the last failed attempt has set are kept
as history, and so are the tasks on which the user handler was started before one of them.

A task that waits (on the heap, or on its way there) has its time in `ScheduledAt`; in all
other places its time has come (`Timely`).  `Submit` decides on the queue by the state of
the task, which it reads again after the `Append`.  A `CancelTask` in between makes it
put a task of the future in the ring buffer (`handler_starts_early`).
-/

namespace TaskQueue

open Lib (GoMap Run Exclusive Consistent)
open Queue
open Wal (Log LogEnv LogRecord Snapshot)
open Engine (HandlerError)

/-- The worker has set a new time for the task it holds. -/
def WorkerPc.retries : WorkerPc → Bool
  | .retrying _ _ => true
  | .repushing _ _ => true
  | _ => false

/-- The task for which the worker has just set a new time, in `handleFailure`. -/
def WorkerPc.assigns : WorkerPc → Option TaskID
  | .retrying id _ => some id
  | _ => none

/-- The task of a `Submit` that has not decided on the queue. -/
def CallPc.enters : CallPc → Option TaskID
  | .registered task => some task.id
  | .marshalled task _ => some task.id
  | .logged id => some id
  | _ => none

/-- The time of the task that a `Submit` has registered as one of the future. -/
def CallPc.plans (id : TaskID) : CallPc → Option Time
  | .registered task =>
      if id = task.id ∧ task.state = .scheduled then some task.scheduledAt else none
  | _ => none

/-- The `Submit` has not decided for the ring buffer. -/
def CallPc.undecided : CallPc → Bool
  | .enqueueing _ => false
  | _ => true

theorem WorkerPc.mem_holds_of_assigns
    {pc : WorkerPc} {id : TaskID}
    (h : pc.assigns = some id) :
    id ∈ pc.holds := by
  cases pc <;> simp_all [WorkerPc.assigns, WorkerPc.holds]

theorem SchedulerPc.mem_holds_of_inHand
    {pc : SchedulerPc} {id : TaskID} {x : TaskState}
    (h : pc.inHand = some (id, x)) :
    id ∈ pc.holds := by
  rw [SchedulerPc.holds_eq, h]
  exact List.mem_cons_self

theorem CallPc.mem_holds_of_enters
    {pc : CallPc} {id : TaskID}
    (h : pc.enters = some id) :
    id ∈ pc.holds := by
  cases pc <;> simp_all [CallPc.enters, CallPc.holds]

/--
The times of a task: the one it was submitted for, if it was in the future, the one that the
last failed attempt has set, and `ScheduledAt`.
-/
structure Timing where
  submitted : Option Time
  retryAt : Option Time
  scheduledAt : Time

namespace Timing

/-- The handler may be started at `now`. -/
def Due (times : Timing) (now : Time) : Prop :=
  (∀ due ∈ times.submitted, due ≤ now) ∧ ∀ due ∈ times.retryAt, due ≤ now

instance (times : Timing) (now : Time) : Decidable (times.Due now) :=
  inferInstanceAs (Decidable (_ ∧ _))

/-- From this time on the handler may be started; a task that waits is kept until `ScheduledAt`. -/
def opens (times : Timing) (waits : Bool) (now : Time) : Time :=
  if waits then max now times.scheduledAt else now

theorem Due.mono
    {times : Timing} {now later : Time}
    (h : times.Due now)
    (hle : now ≤ later) :
    times.Due later :=
  ⟨fun due hdue => (h.1 due hdue).trans hle, fun due hdue => (h.2 due hdue).trans hle⟩

theorem le_opens
    (times : Timing) (waits : Bool) (now : Time) :
    now ≤ times.opens waits now := by
  unfold opens
  split_ifs
  · exact le_max_left _ _
  · exact le_rfl

theorem opens_mono
    (times : Timing) (waits : Bool) {now later : Time}
    (hle : now ≤ later) :
    times.opens waits now ≤ times.opens waits later := by
  unfold opens
  split_ifs
  · exact max_le_max hle le_rfl
  · exact hle

end Timing

namespace Engine

theorem scheduledAt_updateTask
    (e : Engine) (id j : TaskID) (f : Task → Task)
    (hf : ∀ t, (f t).scheduledAt = t.scheduledAt) :
    (e.updateTask id f).scheduledAt j = e.scheduledAt j :=
  congrArg (Option.getD · zeroTime) (map_get_updateTask hf e id j)

theorem scheduledAt_updateTask_of_ne
    (e : Engine) {id j : TaskID} (f : Task → Task)
    (h : j ≠ id) :
    (e.updateTask id f).scheduledAt j = e.scheduledAt j := by
  rw [scheduledAt, get_updateTask_of_ne e f h]
  rfl

end Engine

namespace World

variable {n m : Nat} {s s' : World n m}

/-- The tasks of a place wait for `ScheduledAt`. -/
def waits (s : World n m) : Place n m → Bool
  | .buffer => false
  | .heap => true
  | .scheduler => false
  | .worker w => (s.workers w).retries
  | .call c => (s.calls c).undecided

theorem Acted.waits
    {p q : Place n m}
    (h : Acted q s s')
    (hp : p ≠ q) :
    s'.waits p = s.waits p := by
  cases p with
  | buffer | heap | scheduler =>
      rfl
  | worker w =>
      simp only [World.waits, h.workers w (Ne.symm hp)]
  | call c =>
      simp only [World.waits, h.calls c (Ne.symm hp)]

/-- A worker sets a new time only for the task that it will push to the heap. -/
theorem WorkerStep.scheduledAt_cases
    {w : Fin n} {env : LogEnv}
    (h : WorkerStep s w env s')
    (j : TaskID) :
    s'.engine.scheduledAt j = s.engine.scheduledAt j ∨
      (s'.workers w).assigns = some j := by
  cases h with
  | @mark id hpc | @wrap id hpc | @succeed id hpc | @die id err hpc hfinal =>
      exact Or.inl (Engine.scheduledAt_updateTask _ _ _ _ (fun _ => rfl))
  | @write id result hpc =>
      left
      cases result <;> exact Engine.scheduledAt_updateTask _ _ _ _ (fun _ => rfl)
  | @retry id err nextAt hpc hfinal =>
      by_cases hj : j = id
      · subst hj
        right
        simp [toWorker, WorkerPc.assigns]
      · exact Or.inl (Engine.scheduledAt_updateTask_of_ne _ _ hj)
  | _ =>
      exact Or.inl rfl

/-- The scheduler sets a new time only for the task in its hand. -/
theorem SchedulerStep.scheduledAt_cases
    {now : Time}
    (h : SchedulerStep s now s')
    (j : TaskID) :
    s'.engine.scheduledAt j = s.engine.scheduledAt j ∨ j ∈ s.scheduler.holds := by
  cases h with
  | promote hpc =>
      exact Or.inl (congrArg (Option.getD · zeroTime)
        (Engine.map_get_promoteReady (fun _ => rfl) s.engine now j))
  | @expire id ready hpc =>
      exact Or.inl (Engine.scheduledAt_updateTask _ _ _ _ (fun _ => rfl))
  | @postpone id ready hpc =>
      by_cases hj : j = id
      · right
        rw [hpc, hj]
        exact List.mem_cons_self
      · exact Or.inl (Engine.scheduledAt_updateTask_of_ne _ _ hj)
  | _ =>
      exact Or.inl rfl

/-- The tasks that the scheduler holds after a step have been promoted. -/
theorem SchedulerStep.carries
    {now : Time}
    (h : SchedulerStep s now s')
    {a : TaskID}
    (ha : a ∈ s'.scheduler.holds) :
    a ∈ s.scheduler.holds ∨
      (a ∈ s.engine.heap.inner ∧ s.engine.scheduledAt a ≤ now ∧
        s'.engine.scheduledAt a = s.engine.scheduledAt a) := by
  have htime := h.scheduledAt_cases a
  cases h with
  | promote hpc =>
      right
      have hheap : a ∈ s.engine.heap.inner :=
        (Engine.promoteReady_promoted s.engine now).perm.mem_iff.mp
          (List.mem_append_left _ ha)
      refine ⟨hheap, Engine.promoteReady_due ha, htime.resolve_right ?_⟩
      rw [hpc]
      exact List.not_mem_nil
  | _ =>
      left
      simp_all [toScheduler, SchedulerPc.holds]

/-- After its first step a client changes no time, except that it takes its task back. -/
theorem CallStep.scheduledAt_cases
    {c : Fin m} {env : LogEnv}
    (h : CallStep s c env s')
    (j : TaskID) :
    s'.engine.scheduledAt j = s.engine.scheduledAt j ∨
      ∃ task, s.calls c = .undoing task ∧ j = task.id ∧ (s'.calls c).holds = [] := by
  cases h with
  | @undo task hpc =>
      by_cases hj : j = task.id
      · exact Or.inr ⟨task, hpc, hj, by simp [toCall, CallPc.holds]⟩
      · left
        show ((s.engine.unregister task).tasks.get j |>.map Task.scheduledAt).getD _ = _
        rw [Engine.get_unregister, if_neg hj]
        rfl
  | _ =>
      exact Or.inl rfl

/-- A `Submit` goes on with its task; when it decides for the ring buffer, the task is not
`Scheduled`. -/
theorem CallStep.carries
    {c : Fin m} {env : LogEnv}
    (h : CallStep s c env s')
    {a : TaskID}
    (ha : a ∈ (s'.calls c).holds) :
    a ∈ (s.calls c).holds ∧
      ((s.calls c).undecided = (s'.calls c).undecided ∨
        (s.calls c).enters = some a ∧ s.engine.stateOf a ≠ some .scheduled) := by
  cases h <;>
    simp_all [toCall, report, CallPc.holds, CallPc.undecided, CallPc.enters]

theorem CallStep.enters_origin
    {c : Fin m} {env : LogEnv}
    (h : CallStep s c env s')
    {id : TaskID}
    (hid : (s'.calls c).enters = some id) :
    (s.calls c).enters = some id := by
  cases h <;> simp_all [toCall, report, CallPc.enters]

/-- Where a worker has the task from that it holds after a step. -/
theorem WorkerStep.carries
    {w : Fin n} {env : LogEnv}
    (h : WorkerStep s w env s')
    {a : TaskID}
    (ha : a ∈ (s'.workers w).holds) :
    (a ∈ s.engine.buffer.contents ∧ (s'.workers w).assigns ≠ some a) ∨
    (a ∈ (s.workers w).holds ∧ (s.workers w).retries = false ∧
      (s'.workers w).retries = true ∧ (s'.workers w).assigns = some a) ∨
    (a ∈ (s.workers w).holds ∧ (s'.workers w).retries = (s.workers w).retries ∧
      (s'.workers w).assigns ≠ some a) := by
  cases h with
  | @dequeue id rb hpc hdeq =>
      left
      have haid : a = id := by simpa [toWorker, WorkerPc.holds] using ha
      subst haid
      refine ⟨?_, by simp [toWorker, WorkerPc.assigns]⟩
      rw [(RingBuffer.dequeue_done hdeq).1]
      exact List.mem_cons_self
  | _ =>
      right
      simp_all [toWorker, handlerStarts, report, WorkerPc.holds, WorkerPc.retries,
        WorkerPc.assigns]

/-- Where a worker has the task from that it has to check. -/
theorem WorkerStep.checks_origin
    {w : Fin n} {env : LogEnv}
    (h : WorkerStep s w env s')
    {id : TaskID}
    (hid : (s'.workers w).checks = some id) :
    id ∈ (s.workers w).holds ∨ (s.workers w).checks = some id := by
  cases h <;>
    simp_all [toWorker, handlerStarts, report, WorkerPc.holds, WorkerPc.checks]

/-- A worker writes to the task it holds, or to the one it has checked. -/
theorem writes_held
    {pc : WorkerPc} {j : TaskID} {x : TaskState}
    (h : pc.Writes j x) :
    j ∈ pc.holds ∨ pc.checks = some j := by
  cases h <;> simp [WorkerPc.holds, WorkerPc.checks]

end World

/--
The process with its clock.  `submitted` and `retryAt` are history: the times that the tasks
were submitted for, if they were in the future, and those that the last failed attempts have
set.  So is `early`: the tasks on which the user handler was started before such a time.
-/
structure Timed (n m : Nat) where
  world : World n m
  clock : Time
  submitted : TaskID → Option Time
  retryAt : TaskID → Option Time
  early : List TaskID

namespace Timed

variable {n m : Nat}

open World (Place)

/-- The times of a task. -/
def times (s : Timed n m) (id : TaskID) : Timing where
  submitted := s.submitted id
  retryAt := s.retryAt id
  scheduledAt := s.world.engine.scheduledAt id

/-- The reading of the clock in a step. -/
def now (s : Timed n m) : World.Event n m → Time
  | .worker _ env _ _ => env.now
  | .scheduler now => now
  | .submit _ _ _ now => now
  | .cancel _ _ now => now
  | .call _ env => env.now
  | .checkpoint _ => s.clock

/-- A `Submit` has registered a task for a time in the future. -/
def noteSubmit (s : Timed n m) (ev : World.Event n m) (world : World n m) (id : TaskID) :
    Option Time :=
  match ev with
  | .submit c _ _ _ => ((world.calls c).plans id).or (s.submitted id)
  | _ => s.submitted id

/-- `handleFailure` has set `ScheduledAt`. -/
def noteRetry (s : Timed n m) (ev : World.Event n m) (world : World n m) (id : TaskID) :
    Option Time :=
  match ev with
  | .worker w _ _ _ =>
      if (world.workers w).assigns = some id then some (world.engine.scheduledAt id)
      else s.retryAt id
  | _ => s.retryAt id

/-- The user handler is called. -/
def noteStart (s : Timed n m) (ev : World.Event n m) : List TaskID :=
  match ev with
  | .worker w env _ _ =>
      match s.world.workers w with
      | .starting id => if (s.times id).Due env.now then s.early else id :: s.early
      | _ => s.early
  | _ => s.early

/-- The transitions: those of the process, with the history. -/
def step (s : Timed n m) (ev : World.Event n m) : Option (Timed n m) :=
  (s.world.step ev).map fun world =>
    { world := world
      clock := s.now ev
      submitted := s.noteSubmit ev world
      retryAt := s.noteRetry ev world
      early := s.noteStart ev }

/-- The process after `Start`, with the given engine and directory. -/
def start (e : Engine) (d : Engine.Disk) (ids : List TaskID) (clock : Time) : Timed n m where
  world := World.start e d ids
  clock := clock
  submitted := fun _ => none
  retryAt := fun _ => none
  early := []

/--
The clock does not go back, and `CancelTask` does not mark a task as cancelled that is to be
scheduled and whose `Submit` has not decided on the queue.
-/
def Undisturbed (s : Timed n m) (ev : World.Event n m) : Prop :=
  s.clock ≤ s.now ev ∧
    match ev with
    | .cancel _ id _ =>
        s.world.engine.stateOf id = some .scheduled →
          ∀ c, (s.world.calls c).enters ≠ some id
    | _ => True

/-- The time of a task has come, or it waits for it. -/
def Allows (s : Timed n m) (p : Place n m) (_ : TaskID) (times : Timing) : Prop :=
  times.Due (times.opens (s.world.waits p) s.clock)

/-- What every undisturbed run keeps. -/
structure Timely (s : Timed n m) : Prop where
  custody : World.Custody s.world
  places : Consistent s.world.holdings s.times s.Allows
  entering : ∀ c id, (s.world.calls c).enters = some id →
    (s.times id).Due s.clock ∨ s.world.engine.stateOf id = some .scheduled
  unchecked : ∀ c id w, (s.world.calls c).enters = some id →
    (s.world.workers w).checks ≠ some id
  checked : ∀ w id, (s.world.workers w).checks = some id → id ∈ s.world.issued
  fresh : ∀ id, id ∉ s.world.issued → s.submitted id = none ∧ s.retryAt id = none
  prompt : s.early = []

theorem timely_start
    {cfg : Engine.Config} {d : Engine.Disk} {order : List TaskID} {e : Engine}
    (h : Engine.Recovered cfg d order e)
    (clock : Time) :
    Timely (start e d order clock : Timed n m) where
  custody := World.start_custody h
  places := fun _ _ _ => ⟨nofun, nofun⟩
  entering := nofun
  unchecked := nofun
  checked := nofun
  fresh := fun _ _ => ⟨rfl, rfl⟩
  prompt := rfl

variable {s s' : Timed n m}

/-- The clock goes on. -/
theorem Timely.tick
    (h : Timely s)
    {now : Time}
    (hle : s.clock ≤ now) :
    Timely { s with clock := now } where
  custody := h.custody
  places := fun p id hid =>
    (h.places p id hid).mono (Timing.opens_mono _ _ hle)
  entering := fun c id hid => (h.entering c id hid).imp_left (fun hdue => hdue.mono hle)
  unchecked := h.unchecked
  checked := h.checked
  fresh := h.fresh
  prompt := h.prompt

/-- A task that a `Submit` holds is with no worker. -/
theorem Timely.entering_free
    (h : Timely s)
    {c : Fin m} {id : TaskID}
    (hid : (s.world.calls c).enters = some id)
    (w : Fin n) :
    id ∉ (s.world.workers w).holds ∧ (s.world.workers w).checks ≠ some id := by
  have hheld : id ∈ s.world.holdings (.call c) := CallPc.mem_holds_of_enters hid
  exact ⟨h.custody.exclusive.elsewhere (q := .worker w) hheld (by simp), h.unchecked c id w hid⟩

section Worker

variable {w : Fin n} {env : LogEnv} {world : World n m}

/-- The history after the step of a worker. -/
def afterWorker (s : Timed n m) (w : Fin n) (env : LogEnv) (world : World n m) : Timed n m where
  world := world
  clock := s.clock
  submitted := s.submitted
  retryAt := s.noteRetry (.worker w env none 0) world
  early := s.noteStart (.worker w env none 0)

theorem times_afterWorker
    (hstep : World.WorkerStep s.world w env world)
    {a : TaskID}
    (ha : (world.workers w).assigns ≠ some a) :
    (s.afterWorker w env world).times a = s.times a := by
  have hsched : world.engine.scheduledAt a = s.world.engine.scheduledAt a :=
    (hstep.scheduledAt_cases a).resolve_right ha
  simp only [times, afterWorker, noteRetry, if_neg ha, hsched]

/-- What a worker holds after its step is due, or waits for its new time. -/
theorem allows_worker
    (h : Timely s)
    (hstep : World.WorkerStep s.world w env world)
    {a : TaskID}
    (ha : a ∈ (world.workers w).holds) :
    (s.afterWorker w env world).Allows (.worker w) a
      ((s.afterWorker w env world).times a) := by
  have hheld : ∀ a ∈ (s.world.workers w).holds,
      (s.times a).Due ((s.times a).opens (s.world.workers w).retries s.clock) :=
    fun a ha => h.places (.worker w) a ha
  rcases hstep.carries ha with ⟨hbuf, hnew⟩ | ⟨hold, hpc, hpc', hnew⟩ | ⟨hold, hpc, hnew⟩
  · have hdue : (s.times a).Due s.clock := h.places .buffer a hbuf
    rw [times_afterWorker hstep hnew]
    exact hdue.mono (Timing.le_opens _ _ _)
  · have hdue : (s.times a).Due s.clock := by
      have hold := hheld a hold
      rwa [hpc] at hold
    have hretry : (s.afterWorker w env world).retryAt a =
        some (world.engine.scheduledAt a) := if_pos hnew
    constructor
    · intro due hmem
      exact (hdue.1 due hmem).trans (Timing.le_opens _ _ _)
    · intro due hmem
      change due ∈ (s.afterWorker w env world).retryAt a at hmem
      rw [hretry] at hmem
      cases hmem
      show world.engine.scheduledAt a ≤ Timing.opens _ (world.workers w).retries _
      rw [hpc']
      exact le_max_right _ _
  · rw [times_afterWorker hstep hnew]
    show (s.times a).Due ((s.times a).opens (world.workers w).retries s.clock)
    rw [hpc]
    exact hheld a hold

/-- A worker sets a time only for a task that it holds before and after. -/
theorem assigns_held
    (hstep : World.WorkerStep s.world w env world)
    {a : TaskID}
    (ha : (world.workers w).assigns = some a) :
    a ∈ (s.world.workers w).holds ∧ a ∈ (world.workers w).holds := by
  have hmem : a ∈ (world.workers w).holds := WorkerPc.mem_holds_of_assigns ha
  rcases hstep.carries hmem with ⟨-, hnew⟩ | ⟨hold, -⟩ | ⟨hold, -⟩
  · exact absurd ha hnew
  · exact ⟨hold, hmem⟩
  · exact ⟨hold, hmem⟩

theorem times_afterWorker_of_free
    (hstep : World.WorkerStep s.world w env world)
    {a : TaskID}
    (ha : a ∉ (s.world.workers w).holds ∨ a ∉ (world.workers w).holds) :
    (s.afterWorker w env world).times a = s.times a := by
  refine times_afterWorker hstep fun hnew => ?_
  rcases ha with ha | ha
  · exact ha (assigns_held hstep hnew).1
  · exact ha (assigns_held hstep hnew).2

theorem places_afterWorker
    (h : Timely s)
    (hstep : World.WorkerStep s.world w env world) :
    Consistent world.holdings (s.afterWorker w env world).times
      (s.afterWorker w env world).Allows := by
  have hcustody := World.workerStep_custody h.custody hstep
  refine h.places.act h.custody.exclusive hcustody.exclusive (.worker w) ?_ ?_ ?_ ?_
  · intro p hp
    funext a times
    simp only [Allows, afterWorker, hstep.acted.waits hp]
  · intro a ha _
    exact times_afterWorker_of_free hstep (Or.inl ha)
  · intro p hp a ha
    rcases hstep.came hp ha with hold | ⟨rfl, err, hpc⟩
    · exact Or.inl hold
    · -- the retry is pushed to the heap, with the time that the worker has set
      right
      have hnot : a ∉ (world.workers w).holds :=
        hcustody.exclusive.elsewhere (q := .worker w) ha (by simp)
      have hdue := h.places (.worker w) a (by simp [World.holdings, hpc, WorkerPc.holds])
      simp only [Allows, World.waits, hpc] at hdue
      rw [times_afterWorker_of_free hstep (Or.inr hnot)]
      exact hdue
  · intro a ha
    exact allows_worker h hstep ha

/-- A worker does not touch the task of a `Submit` that has not decided on the queue. -/
theorem stateOf_entering
    (h : Timely s)
    (hstep : World.WorkerStep s.world w env world)
    {c : Fin m} {id : TaskID}
    (hid : (s.world.calls c).enters = some id) :
    world.engine.stateOf id = s.world.engine.stateOf id := by
  obtain ⟨hfree, hcheck⟩ := h.entering_free hid w
  rcases hstep.stateOf_cases id with hsame | ⟨x, hw, -⟩
  · exact hsame
  · rcases World.writes_held hw with hmem | hchecked
    · exact absurd hmem hfree
    · exact absurd hchecked hcheck

/-- What a worker checks after a step of one of them was with that one, or is checked still. -/
theorem checks_afterWorker
    (hstep : World.WorkerStep s.world w env world)
    {w' : Fin n} {id : TaskID}
    (hcheck : (world.workers w').checks = some id) :
    id ∈ (s.world.workers w').holds ∨ (s.world.workers w').checks = some id := by
  by_cases hw : w' = w
  · subst hw
    exact hstep.checks_origin hcheck
  · rw [hstep.acted.workers w' (by simpa using Ne.symm hw)] at hcheck
    exact Or.inr hcheck

/-- The user handler is started on a task whose time has come. -/
theorem noteStart_worker
    (h : Timely s)
    (hnow : env.now = s.clock) :
    s.noteStart (.worker w env none 0) = [] := by
  unfold noteStart
  dsimp only
  split
  · next id hpc =>
      have hdue := h.places (.worker w) id (by simp [World.holdings, hpc, WorkerPc.holds])
      simp only [Allows, World.waits, hpc] at hdue
      rw [if_pos, h.prompt]
      rw [hnow]
      exact hdue
  · exact h.prompt

theorem Timely.worker
    (h : Timely s)
    (hnow : env.now = s.clock)
    (hstep : World.WorkerStep s.world w env world) :
    Timely (s.afterWorker w env world) := by
  have hcalls : world.calls = s.world.calls :=
    funext fun c => hstep.acted.calls c (by simp)
  have hissued : world.issued = s.world.issued := hstep.history.1
  refine ⟨World.workerStep_custody h.custody hstep, places_afterWorker h hstep,
    ?_, ?_, ?_, ?_, noteStart_worker h hnow⟩
  · intro c id hid
    change (world.calls c).enters = some id at hid
    rw [hcalls] at hid
    rw [times_afterWorker_of_free hstep (Or.inl (h.entering_free hid w).1)]
    show _ ∨ world.engine.stateOf id = _
    rw [stateOf_entering h hstep hid]
    exact h.entering c id hid
  · intro c id w' hid hcheck
    change (world.calls c).enters = some id at hid
    rw [hcalls] at hid
    obtain ⟨hfree, hnot⟩ := h.entering_free hid w'
    rcases checks_afterWorker hstep hcheck with hold | hold
    · exact hfree hold
    · exact hnot hold
  · intro w' id hcheck
    show id ∈ world.issued
    rw [hissued]
    rcases checks_afterWorker hstep hcheck with hold | hold
    · exact h.custody.mem_issued (p := .worker w') hold
    · exact h.checked w' id hold
  · intro id hid
    change id ∉ world.issued at hid
    rw [hissued] at hid
    have hnot : (world.workers w).assigns ≠ some id := fun hnew =>
      hid (h.custody.mem_issued (p := .worker w) (assigns_held hstep hnew).1)
    refine ⟨(h.fresh id hid).1, ?_⟩
    show (if (world.workers w).assigns = some id then _ else s.retryAt id) = none
    rw [if_neg hnot]
    exact (h.fresh id hid).2

end Worker

/-- The times of a task that keeps its `ScheduledAt` in the step of another thread. -/
theorem times_withWorld
    {world : World n m} {a : TaskID}
    (h : world.engine.scheduledAt a = s.world.engine.scheduledAt a) :
    ({ s with world := world } : Timed n m).times a = s.times a := by
  simp only [times, h]

/--
A step of a thread other than a worker: it begins no `Submit`, and a task that is to be
scheduled and whose `Submit` has not decided on the queue stays so.
-/
theorem Timely.aside
    {world : World n m}
    (h : Timely s)
    (hcustody : World.Custody world)
    (hplaces : Consistent world.holdings ({ s with world := world } : Timed n m).times
      ({ s with world := world } : Timed n m).Allows)
    (hworkers : world.workers = s.world.workers)
    (hissued : world.issued = s.world.issued)
    (henters : ∀ c id, (world.calls c).enters = some id →
      (s.world.calls c).enters = some id ∧
        (s.world.engine.stateOf id = some .scheduled →
          world.engine.stateOf id = some .scheduled)) :
    Timely { s with world := world } := by
  refine ⟨hcustody, hplaces, ?_, ?_, ?_, ?_, h.prompt⟩
  · intro c id hid
    obtain ⟨hold, hstate⟩ := henters c id hid
    exact (h.entering c id hold).imp (fun hdue => hdue) hstate
  · intro c id w hid
    show (world.workers w).checks ≠ some id
    rw [hworkers]
    exact h.unchecked c id w (henters c id hid).1
  · intro w id hcheck
    show id ∈ world.issued
    change (world.workers w).checks = some id at hcheck
    rw [hworkers] at hcheck
    rw [hissued]
    exact h.checked w id hcheck
  · intro id hid
    change id ∉ world.issued at hid
    rw [hissued] at hid
    exact h.fresh id hid

theorem Timely.scheduler
    {world : World n m}
    (h : Timely s)
    (hstep : World.SchedulerStep s.world s.clock world) :
    Timely { s with world := world } := by
  have hacted := hstep.acted
  have hcalls : world.calls = s.world.calls := funext fun c => hacted.calls c (by simp)
  have hcustody := World.schedulerStep_custody h.custody hstep
  -- what the scheduler holds is due, whatever its `ScheduledAt`
  have hheld : ∀ a ∈ s.world.scheduler.holds,
      (({ s with world := world } : Timed n m).times a).Due s.clock :=
    fun a ha => h.places .scheduler a ha
  refine h.aside hcustody ?_ (funext fun w => hacted.workers w (by simp)) hstep.history.1 ?_
  · refine h.places.act h.custody.exclusive hcustody.exclusive .scheduler ?_ ?_ ?_ ?_
    · intro p hp
      funext a times
      simp only [Allows, hacted.waits hp]
    · intro a ha _
      exact times_withWorld ((hstep.scheduledAt_cases a).resolve_right ha)
    · intro p hp a ha
      rcases hstep.came hp ha with hold | ⟨rfl, hhand, -⟩ | ⟨rfl, hhand, -⟩
      · exact Or.inl hold
      · exact Or.inr (hheld a (SchedulerPc.mem_holds_of_inHand hhand))
      · exact Or.inr ((hheld a (SchedulerPc.mem_holds_of_inHand hhand)).mono
          (Timing.le_opens _ _ _))
    · intro a ha
      rcases hstep.carries ha with hold | ⟨hheap, hdue, hsched⟩
      · exact hheld a hold
      · have hopens : (s.times a).Due (max s.clock (s.world.engine.scheduledAt a)) :=
          h.places .heap a hheap
        rw [max_eq_left hdue] at hopens
        rw [times_withWorld hsched]
        exact hopens
  · intro c id hid
    have hcall : id ∈ world.holdings (.call c) := CallPc.mem_holds_of_enters hid
    rw [hcalls] at hid
    refine ⟨hid, fun hscheduled => ?_⟩
    rcases hstep.stateOf_cases id with hsame | ⟨x, hw, -⟩
    · exact hsame.trans hscheduled
    · rcases hw.held hstep with hmem | hmem
      · exact absurd hmem (h.custody.exclusive.elsewhere (p := .call c) (q := .scheduler)
          (CallPc.mem_holds_of_enters hid) (by simp))
      · exact absurd hmem (hcustody.exclusive.elsewhere (q := .scheduler) hcall (by simp))

section Call

variable {c : Fin m} {world : World n m}

theorem Timely.call
    {env : LogEnv}
    (h : Timely s)
    (hstep : World.CallStep s.world c env world) :
    Timely { s with world := world } := by
  have hacted := hstep.acted
  have hcustody := World.callStep_custody h.custody hstep
  have htimes : ∀ a, ¬ (∃ task, s.world.calls c = .undoing task ∧ a = task.id ∧
      (world.calls c).holds = []) →
      ({ s with world := world } : Timed n m).times a = s.times a := by
    intro a ha
    exact times_withWorld ((hstep.scheduledAt_cases a).resolve_right ha)
  refine h.aside hcustody ?_ (funext fun w => hacted.workers w (by simp)) hstep.issued ?_
  · refine h.places.act h.custody.exclusive hcustody.exclusive (.call c) ?_ ?_ ?_ ?_
    · intro p hp
      funext a times
      simp only [Allows, hacted.waits hp]
    · intro a ha _
      refine htimes a ?_
      rintro ⟨task, hpc, rfl, -⟩
      exact ha (by simp [World.holdings, hpc, CallPc.holds])
    · intro p hp a ha
      rcases hstep.came hp ha with hold | ⟨rfl, hpc, -⟩ | ⟨rfl, hpc, -⟩
      · exact Or.inl hold
      · right
        have hdue := h.places (.call c) a (by simp [World.holdings, hpc, CallPc.holds])
        simp only [Allows, World.waits, hpc] at hdue
        exact hdue
      · right
        have hdue := h.places (.call c) a (by simp [World.holdings, hpc, CallPc.holds])
        simp only [Allows, World.waits, hpc] at hdue
        rw [htimes a (by simp [hpc])]
        exact hdue
    · intro a ha
      obtain ⟨hold, hpc⟩ := hstep.carries ha
      have hkept : ¬ ∃ task, s.world.calls c = .undoing task ∧ a = task.id ∧
          (world.calls c).holds = [] := by
        rintro ⟨-, -, -, hnone⟩
        exact List.ne_nil_of_mem ha hnone
      rw [htimes a hkept]
      rcases hpc with hsame | ⟨henters, hstate⟩
      · show (s.times a).Due ((s.times a).opens (world.calls c).undecided s.clock)
        rw [← hsame]
        exact h.places (.call c) a hold
      · -- the task goes to the ring buffer: its time has come
        have hdue := (h.entering c a henters).resolve_right hstate
        exact hdue.mono (Timing.le_opens _ _ _)
  · intro c' id hid
    by_cases hc : c' = c
    · subst hc
      have henters := hstep.enters_origin hid
      refine ⟨henters, fun hscheduled => ?_⟩
      rcases hstep.stateOf_cases id with hsame | ⟨-, hnone⟩
      · exact hsame.trans hscheduled
      · have hreg := hcustody.registered (p := .call c') (CallPc.mem_holds_of_enters hid)
        rw [Option.map_eq_none_iff.mp hnone] at hreg
        cases hreg
    · rw [hacted.calls c' (by simpa using Ne.symm hc)] at hid
      refine ⟨hid, fun hscheduled => ?_⟩
      rcases hstep.stateOf_cases id with hsame | ⟨hmem, -⟩
      · exact hsame.trans hscheduled
      · exact absurd hmem (h.custody.exclusive.elsewhere (p := .call c') (q := .call c)
          (CallPc.mem_holds_of_enters hid) (by simpa using Ne.symm hc))

theorem Timely.cancel
    {id : TaskID} {now : Time}
    (h : Timely s)
    (hok : s.Undisturbed (.cancel c id now))
    (hstep : s.world.cancelStep c id now = some world) :
    Timely { s with world := world } := by
  have hcustody := World.cancelStep_custody h.custody hstep
  rcases World.cancelStep_cases hstep with rfl | ⟨hpc, t, hget, hcan, rfl⟩
  · exact h
  · have hacted : World.Acted (.call c) s.world (s.world.toCall c (.cancelling id)
        (s.world.engine.updateTask id (Engine.cancelledAt now))) := World.acted_toCall _
    refine h.aside hcustody ?_ rfl rfl ?_
    · refine h.places.act h.custody.exclusive hcustody.exclusive (.call c) ?_ ?_ ?_ ?_
      · intro p hp
        funext a times
        simp only [Allows, hacted.waits hp]
      · intro a _ _
        exact times_withWorld (Engine.scheduledAt_updateTask _ _ _ _ (fun _ => rfl))
      · intro p hp a ha
        left
        rwa [hacted.holdings hp (Or.inr rfl) (Or.inr rfl)] at ha
      · intro a ha
        rw [World.holdings_toCall_self] at ha
        cases ha
    · intro c' j hj
      by_cases hc : c' = c
      · subst hc
        simp [World.toCall, CallPc.enters] at hj
      · rw [hacted.calls c' (by simpa using Ne.symm hc)] at hj
        refine ⟨hj, fun hscheduled => ?_⟩
        rcases (s.world.engine.cancelledAt_sets id now).same_or j with hsame | ⟨rfl, -⟩
        · exact hsame.trans hscheduled
        · exact absurd hj (hok.2 hscheduled c')

theorem Timely.checkpoint
    {order : List TaskID}
    (h : Timely s)
    (hstep : s.world.checkpointStep order = some world) :
    Timely { s with world := world } := by
  have hsame := World.checkpointStep_unmoved hstep
  have hstate : ∀ id, world.engine.stateOf id = s.world.engine.stateOf id := by
    intro id
    rw [Engine.stateOf, hsame.tasks]
    rfl
  refine h.aside (World.checkpointStep_custody h.custody hstep) ?_ hsame.workers hsame.issued ?_
  · intro p a ha
    have hwaits : world.waits p = s.world.waits p := by
      cases p <;> simp only [World.waits, hsame.workers, hsame.calls]
    rw [hsame.holdings] at ha
    rw [times_withWorld (by rw [Engine.scheduledAt, hsame.tasks]; rfl)]
    show (s.times a).Due ((s.times a).opens (world.waits p) s.clock)
    rw [hwaits]
    exact h.places p a ha
  · intro c id hid
    rw [hsame.calls] at hid
    exact ⟨hid, fun hscheduled => (hstate id).trans hscheduled⟩

/-- The history after the first step of a `Submit`. -/
def afterSubmit (s : Timed n m) (c : Fin m) (world : World n m) : Timed n m :=
  { s with
    world := world
    submitted := fun id => ((world.calls c).plans id).or (s.submitted id) }

section Register

variable {t : Task}

theorem submitted_afterSubmit
    (hreg : World.Registers c t s.world world)
    (j : TaskID) :
    (s.afterSubmit c world).submitted j =
      if j = t.id ∧ t.state = .scheduled then some t.scheduledAt else s.submitted j := by
  show ((world.calls c).plans j).or (s.submitted j) = _
  rw [hreg.call, CallPc.plans]
  split_ifs <;> rfl

theorem times_afterSubmit
    (hreg : World.Registers c t s.world world)
    {j : TaskID}
    (hj : j ≠ t.id) :
    (s.afterSubmit c world).times j = s.times j := by
  have hsub : (s.afterSubmit c world).submitted j = s.submitted j := by
    rw [submitted_afterSubmit hreg, if_neg (fun hboth => hj hboth.1)]
  have hsched : world.engine.scheduledAt j = s.world.engine.scheduledAt j := by
    rw [hreg.engine, Engine.scheduledAt, Engine.get_register, if_neg hj]
    rfl
  show Timing.mk _ _ _ = Timing.mk _ _ _
  rw [hsub]
  exact congrArg (Timing.mk _ _) hsched

/-- The new task has no other time than its `ScheduledAt`, and that only if it is scheduled. -/
theorem due_afterSubmit
    (h : Timely s)
    (hreg : World.Registers c t s.world world)
    {now : Time}
    (hnow : t.state = .scheduled → t.scheduledAt ≤ now) :
    ((s.afterSubmit c world).times t.id).Due now := by
  obtain ⟨hsub, hretry⟩ := h.fresh t.id hreg.fresh
  constructor
  · intro due hdue
    change due ∈ (s.afterSubmit c world).submitted t.id at hdue
    rw [submitted_afterSubmit hreg, hsub] at hdue
    split_ifs at hdue with hboth
    · rw [← Option.mem_some_iff.mp hdue]
      exact hnow hboth.2
    · cases hdue
  · intro due hdue
    change due ∈ s.retryAt t.id at hdue
    rw [hretry] at hdue
    cases hdue

theorem enters_afterSubmit
    (h : Timely s)
    (hreg : World.Registers c t s.world world)
    {c' : Fin m} {id : TaskID}
    (hid : (world.calls c').enters = some id) :
    id = t.id ∨ ((s.world.calls c').enters = some id ∧ id ≠ t.id) := by
  by_cases hc : c' = c
  · subst hc
    rw [hreg.call] at hid
    exact Or.inl (Option.some.inj hid).symm
  · rw [hreg.acted.calls c' (by simpa using Ne.symm hc)] at hid
    refine Or.inr ⟨hid, ?_⟩
    rintro rfl
    exact hreg.fresh (h.custody.mem_issued (p := .call c') (CallPc.mem_holds_of_enters hid))

theorem places_afterSubmit
    (h : Timely s)
    (hreg : World.Registers c t s.world world)
    (hcustody : World.Custody world) :
    Consistent world.holdings (s.afterSubmit c world).times (s.afterSubmit c world).Allows := by
  have hholds : world.holdings (.call c) = [t.id] := by
    show (world.calls c).holds = _
    rw [hreg.call]
    rfl
  refine h.places.act h.custody.exclusive hcustody.exclusive (.call c) ?_ ?_ ?_ ?_
  · intro p hp
    funext a times
    simp only [Allows, afterSubmit, hreg.acted.waits hp]
  · intro a _ ha
    refine times_afterSubmit hreg ?_
    rintro rfl
    rw [hholds] at ha
    exact ha (List.mem_singleton_self t.id)
  · intro p hp a ha
    rw [hreg.rest p hp] at ha
    exact Or.inl ha
  · intro a ha
    rw [hholds] at ha
    rw [List.mem_singleton.mp ha]
    refine due_afterSubmit h hreg fun _ => ?_
    have hsched : world.engine.scheduledAt t.id = t.scheduledAt := by
      rw [hreg.engine, Engine.scheduledAt, Engine.get_register, if_pos rfl]
      rfl
    show _ ≤ Timing.opens _ (world.calls c).undecided _
    rw [hreg.call]
    exact (le_of_eq hsched.symm).trans (le_max_right _ _)

/-- A `Submit` registers a task under a new ID. -/
theorem Timely.register
    (h : Timely s)
    (hreg : World.Registers c t s.world world)
    (hcustody : World.Custody world) :
    Timely (s.afterSubmit c world) := by
  refine ⟨hcustody, places_afterSubmit h hreg hcustody, ?_, ?_, ?_, ?_, h.prompt⟩
  · intro c' id hid
    rcases enters_afterSubmit h hreg hid with rfl | ⟨hold, hne⟩
    · by_cases hs : t.state = .scheduled
      · right
        show world.engine.stateOf t.id = _
        rw [hreg.engine, Engine.stateOf_register_self, hs]
      · exact Or.inl (due_afterSubmit h hreg fun hscheduled => absurd hscheduled hs)
    · rw [times_afterSubmit hreg hne]
      refine (h.entering c' id hold).imp (fun hdue => hdue) (fun hstate => ?_)
      show world.engine.stateOf id = _
      rw [hreg.engine, Engine.stateOf_register_of_ne _ hne]
      exact hstate
  · intro c' id w hid
    show (world.workers w).checks ≠ some id
    rw [hreg.acted.workers w (by simp)]
    rcases enters_afterSubmit h hreg hid with rfl | ⟨hold, -⟩
    · intro hcheck
      exact hreg.fresh (h.checked w t.id hcheck)
    · exact h.unchecked c' id w hold
  · intro w id hcheck
    change (world.workers w).checks = some id at hcheck
    rw [hreg.acted.workers w (by simp)] at hcheck
    show id ∈ world.issued
    rw [hreg.issued]
    exact List.mem_cons_of_mem _ (h.checked w id hcheck)
  · intro id hid
    change id ∉ world.issued at hid
    rw [hreg.issued] at hid
    obtain ⟨hne, hold⟩ := not_or.mp (fun hmem => hid (List.mem_cons.mpr hmem))
    rw [submitted_afterSubmit hreg, if_neg (fun hboth => hne hboth.1)]
    exact h.fresh id hold

end Register

/-- The first step of a `Submit`. -/
theorem Timely.submit
    {task : Task} {generatedID : TaskID} {now : Time}
    (h : Timely s)
    (hstep : s.world.submitStep c task generatedID now = some world) :
    Timely (s.afterSubmit c world) := by
  rcases World.submitStep_registers hstep with ⟨rfl, hidle⟩ | hreg
  · have hsame : s.afterSubmit c s.world = s := by
      simp [afterSubmit, hidle, CallPc.plans]
    rw [hsame]
    exact h
  · exact h.register hreg (World.submitStep_custody h.custody hstep)

end Call

theorem step_timely
    (s : Timed n m) (ev : World.Event n m) (s' : Timed n m)
    (h : Timely s)
    (hok : s.Undisturbed ev)
    (hstep : s.step ev = some s') :
    Timely s' := by
  obtain ⟨world, hworld, rfl⟩ := Option.map_eq_some_iff.mp hstep
  have htick : Timely { s with clock := s.now ev } := h.tick hok.1
  cases ev with
  | worker w env result delay =>
      exact htick.worker rfl (World.workerStep_cases hworld)
  | scheduler now =>
      exact htick.scheduler (World.schedulerStep_cases hworld)
  | submit c task generatedID now =>
      exact htick.submit hworld
  | cancel c id now =>
      exact htick.cancel ⟨le_rfl, hok.2⟩ hworld
  | call c env =>
      exact htick.call (World.callStep_cases hworld)
  | checkpoint order =>
      exact htick.checkpoint hworld

/--
From any engine that `Recover` leaves, with a clock that does not go back: as long as
`CancelTask` does not mark a task as cancelled between its registration and the choice of its
queue, the user handler is never started on a task before the time that it was submitted for
or the time that its last failed attempt has set.
-/
theorem handler_not_early
    (cfg : Engine.Config) (d : Engine.Disk) (order : List TaskID) (e : Engine) (clock : Time)
    (es : List (World.Event n m)) (t : Timed n m)
    (hrec : Engine.Recovered cfg d order e)
    (hrun : Run step Undisturbed (start e d order clock) es t) :
    t.early = [] :=
  (hrun.invariant Timely step_timely (timely_start hrec clock)).prompt

instance (s : Timed n m) (ev : World.Event n m) : Decidable (s.Undisturbed ev) :=
  World.Event.decidable (fun _ _ _ _ => inferInstanceAs (Decidable (_ ∧ True)))
    (fun _ => inferInstanceAs (Decidable (_ ∧ True)))
    (fun _ _ _ _ => inferInstanceAs (Decidable (_ ∧ True)))
    (fun _ id _ => inferInstanceAs (Decidable (_ ∧ (s.world.engine.stateOf id = some .scheduled →
      ∀ c, (s.world.calls c).enters ≠ some id))))
    (fun _ _ => inferInstanceAs (Decidable (_ ∧ True)))
    (fun _ => inferInstanceAs (Decidable (_ ∧ True))) ev

/-- A task for the time 1000. -/
def later : Task :=
  { Task.zero with scheduledAt := 1000 }

/-- A task waits on the heap until its time, and is then run. -/
theorem handler_not_early_waited :
    ∃ t : Timed 1 1, Run step Undisturbed
        (start (System.initial System.roomyConfig).engine Engine.Disk.empty [] 0)
        (World.wholeSubmit 0 later "a" 10 ++
          [.scheduler 500, .scheduler 1000, .scheduler 1000, .scheduler 1000] ++
          World.wholeStart 0 1010) t ∧
      t.world.workers 0 = .executing "a" ∧ t.submitted "a" = some 1000 ∧ t.early = [] := by
  obtain ⟨t, hrun, hpc, hsub⟩ := Lib.exists_run_of_exec step Undisturbed
    (fun t : Timed 1 1 => t.world.workers 0 = .executing "a" ∧ t.submitted "a" = some 1000)
    (start (System.initial System.roomyConfig).engine Engine.Disk.empty [] 0)
    (World.wholeSubmit 0 later "a" 10 ++
      [.scheduler 500, .scheduler 1000, .scheduler 1000, .scheduler 1000] ++
      World.wholeStart 0 1010) (by decide +kernel)
  exact ⟨t, hrun, hpc, hsub,
    handler_not_early System.roomyConfig Engine.Disk.empty [] _ 0 _ t
      (World.recovered_initial System.roomyConfig) hrun⟩

/--
`CancelTask` marks the task before its `Submit` has decided on the queue.  `Submit` puts it in
the ring buffer, both calls return nil, and the user handler is started long before the time.
-/
theorem handler_starts_early :
    ∃ t : Timed 1 2, Run step (fun s ev => s.clock ≤ s.now ev)
        (start (System.initial System.roomyConfig).engine Engine.Disk.empty [] 0)
        ([.submit 0 later "a" 10] ++ World.wholeCancel 1 "a" 20 ++
          List.replicate 4 (.call 0 (.noError 30 300)) ++ World.wholeStart 0 40) t ∧
      t.world.workers 0 = .executing "a" ∧ t.clock = 40 ∧ t.submitted "a" = some 1000 ∧
        t.early = ["a"] ∧ t.world.accepted = ["a"] ∧ t.world.cancelled = ["a"] :=
  Lib.exists_run_of_exec step (fun s ev => s.clock ≤ s.now ev)
    (fun t : Timed 1 2 => t.world.workers 0 = .executing "a" ∧ t.clock = 40 ∧
      t.submitted "a" = some 1000 ∧ t.early = ["a"] ∧ t.world.accepted = ["a"] ∧
      t.world.cancelled = ["a"]) _ _ (by decide +kernel)

end Timed

end TaskQueue
