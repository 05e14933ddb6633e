import Mathlib.Tactic
import TaskQueue.Lib.Measure
import TaskQueue.Concurrent.Tracking

/-!
# The work comes to an end

Once no client makes a new call, the goroutines come to rest after a bounded number of steps,
in any order of them and whatever the user handlers return.  The bound is the work that is left
(`World.work`): every task counts with the steps on its way through the queues and a worker,
and with 13 more for every retry that it has left.  A failure that is retried sends the task
back to the heap, and uses up one of these (`workerStep_work`).  The only other way back to the
heap is that the scheduler finds the buffer full, so its steps are taken when there is room.
-/

namespace TaskQueue

open Lib (GoMap Run)
open Queue
open Wal (Log LogEnv LogRecord Snapshot)

/-- How often a task may still be retried. -/
def Queue.Task.retriesLeft (t : Task) : Nat :=
  (t.maxRetries - t.retryCount).toNat

namespace Engine

/-- How often the task an ID stands for may still be retried. -/
def retriesLeft (e : Engine) (id : TaskID) : Nat :=
  ((e.tasks.get id).map Task.retriesLeft).getD 0

theorem retriesLeft_congr
    {e e' : Engine}
    (h : e'.tasks = e.tasks) :
    e'.retriesLeft = e.retriesLeft := by
  funext id
  rw [retriesLeft, retriesLeft, h]

/-- A write that does not raise the number of retries of its task raises none. -/
theorem retriesLeft_updateTask_le
    (e : Engine) (id : TaskID) {f : Task → Task}
    (hf : ∀ t, (f t).retriesLeft ≤ t.retriesLeft)
    (j : TaskID) :
    (e.updateTask id f).retriesLeft j ≤ e.retriesLeft j := by
  unfold retriesLeft
  rw [get_updateTask]
  split_ifs with hj
  · subst hj
    cases e.tasks.get j with
    | none =>
        exact le_rfl
    | some t =>
        exact hf t
  · exact le_rfl

theorem retriesLeft_unregister_le
    (e : Engine) (task : Task) (j : TaskID) :
    (e.unregister task).retriesLeft j ≤ e.retriesLeft j := by
  unfold retriesLeft
  rw [get_unregister]
  split_ifs
  · simp
  · exact le_rfl

theorem retriesLeft_promoteReady_le
    (e : Engine) (now : Time) (j : TaskID) :
    (e.promoteReady now).2.retriesLeft j ≤ e.retriesLeft j := by
  unfold retriesLeft
  rw [get_promoteReady]
  split_ifs
  · cases e.tasks.get j <;> exact le_rfl
  · exact le_rfl

/-- A failure that is retried uses up one of the retries. -/
theorem retriesLeft_markRetry
    {e : Engine} {id : TaskID} {t : Task} {err : HandlerError}
    (hget : e.tasks.get id = some t)
    (hfinal : finalFailure t err = false)
    (nextAt : Time) :
    (e.markRetry id err nextAt).retriesLeft id + 1 = e.retriesLeft id := by
  have hlimit : t.retryCount + 1 ≤ t.maxRetries := by
    simp only [finalFailure, Bool.or_eq_false_iff, decide_eq_false_iff_not, not_lt] at hfinal
    exact hfinal.2
  have hleft : (t.maxRetries - (t.retryCount + 1)).toNat + 1 =
      (t.maxRetries - t.retryCount).toNat := by
    omega
  simpa [retriesLeft, markRetry, hget, noteFailure, Task.forceSetState, Task.retriesLeft]
    using hleft

end Engine

/-- Tasks that have `base` steps to go each, and 13 for every retry. -/
def load (left : TaskID → Nat) (base : Nat) (ids : List TaskID) : Nat :=
  base * ids.length + 13 * (ids.map left).sum

section Load

variable {left left' : TaskID → Nat} {base : Nat}

@[simp]
theorem load_nil : load left base [] = 0 := by
  simp [load]

@[simp]
theorem load_cons
    (id : TaskID) (ids : List TaskID) :
    load left base (id :: ids) = base + 13 * left id + load left base ids := by
  simp only [load, List.length_cons, List.map_cons, List.sum_cons]
  ring

@[simp]
theorem load_append
    (ids ids' : List TaskID) :
    load left base (ids ++ ids') = load left base ids + load left base ids' := by
  simp only [load, List.length_append, List.map_append, List.sum_append]
  ring

theorem load_perm
    {ids ids' : List TaskID}
    (h : ids.Perm ids') :
    load left base ids = load left base ids' := by
  rw [load, load, h.length_eq, (h.map left).sum_eq]

theorem load_mono
    (h : ∀ id, left' id ≤ left id)
    (ids : List TaskID) :
    load left' base ids ≤ load left base ids := by
  induction ids with
  | nil =>
      simp
  | cons id ids ih =>
      have hid := h id
      rw [load_cons, load_cons]
      omega

theorem load_sublist
    {ids ids' : List TaskID}
    (h : ids.Sublist ids') :
    load left base ids ≤ load left base ids' := by
  induction h with
  | slnil =>
      exact le_rfl
  | cons a _ ih =>
      rw [load_cons]
      exact ih.trans (Nat.le_add_left _ _)
  | cons_cons a _ ih =>
      rw [load_cons, load_cons]
      exact Nat.add_le_add_left ih _

theorem load_subperm
    {ids ids' : List TaskID}
    (h : ids.Subperm ids') :
    load left base ids ≤ load left base ids' := by
  obtain ⟨l, hperm, hsub⟩ := h
  rw [← load_perm hperm]
  exact load_sublist hsub

/-- One step of each of them. -/
theorem load_succ
    (ids : List TaskID) :
    load left (base + 1) ids = load left base ids + ids.length := by
  simp only [load]
  ring

end Load

/-- The steps that a worker has to go, if its task is not retried. -/
def WorkerPc.rank : WorkerPc → Nat
  | .idle => 0
  | .dequeued _ => 9
  | .marked _ => 8
  | .starting _ => 7
  | .executing _ => 6
  | .returned _ _ => 5
  | .completing _ => 3
  | .dying _ _ => 4
  | .burying _ _ => 3
  | .retrying _ _ => 17
  | .repushing _ _ => 16
  | .checking _ _ => 2
  | .writing _ _ => 1

/-- The steps that the scheduler has to go with the task in its hand. -/
def SchedulerPc.rank : SchedulerPc → Nat
  | .loop _ => 0
  | .expiring _ _ => 1
  | .enqueueing _ _ => 11
  | .postponing _ _ => 15
  | .repushing _ _ => 14
  | .stopped => 0

/-- The ready tasks that the scheduler has not looked at. -/
def SchedulerPc.ready : SchedulerPc → List TaskID
  | .loop ready => ready
  | .expiring _ ready => ready
  | .enqueueing _ ready => ready
  | .postponing _ ready => ready
  | .repushing _ ready => ready
  | .stopped => []

/-- The task in the hand of the scheduler. -/
def SchedulerPc.taken : SchedulerPc → List TaskID
  | .loop _ => []
  | .expiring id _ => [id]
  | .enqueueing id _ => [id]
  | .postponing id _ => [id]
  | .repushing id _ => [id]
  | .stopped => []

/-- The steps that a client has to go. -/
def CallPc.rank : CallPc → Nat
  | .idle => 0
  | .registered _ => 17
  | .marshalled _ _ => 16
  | .undoing _ => 1
  | .logged _ => 15
  | .pushing _ => 14
  | .enqueueing _ => 11
  | .cancelling _ => 2
  | .removing _ => 1

/-- The steps that the checkpoint goroutine has to go. -/
def CheckpointPc.rank : CheckpointPc → Nat
  | .idle => 0
  | .copied _ => 4
  | .written => 3
  | .closed => 2
  | .renamed => 1

namespace World

variable {n m : Nat}

open Engine (HandlerError)

/-- The work of a worker, with the retries of its task. -/
def workerWork (left : TaskID → Nat) (pc : WorkerPc) : Nat :=
  pc.rank + load left 0 pc.holds

/-- The work of the scheduler: a ready task has 12 steps to go. -/
def schedulerWork (left : TaskID → Nat) (pc : SchedulerPc) : Nat :=
  pc.rank + load left 0 pc.taken + load left 12 pc.ready

/-- The work of a client. -/
def callWork (left : TaskID → Nat) (pc : CallPc) : Nat :=
  pc.rank + load left 0 pc.holds

/-- The work of the tasks in the queues: 10 steps from the buffer, 13 from the heap. -/
def queueWork (left : TaskID → Nat) (e : Engine) : Nat :=
  load left 10 e.buffer.contents + load left 13 e.heap.inner

/-- All work there is, for the given number of retries of each task. -/
def workFor (left : TaskID → Nat) (s : World n m) : Nat :=
  queueWork left s.engine + schedulerWork left s.scheduler +
    ∑ w, workerWork left (s.workers w) + ∑ c, callWork left (s.calls c) + s.checkpointer.rank

/-- The work that is left. -/
def work (s : World n m) : Nat :=
  workFor s.engine.retriesLeft s

section Work

variable {left left' : TaskID → Nat}

theorem workerWork_mono
    (h : ∀ id, left' id ≤ left id)
    (pc : WorkerPc) :
    workerWork left' pc ≤ workerWork left pc :=
  Nat.add_le_add_left (load_mono h _) _

theorem schedulerWork_mono
    (h : ∀ id, left' id ≤ left id)
    (pc : SchedulerPc) :
    schedulerWork left' pc ≤ schedulerWork left pc :=
  Nat.add_le_add (Nat.add_le_add_left (load_mono h _) _) (load_mono h _)

theorem callWork_mono
    (h : ∀ id, left' id ≤ left id)
    (pc : CallPc) :
    callWork left' pc ≤ callWork left pc :=
  Nat.add_le_add_left (load_mono h _) _

theorem queueWork_mono
    (h : ∀ id, left' id ≤ left id)
    (e : Engine) :
    queueWork left' e ≤ queueWork left e :=
  Nat.add_le_add (load_mono h _) (load_mono h _)

/-- A worker lowers the work if it lowers its own and that of the queues together. -/
theorem workFor_lt_of_worker
    {s s' : World n m} {w : Fin n} {pc : WorkerPc}
    (hacted : Acted (.worker w) s s')
    (hpc : s'.workers w = pc)
    (hleft : ∀ id, left' id ≤ left id)
    (hless : queueWork left' s'.engine + workerWork left' pc <
      queueWork left s.engine + workerWork left (s.workers w)) :
    workFor left' s' < workFor left s := by
  have hscheduler := schedulerWork_mono hleft s.scheduler
  have hcalls : ∑ c, callWork left' (s.calls c) ≤ ∑ c, callWork left (s.calls c) :=
    Finset.sum_le_sum fun c _ => callWork_mono hleft (s.calls c)
  have hworkers := Lib.sum_add_le (fun v => workerWork left (s.workers v))
    (fun v => workerWork left' (s'.workers v)) w (by
      intro v hv
      rw [hacted.workers v (fun h => hv (Place.worker.inj h).symm)]
      exact workerWork_mono hleft _)
  have hcalls' : ∑ c, callWork left' (s'.calls c) = ∑ c, callWork left' (s.calls c) :=
    Finset.sum_congr rfl fun c _ => by rw [hacted.calls c (by simp)]
  simp only [hpc] at hworkers
  unfold workFor
  rw [hacted.scheduler (by simp), hacted.checkpointer, hcalls']
  omega

/-- A client lowers the work if it lowers its own and that of the queues together. -/
theorem workFor_lt_of_call
    {s s' : World n m} {c : Fin m} {pc : CallPc}
    (hacted : Acted (.call c) s s')
    (hpc : s'.calls c = pc)
    (hleft : ∀ id, left' id ≤ left id)
    (hless : queueWork left' s'.engine + callWork left' pc <
      queueWork left s.engine + callWork left (s.calls c)) :
    workFor left' s' < workFor left s := by
  have hscheduler := schedulerWork_mono hleft s.scheduler
  have hworkers : ∑ w, workerWork left' (s.workers w) ≤ ∑ w, workerWork left (s.workers w) :=
    Finset.sum_le_sum fun w _ => workerWork_mono hleft (s.workers w)
  have hcalls := Lib.sum_add_le (fun d => callWork left (s.calls d))
    (fun d => callWork left' (s'.calls d)) c (by
      intro d hd
      rw [hacted.calls d (fun h => hd (Place.call.inj h).symm)]
      exact callWork_mono hleft _)
  have hworkers' : ∑ w, workerWork left' (s'.workers w) = ∑ w, workerWork left' (s.workers w) :=
    Finset.sum_congr rfl fun w _ => by rw [hacted.workers w (by simp)]
  simp only [hpc] at hcalls
  unfold workFor
  rw [hacted.scheduler (by simp), hacted.checkpointer, hworkers']
  omega

/-- The scheduler lowers the work if it lowers its own and that of the queues together. -/
theorem workFor_lt_of_scheduler
    {s s' : World n m}
    (hacted : Acted .scheduler s s')
    (hleft : ∀ id, left' id ≤ left id)
    (hless : queueWork left' s'.engine + schedulerWork left' s'.scheduler <
      queueWork left s.engine + schedulerWork left s.scheduler) :
    workFor left' s' < workFor left s := by
  have hworkers : ∑ w, workerWork left' (s'.workers w) ≤ ∑ w, workerWork left (s.workers w) :=
    Finset.sum_le_sum fun w _ => by
      rw [hacted.workers w (by simp)]
      exact workerWork_mono hleft _
  have hcalls : ∑ c, callWork left' (s'.calls c) ≤ ∑ c, callWork left (s.calls c) :=
    Finset.sum_le_sum fun c _ => by
      rw [hacted.calls c (by simp)]
      exact callWork_mono hleft _
  unfold workFor
  rw [hacted.checkpointer]
  omega

end Work

/-- No step of a worker raises the number of retries of a task. -/
theorem WorkerStep.retriesLeft_le
    {s s' : World n m} {w : Fin n} {env : LogEnv}
    (h : WorkerStep s w env s')
    (j : TaskID) :
    s'.engine.retriesLeft j ≤ s.engine.retriesLeft j := by
  have hcounted : ∀ (t : Task) (err : HandlerError),
      (Engine.noteFailure t err).retriesLeft ≤ t.retriesLeft := by
    intro t err
    simp only [Engine.noteFailure, Task.retriesLeft]
    omega
  cases h with
  | @mark id hpc =>
      refine Engine.retriesLeft_updateTask_le s.engine id ?_ j
      exact fun t => le_rfl
  | @wrap id hpc =>
      refine Engine.retriesLeft_updateTask_le s.engine id ?_ j
      exact fun t => le_rfl
  | @succeed id hpc =>
      refine Engine.retriesLeft_updateTask_le s.engine id ?_ j
      exact fun t => le_rfl
  | @die id err hpc hfinal =>
      refine Engine.retriesLeft_updateTask_le s.engine id ?_ j
      exact fun t => hcounted t err
  | @retry id err nextAt hpc hfinal =>
      refine Engine.retriesLeft_updateTask_le s.engine id ?_ j
      exact fun t => hcounted t err
  | @write id result hpc =>
      cases result <;>
      · refine Engine.retriesLeft_updateTask_le s.engine id ?_ j
        exact fun t => le_rfl
  | _ =>
      exact le_rfl

/-- A worker that goes on with its task, or drops it, and leaves the queues alone. -/
theorem work_lt_of_rank
    {s s' : World n m} {w : Fin n} {env : LogEnv} {pc : WorkerPc}
    (h : WorkerStep s w env s')
    (hpc : s'.workers w = pc)
    (hqueues : s'.engine.buffer = s.engine.buffer ∧ s'.engine.heap = s.engine.heap)
    (hrank : pc.rank < (s.workers w).rank)
    (hholds : pc.holds = (s.workers w).holds ∨ pc.holds = []) :
    s'.work < s.work := by
  refine workFor_lt_of_worker h.acted hpc h.retriesLeft_le ?_
  have hqueue : queueWork s'.engine.retriesLeft s'.engine ≤
      queueWork s.engine.retriesLeft s.engine := by
    refine (queueWork_mono h.retriesLeft_le s'.engine).trans (le_of_eq ?_)
    rw [queueWork, queueWork, hqueues.1, hqueues.2]
  have hload : load s'.engine.retriesLeft 0 pc.holds ≤
      load s.engine.retriesLeft 0 (s.workers w).holds := by
    rcases hholds with hsame | hnone
    · rw [hsame]
      exact load_mono h.retriesLeft_le _
    · rw [hnone, load_nil]
      exact Nat.zero_le _
  unfold workerWork
  omega

/-- Every step of a worker lowers the work. -/
theorem workerStep_work
    {s s' : World n m} {w : Fin n} {env : LogEnv}
    (hcustody : Custody s)
    (h : WorkerStep s w env s') :
    s'.work < s.work := by
  have hstep := h
  cases h with
  | @dequeue id rb hpc hdeq =>
      refine workFor_lt_of_worker hstep.acted (Function.update_self _ _ _) hstep.retriesLeft_le ?_
      have hleft : (s.toWorker w (.dequeued id) { s.engine with buffer := rb }).engine.retriesLeft =
          s.engine.retriesLeft := Engine.retriesLeft_congr rfl
      rw [hleft, hpc]
      simp only [toWorker, queueWork, (RingBuffer.dequeue_done hdeq).1, load_cons, workerWork,
        WorkerPc.rank, WorkerPc.holds, load_nil]
      omega
  | @retry id err nextAt hpc hfinal =>
      -- the way back through the heap is paid for with the retry
      have hheld : id ∈ s.holdings (.worker w) := by
        simp [holdings, hpc, WorkerPc.holds]
      obtain ⟨t, ht⟩ := Option.isSome_iff_exists.mp (hcustody.registered hheld)
      have hused : (s.engine.markRetry id err nextAt).retriesLeft id + 1 =
          s.engine.retriesLeft id := by
        refine Engine.retriesLeft_markRetry ht ?_ nextAt
        simpa [Engine.failsForGood, ht] using hfinal
      refine workFor_lt_of_worker hstep.acted (Function.update_self _ _ _) hstep.retriesLeft_le ?_
      have hqueues := queueWork_mono hstep.retriesLeft_le s.engine
      have hsame : queueWork (s.engine.markRetry id err nextAt).retriesLeft
          (s.engine.markRetry id err nextAt) =
          queueWork (s.engine.markRetry id err nextAt).retriesLeft s.engine := rfl
      simp only [toWorker] at hqueues ⊢
      rw [hsame, hpc]
      simp only [workerWork, WorkerPc.rank, WorkerPc.holds, load_cons, load_nil]
      omega
  | @repush id err hpc =>
      refine workFor_lt_of_worker hstep.acted (Function.update_self _ _ _) hstep.retriesLeft_le ?_
      have hleft : (s.engine.pushHeap id).retriesLeft = s.engine.retriesLeft :=
        Engine.retriesLeft_congr (Engine.pushHeap_tasks _ _)
      simp only [toWorker, hleft, queueWork, Engine.pushHeap_buffer,
        load_perm (Engine.pushHeap_perm s.engine id), load_cons, workerWork, hpc, WorkerPc.rank,
        WorkerPc.holds, load_nil]
      omega
  | mark hpc | wrap hpc | logStart hpc | handle result hpc | succeed hpc | die hpc hfinal
  | logDead hpc | logRetry hpc =>
      exact work_lt_of_rank hstep (Function.update_self _ _ _) ⟨rfl, rfl⟩
        (by simp [hpc, WorkerPc.rank]) (Or.inl (by rw [hpc]; rfl))
  | logComplete hpc | bury hpc | findRunning hpc hstate | findMoved hpc hstate =>
      exact work_lt_of_rank hstep (Function.update_self _ _ _) ⟨rfl, rfl⟩
        (by simp [hpc, WorkerPc.rank]) (Or.inr rfl)
  | @write id result hpc =>
      refine work_lt_of_rank hstep (Function.update_self _ _ _) ?_ (by simp [hpc, WorkerPc.rank])
        (Or.inr rfl)
      cases result <;> exact ⟨rfl, rfl⟩

theorem SchedulerStep.retriesLeft_le
    {s s' : World n m} {now : Time}
    (h : SchedulerStep s now s')
    (j : TaskID) :
    s'.engine.retriesLeft j ≤ s.engine.retriesLeft j := by
  cases h with
  | promote hpc =>
      exact Engine.retriesLeft_promoteReady_le s.engine now j
  | @expire id ready hpc =>
      refine Engine.retriesLeft_updateTask_le s.engine id ?_ j
      exact fun t => le_rfl
  | @postpone id ready hpc =>
      refine Engine.retriesLeft_updateTask_le s.engine id ?_ j
      exact fun t => le_rfl
  | _ =>
      exact le_rfl

/-- The steps of the scheduler that are taken: something is due, and the buffer has room. -/
def Useful (s : World n m) (now : Time) : Prop :=
  match s.scheduler with
  | .loop [] => (s.engine.promoteReady now).1 ≠ []
  | .enqueueing _ _ => s.engine.buffer.size < s.engine.buffer.cap
  | _ => True

/-- The scheduler goes on with less to do, and leaves the queues alone. -/
theorem work_lt_of_schedulerWork
    {s s' : World n m} {now : Time}
    (h : SchedulerStep s now s')
    (hqueues : s'.engine.buffer = s.engine.buffer ∧ s'.engine.heap = s.engine.heap)
    (hless : schedulerWork s.engine.retriesLeft s'.scheduler <
      schedulerWork s.engine.retriesLeft s.scheduler) :
    s'.work < s.work := by
  refine workFor_lt_of_scheduler h.acted h.retriesLeft_le ?_
  have hqueue : queueWork s'.engine.retriesLeft s'.engine ≤
      queueWork s.engine.retriesLeft s.engine := by
    refine (queueWork_mono h.retriesLeft_le s'.engine).trans (le_of_eq ?_)
    rw [queueWork, queueWork, hqueues.1, hqueues.2]
  have hmono := schedulerWork_mono h.retriesLeft_le s'.scheduler
  omega

/-- What `PromoteReady` takes from the heap has one step less to go. -/
theorem queueWork_promoteReady
    (left : TaskID → Nat) (e : Engine) (now : Time) :
    queueWork left (e.promoteReady now).2 + load left 12 (e.promoteReady now).1 +
      (e.promoteReady now).1.length = queueWork left e := by
  have hperm : load left 13 ((e.promoteReady now).1 ++ (e.promoteReady now).2.heap.inner) =
      load left 13 e.heap.inner :=
    load_perm (Engine.promoteReady_promoted e now).perm
  have hbuffer : (e.promoteReady now).2.buffer = e.buffer := rfl
  rw [load_append, load_succ] at hperm
  rw [queueWork, queueWork, hbuffer]
  omega

/-- Such a step of the scheduler lowers the work. -/
theorem schedulerStep_work
    {s s' : World n m} {now : Time}
    (hopen : s.engine.buffer.closed = false)
    (huseful : s.Useful now)
    (hstep : s.schedulerStep now = some s') :
    s'.work < s.work := by
  have h := schedulerStep_cases hstep
  cases hpc : s.scheduler with
  | loop ready =>
      cases ready with
      | nil =>
          simp only [Useful, hpc] at huseful
          simp only [schedulerStep, hpc, Option.some.injEq] at hstep
          subst hstep
          have hlength := List.length_pos_iff.mpr huseful
          refine workFor_lt_of_scheduler h.acted h.retriesLeft_le ?_
          have hmono := queueWork_mono h.retriesLeft_le (s.engine.promoteReady now).2
          have hload : load (s.engine.promoteReady now).2.retriesLeft 12
              (s.engine.promoteReady now).1 ≤
              load s.engine.retriesLeft 12 (s.engine.promoteReady now).1 :=
            load_mono h.retriesLeft_le _
          have hheap := queueWork_promoteReady s.engine.retriesLeft s.engine now
          simp only [toScheduler] at hmono ⊢
          simp only [hpc, schedulerWork, SchedulerPc.rank, SchedulerPc.taken, SchedulerPc.ready,
            load_nil]
          omega
      | cons id ready =>
          simp only [schedulerStep, hpc] at hstep
          split_ifs at hstep <;> cases hstep
          all_goals
            refine work_lt_of_schedulerWork h ⟨rfl, rfl⟩ ?_
            simp only [toScheduler, hpc, schedulerWork, SchedulerPc.rank, SchedulerPc.taken,
              SchedulerPc.ready, load_nil, load_cons]
            omega
  | expiring id ready | postponing id ready =>
      simp only [schedulerStep, hpc, Option.some.injEq] at hstep
      subst hstep
      refine work_lt_of_schedulerWork h ⟨rfl, rfl⟩ ?_
      simp only [toScheduler, hpc, schedulerWork, SchedulerPc.rank, SchedulerPc.taken,
        SchedulerPc.ready, load_nil, load_cons]
      omega
  | enqueueing id ready =>
      simp only [Useful, hpc] at huseful
      obtain ⟨rb, henq⟩ : ∃ rb, s.engine.buffer.enqueue id = .done rb :=
        RingBuffer.enqueue_of_lt hopen huseful
      simp only [schedulerStep, hpc, henq, Option.some.injEq] at hstep
      subst hstep
      refine workFor_lt_of_scheduler h.acted h.retriesLeft_le ?_
      have hleft : (s.toScheduler (.loop ready) { s.engine with buffer := rb }).engine.retriesLeft =
          s.engine.retriesLeft := Engine.retriesLeft_congr rfl
      rw [hleft]
      simp only [toScheduler, queueWork, (RingBuffer.enqueue_done henq).1, load_append, load_cons,
        load_nil, hpc, schedulerWork, SchedulerPc.rank, SchedulerPc.taken, SchedulerPc.ready]
      omega
  | repushing id ready =>
      simp only [schedulerStep, hpc, Option.some.injEq] at hstep
      subst hstep
      refine workFor_lt_of_scheduler h.acted h.retriesLeft_le ?_
      have hleft : (s.engine.pushHeap id).retriesLeft = s.engine.retriesLeft :=
        Engine.retriesLeft_congr (Engine.pushHeap_tasks _ _)
      simp only [toScheduler, hleft, queueWork, Engine.pushHeap_buffer,
        load_perm (Engine.pushHeap_perm s.engine id), load_cons, load_nil, hpc, schedulerWork,
        SchedulerPc.rank, SchedulerPc.taken, SchedulerPc.ready]
      omega
  | stopped =>
      simp [schedulerStep, hpc] at hstep

theorem CallStep.retriesLeft_le
    {s s' : World n m} {c : Fin m} {env : LogEnv}
    (h : CallStep s c env s')
    (j : TaskID) :
    s'.engine.retriesLeft j ≤ s.engine.retriesLeft j := by
  cases h with
  | @undo task hpc =>
      exact Engine.retriesLeft_unregister_le s.engine task j
  | _ =>
      exact le_rfl

/-- A client that goes on, and puts nothing on the queues. -/
theorem work_lt_of_callRank
    {s s' : World n m} {c : Fin m} {env : LogEnv} {pc : CallPc}
    (h : CallStep s c env s')
    (hpc : s'.calls c = pc)
    (hbuffer : s'.engine.buffer = s.engine.buffer)
    (hheap : s'.engine.heap.inner.Subperm s.engine.heap.inner)
    (hrank : pc.rank < (s.calls c).rank)
    (hholds : pc.holds = (s.calls c).holds ∨ pc.holds = []) :
    s'.work < s.work := by
  refine workFor_lt_of_call h.acted hpc h.retriesLeft_le ?_
  have hqueue : queueWork s'.engine.retriesLeft s'.engine ≤
      queueWork s.engine.retriesLeft s.engine := by
    refine (queueWork_mono h.retriesLeft_le s'.engine).trans ?_
    rw [queueWork, queueWork, hbuffer]
    exact Nat.add_le_add_left (load_subperm hheap) _
  have hload : load s'.engine.retriesLeft 0 pc.holds ≤
      load s.engine.retriesLeft 0 (s.calls c).holds := by
    rcases hholds with hsame | hnone
    · rw [hsame]
      exact load_mono h.retriesLeft_le _
    · rw [hnone, load_nil]
      exact Nat.zero_le _
  unfold callWork
  omega

/-- Every later step of a client lowers the work. -/
theorem callStep_work
    {s s' : World n m} {c : Fin m} {env : LogEnv}
    (h : CallStep s c env s') :
    s'.work < s.work := by
  have hstep := h
  cases h with
  | @push id hpc =>
      refine workFor_lt_of_call hstep.acted (Function.update_self _ _ _) hstep.retriesLeft_le ?_
      have hleft : (s.engine.pushHeap id).retriesLeft = s.engine.retriesLeft :=
        Engine.retriesLeft_congr (Engine.pushHeap_tasks _ _)
      simp only [toCall, hleft, queueWork, Engine.pushHeap_buffer,
        load_perm (Engine.pushHeap_perm s.engine id), load_cons, callWork, hpc, CallPc.rank,
        CallPc.holds, load_nil]
      omega
  | @enqueue id rb hpc henq =>
      refine workFor_lt_of_call hstep.acted (Function.update_self _ _ _) hstep.retriesLeft_le ?_
      have hleft : ({ s.engine with buffer := rb } : Engine).retriesLeft = s.engine.retriesLeft :=
        Engine.retriesLeft_congr rfl
      simp only [toCall, hleft, queueWork, (RingBuffer.enqueue_done henq).1, load_append, load_cons,
        load_nil, callWork, hpc, CallPc.rank, CallPc.holds]
      omega
  | @remove id hpc =>
      exact work_lt_of_callRank hstep (Function.update_self _ _ _) rfl
        (Engine.removeHeap_sublist s.engine id) (by simp [hpc, CallPc.rank]) (Or.inr rfl)
  | marshal hpc hjson | refuse hpc | logEnqueue hpc hok | failEnqueue hpc hok | toHeap hpc hstate
  | toBuffer hpc hstate =>
      exact work_lt_of_callRank hstep (Function.update_self _ _ _) rfl (List.Subperm.refl _)
        (by simp [hpc, CallPc.rank]) (Or.inl (by rw [hpc]; rfl))
  | undo hpc | turnAway hpc | logCancel hpc hok | failCancel hpc hok =>
      exact work_lt_of_callRank hstep (Function.update_self _ _ _) rfl (List.Subperm.refl _)
        (by simp [hpc, CallPc.rank]) (Or.inr rfl)

/-- A checkpoint that has begun has less to do after every step. -/
theorem checkpointStep_work
    {s s' : World n m} {order : List TaskID}
    (hbegun : s.checkpointer ≠ .idle)
    (hstep : s.checkpointStep order = some s') :
    s'.work < s.work := by
  cases checkpointStep_cases hstep with
  | copy hpc horder =>
      exact absurd hpc hbegun
  | write hpc | close hpc | rename hpc | reopen hpc =>
      simp only [work, workFor, queueWork, hpc, CheckpointPc.rank]
      exact Nat.add_lt_add_left (by decide) _

/-- The steps after which no new call is made, no checkpoint begun and no task postponed. -/
def Closing (s : World n m) : Event n m → Prop
  | .worker _ _ _ _ => True
  | .scheduler now => s.Useful now
  | .submit _ _ _ _ => False
  | .cancel _ _ _ => False
  | .call _ _ => True
  | .checkpoint _ => s.checkpointer ≠ .idle

/-- Nobody has anything to do. -/
structure AtRest (s : World n m) : Prop where
  workers : ∀ w, s.workers w = .idle
  calls : ∀ c, s.calls c = .idle
  scheduler : s.scheduler = .loop []
  checkpointer : s.checkpointer = .idle
  buffer : s.engine.buffer.contents = []
  heap : s.engine.heap.inner = []

/-- The facts that the steps rely on: the buffer is open, and the scheduler has not stopped. -/
structure InService (s : World n m) : Prop where
  custody : Custody s
  bufferOpen : s.engine.buffer.closed = false
  scheduler : s.scheduler ≠ .stopped

/-- No step closes the buffer, and the scheduler only stops at a closed one. -/
theorem step_inService
    {s s' : World n m} {e : Event n m}
    (h : InService s)
    (hstep : s.step e = some s') :
    InService s' := by
  have hcustody := step_custody h.custody hstep
  cases e with
  | worker w env result delay =>
      have hcases := workerStep_cases hstep
      refine ⟨hcustody, hcases.closed.trans h.bufferOpen, ?_⟩
      rw [hcases.acted.scheduler (by simp)]
      exact h.scheduler
  | scheduler now =>
      have hcases := schedulerStep_cases hstep
      refine ⟨hcustody, hcases.closed.trans h.bufferOpen, ?_⟩
      cases hcases with
      | stop hpc henq =>
          exact absurd henq (RingBuffer.enqueue_ne_closed h.bufferOpen _)
      | _ =>
          simp [toScheduler]
  | submit c task generatedID now =>
      rcases submitStep_cases hstep with rfl | ⟨-, -, -, rfl⟩
      · exact h
      · exact ⟨hcustody, h.bufferOpen, h.scheduler⟩
  | cancel c id now =>
      rcases cancelStep_cases hstep with rfl | ⟨-, t, -, -, rfl⟩
      · exact h
      · exact ⟨hcustody, h.bufferOpen, h.scheduler⟩
  | call c env =>
      have hcases := callStep_cases hstep
      refine ⟨hcustody, hcases.closed.trans h.bufferOpen, ?_⟩
      rw [hcases.acted.scheduler (by simp)]
      exact h.scheduler
  | checkpoint order =>
      have hsame := checkpointStep_unmoved hstep
      refine ⟨hcustody, ?_, ?_⟩
      · rw [hsame.buffer]
        exact h.bufferOpen
      · rw [hsame.scheduler]
        exact h.scheduler

theorem start_inService
    {cfg : Engine.Config} {d : Engine.Disk} {order : List TaskID} {e : Engine}
    (h : Engine.Recovered cfg d order e) :
    InService (start e d order : World n m) := by
  obtain ⟨loaded, last, hload, horder, hall⟩ := h.restarted
  exact ⟨start_custody h, hall.bufferOpen, by simp [start]⟩

/-- Every such step lowers the work. -/
theorem step_work
    {s s' : World n m} {e : Event n m}
    (h : InService s)
    (hclosing : s.Closing e)
    (hstep : s.step e = some s') :
    s'.work < s.work := by
  cases e with
  | worker w env result delay =>
      exact workerStep_work h.custody (workerStep_cases hstep)
  | scheduler now =>
      exact schedulerStep_work h.bufferOpen hclosing hstep
  | submit c task generatedID now =>
      cases hclosing
  | cancel c id now =>
      cases hclosing
  | call c env =>
      exact callStep_work (callStep_cases hstep)
  | checkpoint order =>
      exact checkpointStep_work hclosing hstep

section Enabled

variable {s : World n m}

theorem exists_workerStep
    {w : Fin n}
    (hpc : s.workers w ≠ .idle) :
    ∃ t, s.step (.worker w (LogEnv.noError 0 0) none 0) = some t := by
  cases hw : s.workers w with
  | idle =>
      exact absurd hw hpc
  | returned id result =>
      cases result with
      | none =>
          simp [step, workerStep, hw]
      | some err =>
          by_cases hfinal : s.engine.failsForGood id err = true <;>
            simp [step, workerStep, hw, hfinal]
  | checking id result =>
      by_cases hstate : s.engine.stateOf id = some .running <;>
        simp [step, workerStep, hw, hstate]
  | _ =>
      simp [step, workerStep, hw]

theorem exists_dequeue
    {w : Fin n}
    (hpc : s.workers w = .idle)
    (hbuffer : s.engine.buffer.contents ≠ []) :
    ∃ t, s.step (.worker w (LogEnv.noError 0 0) none 0) = some t := by
  have hsize : 0 < s.engine.buffer.size := by
    rw [← RingBuffer.contents_length]
    exact List.length_pos_iff.mpr hbuffer
  simp [step, workerStep, hpc, RingBuffer.dequeue, hsize]

theorem size_lt_of_empty
    (hbuffer : s.engine.buffer.contents = []) :
    s.engine.buffer.size < s.engine.buffer.cap := by
  rw [← RingBuffer.contents_length, hbuffer]
  exact s.engine.buffer.cap_pos

theorem exists_callStep
    {c : Fin m}
    (hopen : s.engine.buffer.closed = false)
    (hbuffer : s.engine.buffer.contents = [])
    (hpc : s.calls c ≠ .idle) :
    ∃ t, s.step (.call c (LogEnv.noError 0 0)) = some t := by
  cases hc : s.calls c with
  | idle =>
      exact absurd hc hpc
  | registered task =>
      by_cases hjson : Engine.marshalable ((s.engine.tasks.get task.id).getD task) = true <;>
        simp [step, callStep, hc, hjson]
  | marshalled task data =>
      by_cases hok : (s.engine.append s.disk .enqueue task.id (.ofTask data)
          (LogEnv.noError 0 0)).2.2 = true <;>
        simp [step, callStep, hc, hok]
  | logged id =>
      by_cases hstate : s.engine.stateOf id = some .scheduled <;>
        simp [step, callStep, hc, hstate]
  | enqueueing id =>
      obtain ⟨rb, henq⟩ : ∃ rb, s.engine.buffer.enqueue id = .done rb :=
        RingBuffer.enqueue_of_lt hopen (size_lt_of_empty hbuffer)
      simp [step, callStep, hc, henq]
  | cancelling id =>
      by_cases hok : (s.engine.append s.disk .cancel id .nil (LogEnv.noError 0 0)).2.2 = true <;>
        simp [step, callStep, hc, hok]
  | undoing task | pushing id | removing id =>
      simp [step, callStep, hc]

/-- A clock at the time of the root promotes something. -/
theorem promoteReady_ne_nil
    (e : Engine)
    (hheap : e.heap.inner ≠ []) :
    ∃ now, (e.promoteReady now).1 ≠ [] := by
  obtain ⟨root, rest, hinner⟩ := List.exists_cons_of_ne_nil hheap
  have hroot : e.heap.inner[0]? = some root := by
    rw [hinner]
    rfl
  obtain ⟨dh, hpop, -⟩ := Lib.IndexedHeap.pop_spec e.scheduledAt hroot
  have hdue : DelayedHeap.due e.scheduledAt (e.scheduledAt root) e.heap = some root := by
    simp [DelayedHeap.due, hroot]
  refine ⟨e.scheduledAt root, ?_⟩
  have hlength : e.heap.inner.length = rest.length + 1 := by
    rw [hinner, List.length_cons]
  simp [Engine.promoteReady, DelayedHeap.promoteReady, hlength, DelayedHeap.promoteLoop, hdue,
    hpop]

/-- The scheduler can go on when the buffer is empty, unless there is nothing on the heap. -/
theorem exists_schedulerStep
    (hopen : s.engine.buffer.closed = false)
    (hbuffer : s.engine.buffer.contents = [])
    (hrunning : s.scheduler ≠ .stopped)
    (hpc : s.scheduler ≠ .loop [] ∨ s.engine.heap.inner ≠ []) :
    ∃ now t, s.Useful now ∧ s.step (.scheduler now) = some t := by
  cases hs : s.scheduler with
  | loop ready =>
      cases ready with
      | nil =>
          have hheap : s.engine.heap.inner ≠ [] := hpc.resolve_left fun hne => hne hs
          obtain ⟨now, hnow⟩ := promoteReady_ne_nil s.engine hheap
          exact ⟨now, by simp [Useful, step, schedulerStep, hs, hnow]⟩
      | cons id ready =>
          refine ⟨0, ?_⟩
          by_cases hstate : s.engine.stateOf id = some .cancelled
          · simp [Useful, step, schedulerStep, hs, hstate]
          · by_cases hexpired : s.engine.hasExpired id 0 = true <;>
              simp [Useful, step, schedulerStep, hs, hstate, hexpired]
  | enqueueing id ready =>
      have hroom := size_lt_of_empty hbuffer
      obtain ⟨rb, henq⟩ : ∃ rb, s.engine.buffer.enqueue id = .done rb :=
        RingBuffer.enqueue_of_lt hopen hroom
      exact ⟨0, by simp [Useful, step, schedulerStep, hs, henq, hroom]⟩
  | expiring id ready | postponing id ready | repushing id ready =>
      exact ⟨0, by simp [Useful, step, schedulerStep, hs]⟩
  | stopped =>
      exact absurd hs hrunning

/-- As long as somebody has something to do, somebody can do it. -/
theorem atRest_or_exists_step
    (hworker : 0 < n)
    (h : InService s) :
    AtRest s ∨ ∃ e t, s.Closing e ∧ s.step e = some t := by
  by_cases hworkers : ∀ w, s.workers w = .idle
  swap
  · obtain ⟨w, hw⟩ := not_forall.mp hworkers
    obtain ⟨t, ht⟩ := exists_workerStep hw
    exact Or.inr ⟨.worker w (LogEnv.noError 0 0) none 0, t, trivial, ht⟩
  by_cases hbuffer : s.engine.buffer.contents = []
  swap
  · obtain ⟨t, ht⟩ := exists_dequeue (hworkers ⟨0, hworker⟩) hbuffer
    exact Or.inr ⟨.worker ⟨0, hworker⟩ (LogEnv.noError 0 0) none 0, t, trivial, ht⟩
  by_cases hcalls : ∀ c, s.calls c = .idle
  swap
  · obtain ⟨c, hc⟩ := not_forall.mp hcalls
    obtain ⟨t, ht⟩ := exists_callStep h.bufferOpen hbuffer hc
    exact Or.inr ⟨.call c (LogEnv.noError 0 0), t, trivial, ht⟩
  by_cases hscheduler : s.scheduler ≠ .loop [] ∨ s.engine.heap.inner ≠ []
  · obtain ⟨now, t, huseful, ht⟩ :=
      exists_schedulerStep h.bufferOpen hbuffer h.scheduler hscheduler
    exact Or.inr ⟨.scheduler now, t, huseful, ht⟩
  rw [not_or, not_not, not_not] at hscheduler
  by_cases hcheckpoint : s.checkpointer = .idle
  · exact Or.inl ⟨hworkers, hcalls, hscheduler.1, hcheckpoint, hbuffer, hscheduler.2⟩
  · refine Or.inr ⟨.checkpoint [], ?_⟩
    cases hpc : s.checkpointer with
    | idle =>
        exact absurd hpc hcheckpoint
    | copied snap | written | closed | renamed =>
        simp [Closing, step, checkpointStep, hpc]

end Enabled

/-- At rest, nothing is kept anywhere. -/
theorem AtRest.not_kept
    {s : World n m}
    (h : AtRest s)
    (id : TaskID) :
    ¬ Kept s id := by
  rintro (hbuffer | hheap | hscheduler | ⟨w, hw⟩)
  · rw [h.buffer] at hbuffer
    cases hbuffer
  · rw [h.heap] at hheap
    cases hheap
  · rw [h.scheduler] at hscheduler
    cases hscheduler
  · rw [h.workers w] at hw
    cases hw

instance (s : World n m) (now : Time) : Decidable (s.Useful now) := by
  unfold Useful
  generalize s.scheduler = pc
  exact match pc with
    | .loop [] | .loop (_ :: _) | .expiring _ _ | .enqueueing _ _ | .postponing _ _
    | .repushing _ _ | .stopped => inferInstance

instance (s : World n m) (e : Event n m) : Decidable (s.Closing e) :=
  Event.decidable (fun _ _ _ _ => instDecidableTrue)
    (fun now => inferInstanceAs (Decidable (s.Useful now))) (fun _ _ _ _ => instDecidableFalse)
    (fun _ _ _ => instDecidableFalse) (fun _ _ => instDecidableTrue)
    (fun _ => inferInstanceAs (Decidable (_ ≠ _))) e

/-- A task fails, comes back from the heap and is completed. -/
def failsOnce : List (Event 1 1) :=
  let work (result : Option HandlerError) : Event 1 1 :=
    .worker 0 (.noError 20 100) result 1000
  List.replicate 9 (work (some ⟨"timeout", false⟩)) ++
    List.replicate 3 (.scheduler 2000) ++ List.replicate 8 (work none)

end World
end TaskQueue
