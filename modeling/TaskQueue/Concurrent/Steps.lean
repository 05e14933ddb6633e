import Mathlib.Tactic
import TaskQueue.Concurrent.World
import TaskQueue.Engine.Effects

/-!
# The steps, case by case

The transitions of each kind of thread as a relation, one case for each step of its
program, with the program counter at which the step is made.  The invariants of the
interleaved process are proved by these cases.
-/

namespace TaskQueue

open Queue
open Wal (LogEnv)

namespace World

variable {n m : Nat}

open Engine (HandlerError)

/-- The steps of a worker. -/
inductive WorkerStep (s : World n m) (w : Fin n) (env : LogEnv) : World n m → Prop
  | dequeue {id : TaskID} {rb : RingBuffer TaskID}
      (hpc : s.workers w = .idle)
      (hdeq : s.engine.buffer.dequeue = .done id rb) :
      WorkerStep s w env (s.toWorker w (.dequeued id) { s.engine with buffer := rb })
  | mark {id : TaskID}
      (hpc : s.workers w = .dequeued id) :
      WorkerStep s w env (s.toWorker w (.marked id) (s.engine.markRunning id env.now))
  | wrap {id : TaskID}
      (hpc : s.workers w = .marked id) :
      WorkerStep s w env (s.toWorker w (.starting id) (s.engine.markRunning id env.now))
  | logStart {id : TaskID}
      (hpc : s.workers w = .starting id) :
      WorkerStep s w env
        (({ s with disk := (s.engine.append s.disk .start id .nil env).2.1 }.toWorker w
          (.executing id) (s.engine.append s.disk .start id .nil env).1).handlerStarts id)
  | handle {id : TaskID} (result : Option HandlerError)
      (hpc : s.workers w = .executing id) :
      WorkerStep s w env (s.toWorker w (.returned id result) s.engine)
  | succeed {id : TaskID}
      (hpc : s.workers w = .returned id none) :
      WorkerStep s w env (s.toWorker w (.completing id) (s.engine.markCompleted id env.now))
  | die {id : TaskID} {err : HandlerError}
      (hpc : s.workers w = .returned id (some err))
      (hfinal : s.engine.failsForGood id err = true) :
      WorkerStep s w env (s.toWorker w (.dying id err) (s.engine.markDead id err env.now))
  | retry {id : TaskID} {err : HandlerError} (nextAt : Time)
      (hpc : s.workers w = .returned id (some err))
      (hfinal : s.engine.failsForGood id err = false) :
      WorkerStep s w env (s.toWorker w (.retrying id err) (s.engine.markRetry id err nextAt))
  | logComplete {id : TaskID}
      (hpc : s.workers w = .completing id) :
      WorkerStep s w env
        (({ s with disk := (s.engine.append s.disk .complete id .nil env).2.1 }.toWorker w
          (.checking id none) (s.engine.append s.disk .complete id .nil env).1).report id
          .completed (s.engine.append s.disk .complete id .nil env).2.2)
  | logDead {id : TaskID} {err : HandlerError}
      (hpc : s.workers w = .dying id err) :
      WorkerStep s w env
        (({ s with disk := (s.engine.append s.disk .dead id (.ofText err.text) env).2.1
            }.toWorker w (.burying id err)
            (s.engine.append s.disk .dead id (.ofText err.text) env).1).report id
          .dead (s.engine.append s.disk .dead id (.ofText err.text) env).2.2)
  | bury {id : TaskID} {err : HandlerError}
      (hpc : s.workers w = .burying id err) :
      WorkerStep s w env (s.toWorker w (.checking id (some err)) (s.engine.pushDLQ id))
  | logRetry {id : TaskID} {err : HandlerError}
      (hpc : s.workers w = .retrying id err) :
      WorkerStep s w env
        ({ s with
           disk := (s.engine.append s.disk .retry id (s.engine.retryData id err) env).2.1
           }.toWorker w (.repushing id err)
           (s.engine.append s.disk .retry id (s.engine.retryData id err) env).1)
  | repush {id : TaskID} {err : HandlerError}
      (hpc : s.workers w = .repushing id err) :
      WorkerStep s w env (s.toWorker w (.checking id (some err)) (s.engine.pushHeap id))
  | findRunning {id : TaskID} {result : Option HandlerError}
      (hpc : s.workers w = .checking id result)
      (hstate : s.engine.stateOf id = some .running) :
      WorkerStep s w env (s.toWorker w (.writing id result) s.engine)
  | findMoved {id : TaskID} {result : Option HandlerError}
      (hpc : s.workers w = .checking id result)
      (hstate : s.engine.stateOf id ≠ some .running) :
      WorkerStep s w env (s.toWorker w .idle s.engine)
  | write {id : TaskID} {result : Option HandlerError}
      (hpc : s.workers w = .writing id result) :
      WorkerStep s w env (s.toWorker w .idle (s.engine.poolWrite id result env.now))

theorem workerStep_cases
    {s s' : World n m} {w : Fin n} {env : LogEnv} {result : Option HandlerError}
    {delay : Duration}
    (h : s.workerStep w env result delay = some s') :
    WorkerStep s w env s' := by
  unfold workerStep at h
  cases hpc : s.workers w with
  | idle =>
      simp only [hpc] at h
      split at h
      case h_1 id rb hdeq =>
        cases h
        exact .dequeue hpc hdeq
      case h_2 =>
        cases h
  | dequeued id =>
      simp only [hpc, Option.some.injEq] at h
      exact h ▸ .mark hpc
  | marked id =>
      simp only [hpc, Option.some.injEq] at h
      exact h ▸ .wrap hpc
  | starting id =>
      simp only [hpc, Option.some.injEq] at h
      exact h ▸ .logStart hpc
  | executing id =>
      simp only [hpc, Option.some.injEq] at h
      exact h ▸ .handle result hpc
  | returned id outcome =>
      cases outcome with
      | none =>
          simp only [hpc, Option.some.injEq] at h
          exact h ▸ .succeed hpc
      | some err =>
          simp only [hpc] at h
          split_ifs at h with hfinal <;> cases h
          · exact .die hpc hfinal
          · exact .retry _ hpc (by simpa using hfinal)
  | completing id =>
      simp only [hpc, Option.some.injEq] at h
      exact h ▸ .logComplete hpc
  | dying id err =>
      simp only [hpc, Option.some.injEq] at h
      exact h ▸ .logDead hpc
  | burying id err =>
      simp only [hpc, Option.some.injEq] at h
      exact h ▸ .bury hpc
  | retrying id err =>
      simp only [hpc, Option.some.injEq] at h
      exact h ▸ .logRetry hpc
  | repushing id err =>
      simp only [hpc, Option.some.injEq] at h
      exact h ▸ .repush hpc
  | checking id outcome =>
      simp only [hpc] at h
      split_ifs at h with hstate <;> cases h
      · exact .findRunning hpc hstate
      · exact .findMoved hpc hstate
  | writing id outcome =>
      simp only [hpc, Option.some.injEq] at h
      exact h ▸ .write hpc

/-- The steps of the scheduler. -/
inductive SchedulerStep (s : World n m) (now : Time) : World n m → Prop
  | promote
      (hpc : s.scheduler = .loop []) :
      SchedulerStep s now (s.toScheduler (.loop (s.engine.promoteReady now).1)
        (s.engine.promoteReady now).2)
  | skip {id : TaskID} {ready : List TaskID}
      (hpc : s.scheduler = .loop (id :: ready))
      (hstate : s.engine.stateOf id = some .cancelled) :
      SchedulerStep s now (s.toScheduler (.loop ready) s.engine)
  | findExpired {id : TaskID} {ready : List TaskID}
      (hpc : s.scheduler = .loop (id :: ready))
      (hstate : s.engine.stateOf id ≠ some .cancelled) :
      SchedulerStep s now (s.toScheduler (.expiring id ready) s.engine)
  | findReady {id : TaskID} {ready : List TaskID}
      (hpc : s.scheduler = .loop (id :: ready))
      (hstate : s.engine.stateOf id ≠ some .cancelled) :
      SchedulerStep s now (s.toScheduler (.enqueueing id ready) s.engine)
  | expire {id : TaskID} {ready : List TaskID}
      (hpc : s.scheduler = .expiring id ready) :
      SchedulerStep s now (s.toScheduler (.loop ready)
        (s.engine.updateTask id (Task.forceSetState · .expired)))
  | enqueue {id : TaskID} {ready : List TaskID} {rb : RingBuffer TaskID}
      (hpc : s.scheduler = .enqueueing id ready)
      (henq : s.engine.buffer.enqueue id = .done rb) :
      SchedulerStep s now (s.toScheduler (.loop ready) { s.engine with buffer := rb })
  | findFull {id : TaskID} {ready : List TaskID}
      (hpc : s.scheduler = .enqueueing id ready) :
      SchedulerStep s now (s.toScheduler (.postponing id ready) s.engine)
  | stop {id : TaskID} {ready : List TaskID}
      (hpc : s.scheduler = .enqueueing id ready)
      (henq : s.engine.buffer.enqueue id = .fail .closed) :
      SchedulerStep s now (s.toScheduler .stopped s.engine)
  | postpone {id : TaskID} {ready : List TaskID}
      (hpc : s.scheduler = .postponing id ready) :
      SchedulerStep s now (s.toScheduler (.repushing id ready) (s.engine.postpone id now))
  | repush {id : TaskID} {ready : List TaskID}
      (hpc : s.scheduler = .repushing id ready) :
      SchedulerStep s now (s.toScheduler (.loop ready) (s.engine.pushHeap id))

theorem schedulerStep_cases
    {s s' : World n m} {now : Time}
    (h : s.schedulerStep now = some s') :
    SchedulerStep s now s' := by
  unfold schedulerStep at h
  cases hpc : s.scheduler with
  | loop ready =>
      cases ready with
      | nil =>
          simp only [hpc, Option.some.injEq] at h
          exact h ▸ .promote hpc
      | cons id ready =>
          simp only [hpc] at h
          split_ifs at h with hstate <;> cases h
          · exact .skip hpc hstate
          · exact .findExpired hpc hstate
          · exact .findReady hpc hstate
  | expiring id ready =>
      simp only [hpc, Option.some.injEq] at h
      exact h ▸ .expire hpc
  | enqueueing id ready =>
      simp only [hpc] at h
      cases henq : s.engine.buffer.enqueue id with
      | done rb =>
          simp only [henq, Option.some.injEq] at h
          exact h ▸ .enqueue hpc henq
      | fail err =>
          cases err with
          | full =>
              simp only [henq, Option.some.injEq] at h
              exact h ▸ .findFull hpc
          | closed =>
              simp only [henq, Option.some.injEq] at h
              exact h ▸ .stop hpc henq
      | wait =>
          simp [henq] at h
  | postponing id ready =>
      simp only [hpc, Option.some.injEq] at h
      exact h ▸ .postpone hpc
  | repushing id ready =>
      simp only [hpc, Option.some.injEq] at h
      exact h ▸ .repush hpc
  | stopped =>
      simp [hpc] at h

/-- The steps of a client after the first. -/
inductive CallStep (s : World n m) (c : Fin m) (env : LogEnv) : World n m → Prop
  | marshal {task : Task}
      (hpc : s.calls c = .registered task)
      (hjson : Engine.marshalable ((s.engine.tasks.get task.id).getD task) = true) :
      CallStep s c env (s.toCall c
        (.marshalled task ((s.engine.tasks.get task.id).getD task)) s.engine)
  | refuse {task : Task}
      (hpc : s.calls c = .registered task) :
      CallStep s c env (s.toCall c (.undoing task) s.engine)
  | logEnqueue {task data : Task}
      (hpc : s.calls c = .marshalled task data)
      (hok : (s.engine.append s.disk .enqueue task.id (.ofTask data) env).2.2 = true) :
      CallStep s c env
        ({ s with disk := (s.engine.append s.disk .enqueue task.id (.ofTask data) env).2.1
           }.toCall c (.logged task.id)
           (s.engine.append s.disk .enqueue task.id (.ofTask data) env).1)
  | failEnqueue {task data : Task}
      (hpc : s.calls c = .marshalled task data)
      (hok : (s.engine.append s.disk .enqueue task.id (.ofTask data) env).2.2 = false) :
      CallStep s c env
        ({ s with disk := (s.engine.append s.disk .enqueue task.id (.ofTask data) env).2.1
           }.toCall c (.undoing task)
           (s.engine.append s.disk .enqueue task.id (.ofTask data) env).1)
  | undo {task : Task}
      (hpc : s.calls c = .undoing task) :
      CallStep s c env (s.toCall c .idle (s.engine.unregister task))
  | toHeap {id : TaskID}
      (hpc : s.calls c = .logged id)
      (hstate : s.engine.stateOf id = some .scheduled) :
      CallStep s c env (s.toCall c (.pushing id) s.engine)
  | toBuffer {id : TaskID}
      (hpc : s.calls c = .logged id)
      (hstate : s.engine.stateOf id ≠ some .scheduled) :
      CallStep s c env (s.toCall c (.enqueueing id) s.engine)
  | push {id : TaskID}
      (hpc : s.calls c = .pushing id) :
      CallStep s c env ({ s with accepted := id :: s.accepted }.toCall c .idle
        (s.engine.pushHeap id))
  | enqueue {id : TaskID} {rb : RingBuffer TaskID}
      (hpc : s.calls c = .enqueueing id)
      (henq : s.engine.buffer.enqueue id = .done rb) :
      CallStep s c env ({ s with accepted := id :: s.accepted }.toCall c .idle
        { s.engine with buffer := rb })
  | turnAway {id : TaskID}
      (hpc : s.calls c = .enqueueing id) :
      CallStep s c env (s.toCall c .idle s.engine)
  | logCancel {id : TaskID}
      (hpc : s.calls c = .cancelling id)
      (hok : (s.engine.append s.disk .cancel id .nil env).2.2 = true) :
      CallStep s c env
        (({ s with disk := (s.engine.append s.disk .cancel id .nil env).2.1 }.toCall c
          (.removing id) (s.engine.append s.disk .cancel id .nil env).1).report id
          .cancelled true)
  | failCancel {id : TaskID}
      (hpc : s.calls c = .cancelling id)
      (hok : (s.engine.append s.disk .cancel id .nil env).2.2 = false) :
      CallStep s c env
        ({ s with disk := (s.engine.append s.disk .cancel id .nil env).2.1 }.toCall c
          .idle (s.engine.append s.disk .cancel id .nil env).1)
  | remove {id : TaskID}
      (hpc : s.calls c = .removing id) :
      CallStep s c env ({ s with cancelled := id :: s.cancelled }.toCall c .idle
        (s.engine.removeHeap id))

theorem callStep_cases
    {s s' : World n m} {c : Fin m} {env : LogEnv}
    (h : s.callStep c env = some s') :
    CallStep s c env s' := by
  unfold callStep at h
  cases hpc : s.calls c with
  | idle =>
      simp [hpc] at h
  | registered task =>
      simp only [hpc] at h
      split_ifs at h with hjson <;> cases h
      · exact .marshal hpc hjson
      · exact .refuse hpc
  | marshalled task data =>
      simp only [hpc] at h
      split_ifs at h with hok <;> cases h
      · exact .logEnqueue hpc hok
      · exact .failEnqueue hpc (by simpa using hok)
  | undoing task =>
      simp only [hpc, Option.some.injEq] at h
      exact h ▸ .undo hpc
  | logged id =>
      simp only [hpc] at h
      split_ifs at h with hstate <;> cases h
      · exact .toHeap hpc hstate
      · exact .toBuffer hpc hstate
  | pushing id =>
      simp only [hpc, Option.some.injEq] at h
      exact h ▸ .push hpc
  | enqueueing id =>
      simp only [hpc] at h
      cases henq : s.engine.buffer.enqueue id with
      | done rb =>
          simp only [henq, Option.some.injEq] at h
          exact h ▸ .enqueue hpc henq
      | fail err =>
          simp only [henq, Option.some.injEq] at h
          exact h ▸ .turnAway hpc
      | wait =>
          simp [henq] at h
  | cancelling id =>
      simp only [hpc] at h
      split_ifs at h with hok <;> cases h
      · exact .logCancel hpc hok
      · exact .failCancel hpc (by simpa using hok)
  | removing id =>
      simp only [hpc, Option.some.injEq] at h
      exact h ▸ .remove hpc

/-- The first step of a `Submit`: the task is a duplicate, or it is registered. -/
theorem submitStep_cases
    {s s' : World n m} {c : Fin m} {task : Task} {generatedID : TaskID} {now : Time}
    (h : s.submitStep c task generatedID now = some s') :
    s' = s ∨
    (s.calls c = .idle ∧ s.engine.duplicateOf task = none ∧
      (s.engine.prepare task generatedID now).id ∉ s.issued ∧
      s' = { s with issued := (s.engine.prepare task generatedID now).id :: s.issued
             }.toCall c (.registered (s.engine.prepare task generatedID now))
             (s.engine.register (s.engine.prepare task generatedID now))) := by
  unfold submitStep at h
  cases hpc : s.calls c with
  | idle =>
      cases hdup : s.engine.duplicateOf task with
      | some existing =>
          simp only [hpc, hdup, Option.some.injEq] at h
          exact Or.inl h.symm
      | none =>
          simp only [hpc, hdup] at h
          split_ifs at h with hid
          cases h
          exact Or.inr ⟨rfl, rfl, hid, rfl⟩
  | _ =>
      simp [hpc] at h

/-- The first step of a `CancelTask`: it fails, or the task is marked. -/
theorem cancelStep_cases
    {s s' : World n m} {c : Fin m} {id : TaskID} {now : Time}
    (h : s.cancelStep c id now = some s') :
    s' = s ∨
    (s.calls c = .idle ∧ ∃ t, s.engine.tasks.get id = some t ∧
      Engine.cancellable t.state = true ∧
      s' = s.toCall c (.cancelling id)
        (s.engine.updateTask id (Engine.cancelledAt now))) := by
  unfold cancelStep Engine.markCancelled at h
  cases hpc : s.calls c with
  | idle =>
      cases hget : s.engine.tasks.get id with
      | none =>
          simp only [hpc, hget, Option.some.injEq] at h
          exact Or.inl h.symm
      | some t =>
          by_cases hc : Engine.cancellable t.state = true
          · simp only [hpc, hget, hc, if_true, Option.some.injEq] at h
            exact Or.inr ⟨rfl, t, rfl, hc, h.symm⟩
          · simp only [hpc, hget, hc, Bool.false_eq_true, if_false, Option.some.injEq] at h
            exact Or.inl h.symm
  | _ =>
      simp [hpc] at h

/-- The steps of `checkpoint` and `rotateWAL`. -/
inductive CheckpointStep (s : World n m) (order : List TaskID) : World n m → Prop
  | copy
      (hpc : s.checkpointer = .idle)
      (horder : s.engine.tasks.Enumerates order) :
      CheckpointStep s order { s with checkpointer := .copied (s.engine.takeSnapshot order) }
  | write {snap : Wal.Snapshot}
      (hpc : s.checkpointer = .copied snap) :
      CheckpointStep s order
        { s with disk := { s.disk with snapshot := some snap }, checkpointer := .written }
  | close
      (hpc : s.checkpointer = .written) :
      CheckpointStep s order
        { s with
          engine := { s.engine with walLog := s.engine.walLog.close }
          checkpointer := .closed }
  | rename
      (hpc : s.checkpointer = .closed) :
      CheckpointStep s order
        { s with
          disk := { s.disk with walBin := [], walOld := s.disk.walBin }
          checkpointer := .renamed }
  | reopen
      (hpc : s.checkpointer = .renamed) :
      CheckpointStep s order
        { s with
          engine := { s.engine with walLog := Wal.Log.opened.setSeq s.engine.walLog.seq }
          checkpointer := .idle }

theorem checkpointStep_cases
    {s s' : World n m} {order : List TaskID}
    (h : s.checkpointStep order = some s') :
    CheckpointStep s order s' := by
  unfold checkpointStep at h
  cases hpc : s.checkpointer with
  | idle =>
      simp only [hpc] at h
      split_ifs at h with horder
      cases h
      exact .copy hpc horder
  | copied snap =>
      simp only [hpc, Option.some.injEq] at h
      exact h ▸ .write hpc
  | written =>
      simp only [hpc, Option.some.injEq] at h
      exact h ▸ .close hpc
  | closed =>
      simp only [hpc, Option.some.injEq] at h
      exact h ▸ .rename hpc
  | renamed =>
      simp only [hpc, Option.some.injEq] at h
      exact h ▸ .reopen hpc

end World
end TaskQueue
