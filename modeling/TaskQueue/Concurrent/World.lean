import Mathlib.Tactic
import TaskQueue.Lib.Runs
import TaskQueue.Engine.System

/-!
# The engine with its threads

The process with its goroutines interleaved: any number of workers, the scheduler, the
checkpoint goroutine and any number of clients that call `Submit` and `CancelTask`.
Every block that the Go code runs under a lock is one step (a read or a write of a
field of a task without a lock goes with the block before or after it), and an `Append`
is one step; what a thread does next is its program counter.

`accepted`, `cancelled`, `reported` and `late` are history: the tasks whose `Submit`
returned nil, those whose `CancelTask` returned nil, the final states whose record has
been appended, and the tasks on which the user handler was started after their
`CancelTask` had returned nil.
-/

namespace TaskQueue

open Lib (GoMap)
open Queue
open Wal (Log LogEnv LogRecord Snapshot)

namespace Engine

/-- The failure of a task is its last one. -/
def failsForGood (e : Engine) (id : TaskID) (err : HandlerError) : Bool :=
  (e.tasks.get id).any fun t => finalFailure t err

/-- The data of the `EntryRetry` of a task, as its fields stand when it is written. -/
def retryData (e : Engine) (id : TaskID) (err : HandlerError) : EntryData :=
  match e.tasks.get id with
  | some t => .ofRetry err.text t.retryCount (Wal.unixNano t.scheduledAt)
  | none => .nil

/-- The task is set to expire and its time is past. -/
def hasExpired (e : Engine) (id : TaskID) (now : Time) : Bool :=
  (e.tasks.get id).any fun t => expired t now

end Engine

open Engine (HandlerError)

/-- Where a worker is in an iteration of `Pool.worker`. -/
inductive WorkerPc
  /-- Before `Dequeue`. -/
  | idle
  /-- Before the pool marks the task as running. -/
  | dequeued (id : TaskID)
  /-- Before `wrapHandler` marks it once more. -/
  | marked (id : TaskID)
  /-- Before the `EntryStart`. -/
  | starting (id : TaskID)
  /-- In the user handler. -/
  | executing (id : TaskID)
  /-- Before the locked block of `handleSuccess` or `handleFailure`. -/
  | returned (id : TaskID) (result : Option HandlerError)
  /-- Before the `EntryComplete`. -/
  | completing (id : TaskID)
  /-- Before the `EntryDead`. -/
  | dying (id : TaskID) (err : HandlerError)
  /-- Before the append to the dead-letter queue. -/
  | burying (id : TaskID) (err : HandlerError)
  /-- Before the `EntryRetry`. -/
  | retrying (id : TaskID) (err : HandlerError)
  /-- Before the push to the heap. -/
  | repushing (id : TaskID) (err : HandlerError)
  /-- Before the check after the execution. -/
  | checking (id : TaskID) (result : Option HandlerError)
  /-- Before the write of the pool, the check having found the task running. -/
  | writing (id : TaskID) (result : Option HandlerError)
deriving DecidableEq, Repr

/-- Where the scheduler is in `Scheduler.Run`; `loop []` is the top of its loop. -/
inductive SchedulerPc
  /-- Before the check of the next ready task. -/
  | loop (ready : List TaskID)
  /-- Before the write of `Expired`. -/
  | expiring (id : TaskID) (ready : List TaskID)
  /-- Before `Enqueue`. -/
  | enqueueing (id : TaskID) (ready : List TaskID)
  /-- Before the write of `Scheduled`, the buffer having been full. -/
  | postponing (id : TaskID) (ready : List TaskID)
  /-- Before the push back to the heap. -/
  | repushing (id : TaskID) (ready : List TaskID)
  /-- The buffer was closed. -/
  | stopped
deriving DecidableEq, Repr

/-- Where a client is in `Submit` or `CancelTask`. -/
inductive CallPc
  | idle
  /-- The task is registered, and not yet marshalled. -/
  | registered (task : Task)
  /-- Before the `EntryEnqueue` with the given data. -/
  | marshalled (task data : Task)
  /-- Before the removal from the registry after an error. -/
  | undoing (task : Task)
  /-- Before the look at the state that decides on the queue. -/
  | logged (id : TaskID)
  /-- Before the push to the heap. -/
  | pushing (id : TaskID)
  /-- Before `Enqueue`. -/
  | enqueueing (id : TaskID)
  /-- The task is marked as cancelled; before the `EntryCancel`. -/
  | cancelling (id : TaskID)
  /-- Before the removal from the heap. -/
  | removing (id : TaskID)
deriving DecidableEq, Repr

/-- Where the checkpoint goroutine is in `checkpoint` and `rotateWAL`. -/
inductive CheckpointPc
  | idle
  /-- The registry is copied. -/
  | copied (snap : Snapshot)
  /-- The snapshot is written and renamed. -/
  | written
  /-- The log is closed. -/
  | closed
  /-- The log is renamed. -/
  | renamed
deriving DecidableEq

/-- The process with `n` workers and `m` clients, and its directory. -/
structure World (n m : Nat) where
  engine : Engine
  disk : Engine.Disk
  scheduler : SchedulerPc
  workers : Fin n → WorkerPc
  calls : Fin m → CallPc
  checkpointer : CheckpointPc
  issued : List TaskID
  accepted : List TaskID
  cancelled : List TaskID
  reported : List (TaskID × TaskState)
  late : List TaskID

namespace World

variable {n m : Nat}

/-- The next step of a thread, with what it meets: clock, I/O, the user handler. -/
inductive Event (n m : Nat)
  | worker (w : Fin n) (env : LogEnv) (result : Option HandlerError) (delay : Duration)
  | scheduler (now : Time)
  | submit (c : Fin m) (task : Task) (generatedID : TaskID) (now : Time)
  | cancel (c : Fin m) (id : TaskID) (now : Time)
  | call (c : Fin m) (env : LogEnv)
  | checkpoint (order : List TaskID)

/-- The goroutine that makes a step, if it is a worker or a client. -/
def Event.actor : Event n m → Option (Fin n ⊕ Fin m)
  | .worker w _ _ _ => some (.inl w)
  | .submit c _ _ _ => some (.inr c)
  | .cancel c _ _ => some (.inr c)
  | .call c _ => some (.inr c)
  | _ => none

/-- The step of a client. -/
def Event.ofClient (e : Event n m) : Bool :=
  e.actor.any Sum.isRight

/-- A condition on the steps can be decided if it can be for the steps of each kind. -/
def Event.decidable
    {P : Event n m → Prop}
    (worker : ∀ w env result delay, Decidable (P (.worker w env result delay)))
    (scheduler : ∀ now, Decidable (P (.scheduler now)))
    (submit : ∀ c task generatedID now, Decidable (P (.submit c task generatedID now)))
    (cancel : ∀ c id now, Decidable (P (.cancel c id now)))
    (call : ∀ c env, Decidable (P (.call c env)))
    (checkpoint : ∀ order, Decidable (P (.checkpoint order))) :
    ∀ e, Decidable (P e)
  | .worker w env result delay => worker w env result delay
  | .scheduler now => scheduler now
  | .submit c task generatedID now => submit c task generatedID now
  | .cancel c id now => cancel c id now
  | .call c env => call c env
  | .checkpoint order => checkpoint order

/-- The process after `Start`, with the given engine and directory. -/
def start (e : Engine) (d : Engine.Disk) (ids : List TaskID) : World n m where
  engine := e
  disk := d
  scheduler := .loop []
  workers := fun _ => .idle
  calls := fun _ => .idle
  checkpointer := .idle
  issued := ids
  accepted := []
  cancelled := []
  reported := []
  late := []

/-- The process after its first start, on an empty directory. -/
def initial (cfg : Engine.Config) : World n m :=
  start (System.initial cfg).engine Engine.Disk.empty []

/-- Worker `w` goes on to `pc`, and the engine is as given. -/
def toWorker (s : World n m) (w : Fin n) (pc : WorkerPc) (e : Engine) : World n m :=
  { s with engine := e, workers := Function.update s.workers w pc }

/-- Client `c` goes on to `pc`, and the engine is as given. -/
def toCall (s : World n m) (c : Fin m) (pc : CallPc) (e : Engine) : World n m :=
  { s with engine := e, calls := Function.update s.calls c pc }

/-- The scheduler goes on to `pc`, and the engine is as given. -/
def toScheduler (s : World n m) (pc : SchedulerPc) (e : Engine) : World n m :=
  { s with engine := e, scheduler := pc }

/-- The final state of a task is noted, if the `Append` of its record returned nil. -/
def report (s : World n m) (id : TaskID) (state : TaskState) (ok : Bool) : World n m :=
  { s with reported := if ok then (id, state) :: s.reported else s.reported }

/-- The user handler is called. -/
def handlerStarts (s : World n m) (id : TaskID) : World n m :=
  { s with late := if id ∈ s.cancelled then id :: s.late else s.late }

/-- A step of `Pool.worker`, through `wrapHandler`, `handleSuccess` and `handleFailure`. -/
def workerStep (s : World n m) (w : Fin n) (env : LogEnv) (result : Option HandlerError)
    (delay : Duration) : Option (World n m) :=
  match s.workers w with
  | .idle =>
      match s.engine.buffer.dequeue with
      | .done id rb => some (s.toWorker w (.dequeued id) { s.engine with buffer := rb })
      | _ => none
  | .dequeued id => some (s.toWorker w (.marked id) (s.engine.markRunning id env.now))
  | .marked id => some (s.toWorker w (.starting id) (s.engine.markRunning id env.now))
  | .starting id =>
      let r := s.engine.append s.disk .start id .nil env
      some (({ s with disk := r.2.1 }.toWorker w (.executing id) r.1).handlerStarts id)
  | .executing id => some (s.toWorker w (.returned id result) s.engine)
  | .returned id none =>
      some (s.toWorker w (.completing id) (s.engine.markCompleted id env.now))
  | .returned id (some err) =>
      if s.engine.failsForGood id err then
        some (s.toWorker w (.dying id err) (s.engine.markDead id err env.now))
      else
        some (s.toWorker w (.retrying id err)
          (s.engine.markRetry id err (env.now + delay)))
  | .completing id =>
      let r := s.engine.append s.disk .complete id .nil env
      some (({ s with disk := r.2.1 }.toWorker w (.checking id none) r.1).report id
        .completed r.2.2)
  | .dying id err =>
      let r := s.engine.append s.disk .dead id (.ofText err.text) env
      some (({ s with disk := r.2.1 }.toWorker w (.burying id err) r.1).report id
        .dead r.2.2)
  | .burying id err =>
      some (s.toWorker w (.checking id (some err)) (s.engine.pushDLQ id))
  | .retrying id err =>
      let r := s.engine.append s.disk .retry id (s.engine.retryData id err) env
      some ({ s with disk := r.2.1 }.toWorker w (.repushing id err) r.1)
  | .repushing id err =>
      some (s.toWorker w (.checking id (some err)) (s.engine.pushHeap id))
  | .checking id result =>
      if s.engine.stateOf id = some .running then
        some (s.toWorker w (.writing id result) s.engine)
      else
        some (s.toWorker w .idle s.engine)
  | .writing id result => some (s.toWorker w .idle (s.engine.poolWrite id result env.now))

/-- A step of `Scheduler.Run`. -/
def schedulerStep (s : World n m) (now : Time) : Option (World n m) :=
  match s.scheduler with
  | .loop [] =>
      let r := s.engine.promoteReady now
      some (s.toScheduler (.loop r.1) r.2)
  | .loop (id :: ready) =>
      if s.engine.stateOf id = some .cancelled then
        some (s.toScheduler (.loop ready) s.engine)
      else if s.engine.hasExpired id now then
        some (s.toScheduler (.expiring id ready) s.engine)
      else
        some (s.toScheduler (.enqueueing id ready) s.engine)
  | .expiring id ready =>
      some (s.toScheduler (.loop ready)
        (s.engine.updateTask id (Task.forceSetState · .expired)))
  | .enqueueing id ready =>
      match s.engine.buffer.enqueue id with
      | .done rb => some (s.toScheduler (.loop ready) { s.engine with buffer := rb })
      | .fail .full => some (s.toScheduler (.postponing id ready) s.engine)
      | .fail .closed => some (s.toScheduler .stopped s.engine)
      | .wait => none
  | .postponing id ready =>
      some (s.toScheduler (.repushing id ready) (s.engine.postpone id now))
  | .repushing id ready => some (s.toScheduler (.loop ready) (s.engine.pushHeap id))
  | .stopped => none

/-- The first block of `Submit`; new tasks have new IDs. -/
def submitStep (s : World n m) (c : Fin m) (task : Task) (generatedID : TaskID)
    (now : Time) : Option (World n m) :=
  match s.calls c with
  | .idle =>
      match s.engine.duplicateOf task with
      | some _ => some s
      | none =>
          let t := s.engine.prepare task generatedID now
          if t.id ∈ s.issued then
            none
          else
            some ({ s with issued := t.id :: s.issued }.toCall c (.registered t)
              (s.engine.register t))
  | _ => none

/-- The first block of `CancelTask`. -/
def cancelStep (s : World n m) (c : Fin m) (id : TaskID) (now : Time) :
    Option (World n m) :=
  match s.calls c with
  | .idle =>
      match s.engine.markCancelled id now with
      | .ok e => some (s.toCall c (.cancelling id) e)
      | .error _ => some s
  | _ => none

/-- A later step of `Submit` or `CancelTask`. -/
def callStep (s : World n m) (c : Fin m) (env : LogEnv) : Option (World n m) :=
  match s.calls c with
  | .idle => none
  | .registered task =>
      let data := (s.engine.tasks.get task.id).getD task
      if Engine.marshalable data then
        some (s.toCall c (.marshalled task data) s.engine)
      else
        some (s.toCall c (.undoing task) s.engine)
  | .marshalled task data =>
      let r := s.engine.append s.disk .enqueue task.id (.ofTask data) env
      if r.2.2 then
        some ({ s with disk := r.2.1 }.toCall c (.logged task.id) r.1)
      else
        some ({ s with disk := r.2.1 }.toCall c (.undoing task) r.1)
  | .undoing task => some (s.toCall c .idle (s.engine.unregister task))
  | .logged id =>
      if s.engine.stateOf id = some .scheduled then
        some (s.toCall c (.pushing id) s.engine)
      else
        some (s.toCall c (.enqueueing id) s.engine)
  | .pushing id =>
      some ({ s with accepted := id :: s.accepted }.toCall c .idle (s.engine.pushHeap id))
  | .enqueueing id =>
      match s.engine.buffer.enqueue id with
      | .done rb =>
          some ({ s with accepted := id :: s.accepted }.toCall c .idle
            { s.engine with buffer := rb })
      | .fail _ => some (s.toCall c .idle s.engine)
      | .wait => none
  | .cancelling id =>
      let r := s.engine.append s.disk .cancel id .nil env
      if r.2.2 then
        some (({ s with disk := r.2.1 }.toCall c (.removing id) r.1).report id
          .cancelled true)
      else
        some ({ s with disk := r.2.1 }.toCall c .idle r.1)
  | .removing id =>
      some ({ s with cancelled := id :: s.cancelled }.toCall c .idle
        (s.engine.removeHeap id))

/-- A step of `checkpoint` and `rotateWAL`. -/
def checkpointStep (s : World n m) (order : List TaskID) : Option (World n m) :=
  match s.checkpointer with
  | .idle =>
      if s.engine.tasks.Enumerates order then
        some { s with checkpointer := .copied (s.engine.takeSnapshot order) }
      else
        none
  | .copied snap =>
      some { s with disk := { s.disk with snapshot := some snap }, checkpointer := .written }
  | .written =>
      some
        { s with
          engine := { s.engine with walLog := s.engine.walLog.close }
          checkpointer := .closed }
  | .closed =>
      some
        { s with
          disk := { s.disk with walBin := [], walOld := s.disk.walBin }
          checkpointer := .renamed }
  | .renamed =>
      some
        { s with
          engine := { s.engine with walLog := Log.opened.setSeq s.engine.walLog.seq }
          checkpointer := .idle }

/-- The transitions of the process. -/
def step (s : World n m) : Event n m → Option (World n m)
  | .worker w env result delay => s.workerStep w env result delay
  | .scheduler now => s.schedulerStep now
  | .submit c task generatedID now => s.submitStep c task generatedID now
  | .cancel c id now => s.cancelStep c id now
  | .call c env => s.callStep c env
  | .checkpoint order => s.checkpointStep order

-- For the numerals of the threads: the runs over one or two of them share these proofs.
instance neZero_one : NeZero 1 := ⟨Nat.one_ne_zero⟩

instance neZero_two : NeZero 2 := ⟨two_ne_zero⟩

/-- The steps of a `Submit` that nothing interrupts. -/
def wholeSubmit (c : Fin m) (task : Task) (generatedID : TaskID) (now : Time) :
    List (Event n m) :=
  .submit c task generatedID now :: List.replicate 4 (.call c (.noError now 300))

/-- The steps of a `CancelTask` that nothing interrupts. -/
def wholeCancel (c : Fin m) (id : TaskID) (now : Time) : List (Event n m) :=
  .cancel c id now :: List.replicate 2 (.call c (.noError now 100))

/-- The steps of a worker from `Dequeue` to the call of the user handler. -/
def wholeStart (w : Fin n) (now : Time) : List (Event n m) :=
  List.replicate 4 (.worker w (.noError now 100) none 0)

end World
end TaskQueue
