import Mathlib.Tactic
import TaskQueue.Engine.State

/-!
# The operations of the engine

`Submit`, `CancelTask`, `wrapHandler`, `handleSuccess`, `handleFailure` and
`checkpoint` of `internal/engine/engine.go`, the loop bodies of `Pool.worker` and
`Scheduler.Run`.  The blocks that the Go code runs under one lock are definitions
of their own; the operations taken as a whole are put together from them.
-/

namespace TaskQueue

open Lib (GoMap)
open Queue
open Wal (Log LogEnv LogRecord Snapshot)

namespace Engine

/-- The years that `Time.MarshalJSON` accepts: 0 to 9999. -/
def yearInRange (t : Time) : Bool :=
  decide (-62167219200000000000 ≤ t) && decide (t < 253402300800000000000)

/-- `json.Marshal(task)` succeeds. -/
def marshalable (t : Task) : Bool :=
  yearInRange t.createdAt && yearInRange t.scheduledAt && yearInRange t.startedAt &&
    yearInRange t.completedAt && yearInRange t.expiresAt

/-- The errors of `Submit`, with the text of the error that is wrapped. -/
inductive SubmitError
  | duplicateIdempotencyKey
  | marshal (cause : String)
  | walAppend (cause : String)
  | enqueue (err : QueueError)
deriving DecidableEq, Repr

/-- The texts of the errors of `Submit`. -/
def SubmitError.message : SubmitError → String
  | .duplicateIdempotencyKey => "engine: duplicate idempotency key"
  | .marshal cause => "engine: marshal task: " ++ cause
  | .walAppend cause => "engine: WAL append: " ++ cause
  | .enqueue err => "engine: enqueue: " ++ err.message

/-- The idempotency check of `Submit`: the ID of the task that has the key. -/
def duplicateOf (e : Engine) (task : Task) : Option TaskID :=
  if task.idempotencyKey = "" then
    none
  else
    e.idempKeys.get task.idempotencyKey

/-- The initial state of a task: a time that is not in the future is cleared. -/
def withInitialState (task : Task) (now : Time) : Task :=
  if task.scheduledAt ≠ zeroTime ∧ now < task.scheduledAt then
    { task with state := .scheduled }
  else
    { task with state := .pending, scheduledAt := zeroTime }

/-- The fields that `Submit` fills in before it registers the task. -/
def prepare (e : Engine) (task : Task) (generatedID : TaskID) (now : Time) : Task :=
  let t := withInitialState task now
  { t with
    id := if t.id = "" then generatedID else t.id
    createdAt := now
    maxRetries := if t.maxRetries = 0 then e.cfg.maxRetries else t.maxRetries
    timeout := if t.timeout = 0 then e.cfg.defaultTimeout else t.timeout }

/-- The registration of a task in `Submit`. -/
def register (e : Engine) (task : Task) : Engine :=
  { e with
    tasks := e.tasks.set task.id task
    idempKeys :=
      if task.idempotencyKey = "" then e.idempKeys
      else e.idempKeys.set task.idempotencyKey task.id }

/-- The removal of a task whose `Submit` fails before it is logged. -/
def unregister (e : Engine) (task : Task) : Engine :=
  { e with
    tasks := e.tasks.delete task.id
    idempKeys :=
      if task.idempotencyKey = "" then e.idempKeys
      else e.idempKeys.delete task.idempotencyKey }

/-- What `Submit` does in the end; `blocked` is a call that waits in `Enqueue`. -/
inductive SubmitResult
  | ok (id : TaskID)
  | duplicate (existing : Option Task)
  | error (err : SubmitError)
  | blocked (id : TaskID)

/-- The placement of a logged task in the heap or the ring buffer. -/
def place (e : Engine) (id : TaskID) (state : TaskState) : Engine × SubmitResult :=
  if state = .scheduled then
    (e.pushHeap id, .ok id)
  else
    match e.buffer.enqueue id with
    | .done rb => ({ e with buffer := rb }, .ok id)
    | .fail err => (e, .error (.enqueue err))
    | .wait => (e, .blocked id)

/--
The middle block of `Submit`: the encoding of the registered task and the `Append` of its record.
If one of them fails, the registration is taken back.
-/
def logSubmit (e : Engine) (d : Disk) (t : Task) (io : LogEnv) :
    Engine × Disk × Option SubmitError :=
  if marshalable t then
    match e.append d .enqueue t.id (.ofTask t) io with
    | (e', d', true) => (e', d', none)
    | (e', d', false) =>
        (e'.unregister t, d', some (.walAppend (e.walLog.appendError io)))
  else
    (e.unregister t, d, some (.marshal "year outside of range [0,9999]"))

/-- `Submit`. -/
def submit (e : Engine) (d : Disk) (task : Task) (generatedID : TaskID) (now : Time)
    (io : LogEnv) : Engine × Disk × SubmitResult :=
  match e.duplicateOf task with
  | some existing => (e, d, .duplicate (e.tasks.get existing))
  | none =>
      let t := e.prepare task generatedID now
      match (e.register t).logSubmit d t io with
      | (e', d', none) => ((e'.place t.id t.state).1, d', (e'.place t.id t.state).2)
      | (e', d', some err) => (e', d', .error err)

/-- The errors of `CancelTask`. -/
inductive CancelError
  | notFound (id : TaskID)
  | wrongState (id : TaskID) (state : TaskState)
  | walCancel (cause : String)
deriving DecidableEq, Repr

/-- The texts of the errors of `CancelTask`. -/
def CancelError.message : CancelError → String
  | .notFound id => "engine: task " ++ id ++ " not found"
  | .wrongState id state =>
      "engine: task " ++ id ++ " in state " ++ state.string ++ " cannot be cancelled"
  | .walCancel cause => "engine: WAL cancel: " ++ cause

/-- A task in this state can be cancelled. -/
def cancellable : TaskState → Bool
  | .pending | .scheduled => true
  | _ => false

/-- The block of `CancelTask` under `e.mu`. -/
def markCancelled (e : Engine) (id : TaskID) (now : Time) : Except CancelError Engine :=
  match e.tasks.get id with
  | none => .error (.notFound id)
  | some t =>
      if cancellable t.state then
        .ok (e.updateTask id fun t => { t with state := .cancelled, completedAt := now })
      else
        .error (.wrongState id t.state)

/-- The engine, with another log at `e.walLog`. -/
def withLog (e : Engine) (log : Log) : Engine :=
  { e with walLog := log }

/-- `CancelTask`, with the log and the files that its `Append` meets. -/
def cancelTaskMeeting (e : Engine) (log : Log) (d : Disk) (id : TaskID) (now : Time)
    (io : LogEnv) : Engine × Disk × Except CancelError Unit :=
  match e.markCancelled id now with
  | .error err => (e, d, .error err)
  | .ok marked =>
      match (marked.withLog log).append d .cancel id .nil io with
      | (e', d', true) => (e'.removeHeap id, d', .ok ())
      | (e', d', false) => (e', d', .error (.walCancel (log.appendError io)))

/-- `CancelTask`, if nobody else is at the log. -/
def cancelTask (e : Engine) (d : Disk) (id : TaskID) (now : Time) (io : LogEnv) :
    Engine × Disk × Except CancelError Unit :=
  e.cancelTaskMeeting e.walLog d id now io

/-- Mark a task as running, as `Pool.worker` and then `wrapHandler` do. -/
def markRunning (e : Engine) (id : TaskID) (now : Time) : Engine :=
  e.updateTask id fun t => { t.forceSetState .running with startedAt := now }

/-- The error of a handler: its text, and whether it is marked as non-retryable. -/
structure HandlerError where
  text : String
  nonRetryable : Bool
deriving DecidableEq, Repr

/-- The failure is the last one: it is not retryable, or the retries are used up. -/
def finalFailure (t : Task) (err : HandlerError) : Bool :=
  err.nonRetryable || decide (t.maxRetries < t.retryCount + 1)

/-- The block of `handleSuccess` under `e.mu`. -/
def markCompleted (e : Engine) (id : TaskID) (now : Time) : Engine :=
  e.updateTask id fun t => { t.forceSetState .completed with completedAt := now }

/-- The error and the count that `handleFailure` notes. -/
def noteFailure (t : Task) (err : HandlerError) : Task :=
  { t with lastError := err.text, retryCount := t.retryCount + 1 }

/-- The block of `handleFailure` under `e.mu`, for the last failure. -/
def markDead (e : Engine) (id : TaskID) (err : HandlerError) (now : Time) : Engine :=
  e.updateTask id fun t =>
    { (noteFailure t err).forceSetState .dead with completedAt := now }

/-- The block of `handleFailure` under `e.mu`, for a failure that is retried. -/
def markRetry (e : Engine) (id : TaskID) (err : HandlerError) (nextAt : Time) : Engine :=
  e.updateTask id fun t =>
    { (noteFailure t err).forceSetState .scheduled with scheduledAt := nextAt }

/-- The append to the dead-letter queue. -/
def pushDLQ (e : Engine) (id : TaskID) : Engine :=
  { e with dlq := e.dlq ++ [id] }

/-- `handleSuccess`. -/
def handleSuccess (e : Engine) (d : Disk) (id : TaskID) (now : Time) (io : LogEnv) :
    Engine × Disk :=
  let r := (e.markCompleted id now).append d .complete id .nil io
  (r.1, r.2.1)

/-- `handleFailure`; `delay` is what `retry.NextDelay` returns. -/
def handleFailure (e : Engine) (d : Disk) (id : TaskID) (err : HandlerError) (now : Time)
    (delay : Duration) (io : LogEnv) : Engine × Disk :=
  match e.tasks.get id with
  | none => (e, d)
  | some t =>
      if finalFailure t err then
        let r := (e.markDead id err now).append d .dead id (.ofText err.text) io
        (r.1.pushDLQ id, r.2.1)
      else
        let r :=
          (e.markRetry id err (now + delay)).append d .retry id
            (.ofRetry err.text (t.retryCount + 1) (Wal.unixNano (now + delay))) io
        (r.1.pushHeap id, r.2.1)

/-- The write after the check of `Pool.worker` that the task is still running. -/
def poolWrite (e : Engine) (id : TaskID) (result : Option HandlerError) (now : Time) :
    Engine :=
  match result with
  | some err =>
      e.updateTask id fun t => { t.forceSetState .failed with lastError := err.text }
  | none =>
      e.updateTask id fun t => { t.forceSetState .completed with completedAt := now }

/-- The end of an iteration of `Pool.worker`. -/
def afterExecution (e : Engine) (id : TaskID) (result : Option HandlerError) (now : Time) :
    Engine :=
  if e.stateOf id = some .running then
    e.poolWrite id result now
  else
    e

/-- The start of an iteration of `Pool.worker` up to the call of the user handler. -/
def startTask (e : Engine) (d : Disk) (now : Time) (io : LogEnv) :
    Option (TaskID × Engine × Disk) :=
  match e.buffer.dequeue with
  | .done id rb =>
      let marked := ({ e with buffer := rb }.markRunning id now).markRunning id now
      let r := marked.append d .start id .nil io
      some (id, r.1, r.2.1)
  | _ => none

/-- The rest of an iteration, after the user handler has returned. -/
def finishTask (e : Engine) (d : Disk) (id : TaskID) (result : Option HandlerError)
    (now : Time) (delay : Duration) (io : LogEnv) : Engine × Disk :=
  let r :=
    match result with
    | none => e.handleSuccess d id now io
    | some err => e.handleFailure d id err now delay io
  (r.1.afterExecution id result now, r.2)

/-- `e.heap.PromoteReady(now)` with its writes of the states. -/
def promoteReady (e : Engine) (now : Time) : List TaskID × Engine :=
  let r := e.heap.promoteReady e.scheduledAt now
  (r.1,
    { e with
      heap := r.2
      tasks := r.1.foldl (fun m id => m.modify id (Task.forceSetState · .pending)) e.tasks })

/-- `ExpiresAt` is set and past. -/
def expired (t : Task) (now : Time) : Bool :=
  decide (t.expiresAt ≠ zeroTime) && decide (t.expiresAt < now)

/-- The state and the time of a task that the scheduler pushes back: 100 ms later. -/
def postpone (e : Engine) (id : TaskID) (now : Time) : Engine :=
  e.updateTask id fun t =>
    { t.forceSetState .scheduled with scheduledAt := now + 100000000 }

/--
The body of the scheduler's loop over the ready tasks; `none` is a call that
waits in `Enqueue`, or a closed buffer, at which the scheduler stops.  The clock
is read for the check of `ExpiresAt` (`now`) and again for the new time of a task
that is pushed back (`later`).
-/
def scheduleReady (e : Engine) (id : TaskID) (now later : Time) : Option Engine :=
  match e.tasks.get id with
  | none => some e
  | some t =>
      if t.state = .cancelled then
        some e
      else if expired t now then
        some (e.updateTask id (Task.forceSetState · .expired))
      else
        match e.buffer.enqueue id with
        | .done rb => some { e with buffer := rb }
        | .fail .full => some ((e.postpone id later).pushHeap id)
        | .fail .closed => none
        | .wait => none

/-- The snapshot that `checkpoint` takes, visiting the registry in the given order. -/
def takeSnapshot (e : Engine) (order : List TaskID) : Snapshot where
  lastSeq := e.walLog.seq
  tasks := order.filterMap fun id => (e.tasks.get id).map Wal.taskToSnapshotTask

/-- `rotateWAL`. -/
def rotateWAL (e : Engine) (d : Disk) : Engine × Disk :=
  ({ e with walLog := Log.opened.setSeq e.walLog.seq },
    { d with walBin := [], walOld := d.walBin })

/-- `checkpoint`. -/
def checkpoint (e : Engine) (d : Disk) (order : List TaskID) : Engine × Disk :=
  e.rotateWAL { d with snapshot := some (e.takeSnapshot order) }

end Engine
end TaskQueue
