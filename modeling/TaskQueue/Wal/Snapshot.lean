import Mathlib.Tactic
import TaskQueue.Queue.Task

/-!
# Snapshots

The data of `internal/wal/snapshot.go` and the conversions of
`internal/engine/engine.go` between tasks and their serialized form.  Instants
are written as `UnixNano()`, an `int64`; `ExpiresAt` is not written.
-/

namespace TaskQueue
namespace Wal

open Queue (TaskID Task TaskState Time)

/-- `SnapshotTask`.  The byte of the state is the number of the enumeration. -/
structure SnapshotTask where
  id : TaskID
  idempotencyKey : String
  payload : List UInt8
  state : TaskState
  priority : Int
  createdAt : Int
  scheduledAt : Int
  startedAt : Int
  completedAt : Int
  retryCount : Int
  maxRetries : Int
  lastError : String
  timeoutNs : Int
deriving DecidableEq, Repr

/-- `Snapshot`. -/
structure Snapshot where
  lastSeq : Nat
  tasks : List SnapshotTask
deriving DecidableEq, Repr

/-- The entry of a snapshot for an ID; a later one replaces an earlier one. -/
def Snapshot.find (snap : Snapshot) (id : TaskID) : Option SnapshotTask :=
  snap.tasks.foldl (fun found st => if st.id = id then some st else found) none

/-- `Time.UnixNano`: the nanoseconds since the epoch, as an `int64`. -/
def unixNano (t : Time) : Int :=
  Int.bmod t (2 ^ 64)

/-- `taskToSnapshotTask`. -/
def taskToSnapshotTask (t : Task) : SnapshotTask where
  id := t.id
  idempotencyKey := t.idempotencyKey
  payload := t.payload
  state := t.state
  priority := t.priority
  createdAt := unixNano t.createdAt
  scheduledAt := unixNano t.scheduledAt
  startedAt := unixNano t.startedAt
  completedAt := unixNano t.completedAt
  retryCount := t.retryCount
  maxRetries := t.maxRetries
  lastError := t.lastError
  timeoutNs := t.timeout

/-- `snapshotTaskToTask`. -/
def snapshotTaskToTask (st : SnapshotTask) : Task where
  id := st.id
  idempotencyKey := st.idempotencyKey
  payload := st.payload
  state := st.state
  priority := st.priority
  createdAt := st.createdAt
  scheduledAt := st.scheduledAt
  startedAt := st.startedAt
  completedAt := st.completedAt
  expiresAt := Queue.zeroTime
  retryCount := st.retryCount
  maxRetries := st.maxRetries
  lastError := st.lastError
  timeout := st.timeoutNs

/-- A task as it comes back from a snapshot. -/
def throughSnapshot (t : Task) : Task :=
  snapshotTaskToTask (taskToSnapshotTask t)

@[simp] theorem throughSnapshot_state
    (t : Task) :
    (throughSnapshot t).state = t.state := by
  rfl

end Wal
end TaskQueue
