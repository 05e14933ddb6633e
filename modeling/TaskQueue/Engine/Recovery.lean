import Mathlib.Tactic
import TaskQueue.Engine.Operations

/-!
# Recovery

`applyEntry`, `rebuildQueues` and `Recover` of `internal/engine/engine.go`.
`recover` reads the snapshot, replays the log over it, opens the log and fills
the queues; it fails when `Replay` does, and it waits for ever when a full ring
buffer blocks.
-/

namespace TaskQueue

open Lib (GoMap)
open Queue
open Wal (Log LogEnv LogRecord Snapshot)

namespace Engine

/-- The fields that an `EntryRetry` sets, each if the object has it. -/
def applyRetryData (t : Task) (rd : RetryData) : Task :=
  { t with
    retryCount := rd.retryCount.getD t.retryCount
    scheduledAt := rd.nextAt.getD t.scheduledAt
    lastError := rd.error.getD t.lastError }

/-- A non-empty text of an entry replaces the last error. -/
def errorOr (text before : String) : String :=
  if text = "" then before else text

/-- What an entry writes to the task that it names. -/
def entryUpdate (entry : Entry) (t : Task) : Task :=
  match entry.type with
  | .start => { t.forceSetState .running with startedAt := entry.timestamp }
  | .complete => { t.forceSetState .completed with completedAt := entry.timestamp }
  | .fail =>
      { t.forceSetState .failed with lastError := errorOr entry.data.text t.lastError }
  | .retry =>
      match entry.data.retry with
      | some rd => (applyRetryData t rd).forceSetState .scheduled
      | none => t.forceSetState .scheduled
  | .dead =>
      { t.forceSetState .dead with
        completedAt := entry.timestamp
        lastError := errorOr entry.data.text t.lastError }
  | .cancel => { t.forceSetState .cancelled with completedAt := entry.timestamp }
  | _ => t

/-- `applyEntry`. -/
def applyEntry (e : Engine) (entry : Entry) : Except String Engine :=
  match entry.type with
  | .enqueue =>
      match entry.data.task with
      | none => .error "unmarshal enqueue: invalid JSON"
      | some task => .ok (e.register task)
  | .dead =>
      if (e.tasks.get entry.taskID).isSome then
        .ok ((e.updateTask entry.taskID (entryUpdate entry)).pushDLQ entry.taskID)
      else
        .ok e
  | .snapshot => .ok e
  | .unknown _ _ => .ok e
  | _ => .ok (e.updateTask entry.taskID (entryUpdate entry))

/-- The loading of a snapshot in `Recover`. -/
def loadSnapshot (e : Engine) (snap : Option Snapshot) : Engine :=
  match snap with
  | none => e
  | some snap =>
      snap.tasks.foldl (fun e st => e.register (Wal.snapshotTaskToTask st)) e

/-- The handler that `Recover` passes to `Replay`. -/
def replayHandler (snapSeq : Nat) (e : Engine) (entry : Entry) : Except String Engine :=
  if entry.seq ≤ snapSeq then
    .ok e
  else
    e.applyEntry entry

/-- Steps 1 and 2 of `Recover`: the registry, and the last number of the log. -/
def loadTasks (cfg : Config) (d : Disk) : Except Wal.ReplayError (Engine × Nat) :=
  Wal.replayRecords (replayHandler d.snapSeq) ((new cfg).loadSnapshot d.snapshot) d.walBin

/-- Step 3 of `Recover`. -/
def openLog (e : Engine) (lastSeq : Nat) : Engine :=
  { e with
    walLog := if 0 < lastSeq then Log.opened.setSeq lastSeq else Log.opened }

/-- Re-enqueue a task; an error is only logged, and `none` is a call that waits. -/
def reEnqueue (e : Engine) (id : TaskID) : Option Engine :=
  match e.buffer.enqueue id with
  | .done rb => some { e with buffer := rb }
  | .fail _ => some e
  | .wait => none

/-- The body of the loop of `rebuildQueues`. -/
def rebuildTask (e : Engine) (id : TaskID) : Option Engine :=
  match e.stateOf id with
  | some .pending => e.reEnqueue id
  | some .scheduled => some (e.pushHeap id)
  | some .running =>
      (e.updateTask id fun t =>
        { t.forceSetState .pending with retryCount := t.retryCount + 1 }).reEnqueue id
  | _ => some e

/-- `rebuildQueues`, visiting the registry in the given order. -/
def rebuildQueues (e : Engine) : List TaskID → Option Engine
  | [] => some e
  | id :: order =>
      match e.rebuildTask id with
      | some e' => e'.rebuildQueues order
      | none => none

/-- What `Recover` does in the end. -/
inductive RecoverResult
  | ok (e : Engine)
  | replayFailed (err : Wal.ReplayError)
  | blocked

/-- `New` and `Recover`. -/
def recover (cfg : Config) (d : Disk) (order : List TaskID) : RecoverResult :=
  match loadTasks cfg d with
  | .error err => .replayFailed err
  | .ok (loaded, lastSeq) =>
      match (loaded.openLog lastSeq).rebuildQueues order with
      | some e => .ok e
      | none => .blocked

/-- A `Recover` that succeeds has loaded the registry and rebuilt the queues. -/
theorem recover_ok
    {cfg : Config} {d : Disk} {order : List TaskID} {e : Engine}
    (h : recover cfg d order = .ok e) :
    ∃ loaded last, loadTasks cfg d = .ok (loaded, last) ∧
      (loaded.openLog last).rebuildQueues order = some e := by
  unfold recover at h
  cases hload : loadTasks cfg d with
  | error err =>
      simp [hload] at h
  | ok r =>
      obtain ⟨loaded, last⟩ := r
      simp only [hload] at h
      refine ⟨loaded, last, rfl, ?_⟩
      cases hreb : (loaded.openLog last).rebuildQueues order with
      | none =>
          simp [hreb] at h
      | some e' =>
          simp only [hreb, RecoverResult.ok.injEq] at h
          rw [h]

theorem recover_of_rebuildQueues
    {cfg : Config} {d : Disk} {order : List TaskID} {loaded e : Engine} {last : Nat}
    (hload : loadTasks cfg d = .ok (loaded, last))
    (h : (loaded.openLog last).rebuildQueues order = some e) :
    recover cfg d order = .ok e := by
  rw [recover, hload]
  simp only [h]

end Engine
end TaskQueue
