import TaskQueue.Engine.FailedSubmit

/-!
# A `CancelTask` that fails

`CancelTask` of `internal/engine/engine.go` marks the task under `e.mu`, appends an
`EntryCancel` and removes the task from the heap, in this order.  A checkpoint may close or
replace the log between the first two steps, so that the log and the files that the `Append`
meets are arbitrary here (`cancelTaskMeeting`).

A call for a task that is unknown or cannot be cancelled changes nothing.  Any other call that
fails, fails in its `Append`, and leaves the task Cancelled with a new `CompletedAt`
(`failed_cancel_untouched_iff`); no later call can put the cancellation into the log
(`cancel_again_refused`).
-/

namespace TaskQueue
namespace Engine

open Queue
open Wal (Log LogEnv)

/-- The tasks, the heap and the ring buffer are as before. -/
structure Untouched (e e' : Engine) : Prop where
  tasks : e'.tasks = e.tasks
  heap : e'.heap = e.heap
  buffer : e'.buffer = e.buffer

section Cases

variable (e : Engine) (log : Log) (d : Disk) (id : TaskID) (now : Time) (io : LogEnv)

/--
A `CancelTask` that returns an error leaves the tasks, the heap and the ring buffer as they were
if and only if the task is unknown or in a state in which it cannot be cancelled; otherwise all
but the task itself is as before.  If the call returns `nil`, the cancellation is at the end of
the log.
-/
theorem failed_cancel_untouched_iff :
    match e.cancelTaskMeeting log d id now io with
    | (e', _, .error _) =>
        (Untouched e e' ↔ ∀ t, e.tasks.get id = some t → cancellable t.state = false) ∧
          e'.heap = e.heap ∧ e'.buffer = e.buffer ∧
          ∀ j, j ≠ id → e'.tasks.get j = e.tasks.get j
    | (_, d', .ok ()) =>
        log.closed = false ∧ d' = d.extend (log.record .cancel id .nil io) := by
  rcases e.cancelTaskMeeting_cases log d id now io with
    ⟨hno, err, hcall, -⟩ | ⟨t, hget, hstate, ⟨hok, hcall⟩ | ⟨hok, hcall⟩⟩
  · rw [hcall]
    exact ⟨iff_of_true ⟨rfl, rfl, rfl⟩ hno, rfl, rfl, fun _ _ => rfl⟩
  · rw [hcall]
    rcases append_cases ((e.withLog log).updateTask id (cancelledAt now)) d .cancel id .nil io with
      ⟨-, hno, -⟩ | ⟨hopen, hdisk, -⟩
    · rw [hok] at hno
      cases hno
    · exact ⟨hopen, hdisk⟩
  · rw [hcall]
    refine ⟨iff_of_false ?_ ?_, rfl, rfl, ?_⟩
    · intro huntouched
      have hget' := congrArg (fun tasks => tasks.get id) huntouched.tasks
      have hset : ((e.withLog log).updateTask id (cancelledAt now)).tasks.get id =
          some (cancelledAt now t) := by
        rw [get_updateTask_self]
        exact congrArg (Option.map (cancelledAt now)) hget
      have hsame : cancelledAt now t = t :=
        Option.some_inj.mp (hset.symm.trans (hget'.trans hget))
      rw [← hsame] at hstate
      cases hstate
    · intro hno
      rw [hno t hget] at hstate
      cases hstate
    · intro j hj
      exact get_updateTask_of_ne (e.withLog log) (cancelledAt now) hj

end Cases

/-- A task that a failed call has marked cannot be cancelled any more. -/
theorem cancel_again_refused
    {e e' : Engine} {log : Log} {d d' : Disk} {id : TaskID} {now : Time} {io : LogEnv}
    {cause : String}
    (h : e.cancelTaskMeeting log d id now io = (e', d', .error (.walCancel cause)))
    (log' : Log) (now' : Time) (io' : LogEnv) :
    e'.cancelTaskMeeting log' d' id now' io' = (e', d', .error (.wrongState id .cancelled)) := by
  rcases e.cancelTaskMeeting_cases log d id now io with
    ⟨-, err, hcall, hkind⟩ | ⟨t, hget, -, ⟨-, hcall⟩ | ⟨-, hcall⟩⟩
  · rw [hcall] at h
    cases h
    exact absurd rfl (hkind cause)
  · rw [hcall] at h
    cases h
  · rw [hcall] at h
    cases h
    have hset : (((e.withLog log).updateTask id (cancelledAt now)).append d .cancel id .nil
        io).1.tasks.get id = some (cancelledAt now t) := by
      rw [append_tasks, get_updateTask_self]
      exact congrArg (Option.map (cancelledAt now)) hget
    rw [cancelTaskMeeting, markCancelled, hset]
    rfl

end Engine

namespace Service

open Queue
open Wal (LogEnv)

/-- A cancel meets the log that a checkpoint has closed. -/
def cancelledInRotation : Engine × Engine.Disk × Except Engine.CancelError Unit :=
  onePending.engine.cancelTaskMeeting onePending.engine.walLog.close onePending.disk "a" 20
    (LogEnv.noError 20 100)

/-- The call fails, the task is Cancelled all the same, and a restart makes it Pending. -/
theorem failed_cancel_marks :
    cancelledInRotation.2.2 = .error (.walCancel "wal: log is closed") ∧
      onePending.engine.stateOf "a" = some .pending ∧
      cancelledInRotation.1.stateOf "a" = some .cancelled ∧
      (cancelledInRotation.1.tasks.get "a").map Task.completedAt = some 20 ∧
      ∃ e, Engine.Recovered System.roomyConfig cancelledInRotation.2.1 ["a"] e ∧
        e.stateOf "a" = some .pending := by
  refine ⟨rfl, by decide +kernel, by decide +kernel, by decide +kernel, ?_⟩
  exact Engine.recovered_of_recoversTo (by decide +kernel)

end Service
end TaskQueue
