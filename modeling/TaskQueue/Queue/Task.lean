import Mathlib.Tactic

/-!
# Tasks and their states

The data model of `internal/queue/queue.go`: the task states with their
transition table, and the task record.  Instants are integers (nanoseconds since
the Unix epoch), so the zero `time.Time` of Go is a fixed negative number.  Two
fields of the Go record are kept elsewhere: the mutex has no counterpart (every
locked block is one step of a machine), and `heapIndex`, which only the heap
reads and writes, is part of the heap.
-/

namespace TaskQueue
namespace Queue

/-- The ID of a task, a Go string. -/
abbrev TaskID := String

/-- An instant, in nanoseconds since the Unix epoch. -/
abbrev Time := Int

/-- A `time.Duration`, in nanoseconds. -/
abbrev Duration := Int

/-- The zero `time.Time`: midnight, 1 January of year 1. -/
def zeroTime : Time := -62135596800000000000

/-- `TaskState`: the lifecycle state of a task. -/
inductive TaskState
  | pending
  | scheduled
  | running
  | completed
  | failed
  | retrying
  | dead
  | cancelled
  | expired
deriving DecidableEq, Repr

namespace TaskState

/-- `TaskState.String`. -/
def string : TaskState → String
  | pending => "pending"
  | scheduled => "scheduled"
  | running => "running"
  | completed => "completed"
  | failed => "failed"
  | retrying => "retrying"
  | dead => "dead"
  | cancelled => "cancelled"
  | expired => "expired"

/-- `TaskState.CanTransitionTo`. -/
def canTransitionTo : TaskState → TaskState → Bool
  | pending, next => next = running || next = cancelled || next = expired
  | scheduled, next => next = pending || next = cancelled || next = expired
  | running, next =>
      next = completed || next = failed || next = retrying || next = dead
  | retrying, next =>
      next = scheduled || next = pending || next = dead || next = failed
  | _, _ => false

/-- Completed, dead, cancelled and expired tasks have reached their outcome. -/
def isFinal : TaskState → Bool
  | completed | dead | cancelled | expired => true
  | _ => false

/-- Pending, scheduled and running tasks still have to run to an outcome. -/
def isLive : TaskState → Bool
  | pending | scheduled | running => true
  | _ => false

theorem isLive_eq_false_of_isFinal
    {s : TaskState}
    (h : s.isFinal = true) :
    s.isLive = false := by
  cases s <;> simp_all [isFinal, isLive]

/-- The transition table has no way out of a final state. -/
theorem canTransitionTo_of_isFinal
    {s : TaskState}
    (h : s.isFinal = true)
    (next : TaskState) :
    s.canTransitionTo next = false := by
  cases s <;> simp_all [isFinal, canTransitionTo]

end TaskState

/-- `Task`: a unit of work. -/
structure Task where
  id : TaskID
  idempotencyKey : String
  payload : List UInt8
  state : TaskState
  priority : Int
  createdAt : Time
  scheduledAt : Time
  startedAt : Time
  completedAt : Time
  expiresAt : Time
  retryCount : Int
  maxRetries : Int
  lastError : String
  timeout : Duration
deriving DecidableEq, Repr

namespace Task

/-- A task with the zero value in every field. -/
def zero : Task where
  id := ""
  idempotencyKey := ""
  payload := []
  state := .pending
  priority := 0
  createdAt := zeroTime
  scheduledAt := zeroTime
  startedAt := zeroTime
  completedAt := zeroTime
  expiresAt := zeroTime
  retryCount := 0
  maxRetries := 0
  lastError := ""
  timeout := 0

/-- `Task.ForceSetState`. -/
def forceSetState (t : Task) (next : TaskState) : Task :=
  { t with state := next }

/-- `Task.SetState`: the checked transition; `none` is `ErrInvalidTransition`. -/
def setState (t : Task) (next : TaskState) : Option Task :=
  if t.state.canTransitionTo next then
    some { t with state := next }
  else
    none

theorem setState_of_canTransitionTo
    {t : Task} {next : TaskState}
    (h : t.state.canTransitionTo next = true) :
    t.setState next = some (t.forceSetState next) :=
  if_pos h

@[simp] theorem forceSetState_state
    (t : Task) (next : TaskState) :
    (t.forceSetState next).state = next := by
  rfl

end Task

end Queue
end TaskQueue
