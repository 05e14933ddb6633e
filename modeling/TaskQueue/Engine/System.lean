import Mathlib.Tactic
import TaskQueue.Lib.Runs
import TaskQueue.Engine.Runtime

/-!
# The engine over several process lifetimes

The engine at work, whose operations are taken atomically, with `sync_policy`
"every" and no I/O errors.  A `Shutdown` or a kill ends the process, and `New`
and `Recover` start the next one on the same directory.

`acked` and `issued` are history: the tasks whose `Submit` returned nil, and the
IDs that have been used.  A new task has a new ID: `generateID` joins the clock
and a counter.
-/

namespace TaskQueue

open Lib (GoMap)
open Queue
open Wal (Log LogEnv LogRecord Snapshot)

/-- The engine with its directory, and the tasks on their way between queues. -/
structure System extends Runtime where
  acked : List TaskID
  issued : List TaskID

namespace System

open Engine (HandlerError SubmitResult)

/-- The steps; `len` is the length of the body of the record that a step writes. -/
inductive Event
  | submit (task : Task) (generatedID : TaskID) (now : Time) (len : Nat)
  | unblock (id : TaskID)
  | cancel (id : TaskID) (now : Time) (len : Nat)
  | promote (now : Time)
  | schedule (now later : Time)
  | start (now : Time) (len : Nat)
  | finish (id : TaskID) (result : Option HandlerError) (now : Time) (delay : Duration)
      (len : Nat)
  | checkpoint (order : List TaskID)
  | shutdown (order : List TaskID) (cfg : Engine.Config) (recoverOrder : List TaskID)
  | kill (cfg : Engine.Config) (recoverOrder : List TaskID)

/-- A condition on the steps can be decided if it can be for the steps of each kind. -/
def Event.decidable
    {P : Event → Prop}
    (submit : ∀ task generatedID now len, Decidable (P (.submit task generatedID now len)))
    (unblock : ∀ id, Decidable (P (.unblock id)))
    (cancel : ∀ id now len, Decidable (P (.cancel id now len)))
    (promote : ∀ now, Decidable (P (.promote now)))
    (schedule : ∀ now later, Decidable (P (.schedule now later)))
    (start : ∀ now len, Decidable (P (.start now len)))
    (finish : ∀ id result now delay len, Decidable (P (.finish id result now delay len)))
    (checkpoint : ∀ order, Decidable (P (.checkpoint order)))
    (shutdown : ∀ order cfg recoverOrder, Decidable (P (.shutdown order cfg recoverOrder)))
    (kill : ∀ cfg recoverOrder, Decidable (P (.kill cfg recoverOrder))) :
    ∀ e, Decidable (P e)
  | .submit task generatedID now len => submit task generatedID now len
  | .unblock id => unblock id
  | .cancel id now len => cancel id now len
  | .promote now => promote now
  | .schedule now later => schedule now later
  | .start now len => start now len
  | .finish id result now delay len => finish id result now delay len
  | .checkpoint order => checkpoint order
  | .shutdown order cfg recoverOrder => shutdown order cfg recoverOrder
  | .kill cfg recoverOrder => kill cfg recoverOrder

/-- The engine that `New` and `Recover` give on an empty directory. -/
def initial (cfg : Engine.Config) : System where
  toRuntime := .started ((Engine.new cfg).openLog 0) Engine.Disk.empty
  acked := []
  issued := []

/-- A buffer with room for the runs below. -/
def roomyConfig : Engine.Config where
  capacity := 8
  overflowPolicy := .reject
  maxRetries := 3
  defaultTimeout := 30000000000
  capacity_pos := by decide
  maxRetries_nonneg := Engine.Config.threeRetries_nonneg

theorem recover_empty
    (cfg : Engine.Config) :
    Engine.recover cfg Engine.Disk.empty [] = .ok (initial cfg).engine := by
  rfl

/-- The system after an operation of the engine. -/
def ran (s : System) (r : Runtime) : System where
  toRuntime := r
  acked := s.acked
  issued := s.issued

/-- The system after a `Submit` with the given effect and result. -/
def answered (s : System) (r : Runtime × SubmitResult) : System where
  toRuntime := r.1
  acked :=
    match r.2 with
    | .ok id => id :: s.acked
    | _ => s.acked
  issued := s.issued

/-- `Submit`. -/
def submit (s : System) (task : Task) (generatedID : TaskID) (now : Time) (len : Nat) :
    Option System :=
  let id := (s.engine.prepare task generatedID now).id
  if id ∈ s.issued then
    none
  else
    let r := s.toRuntime.submit task generatedID now (LogEnv.noError now len)
    some ({ s with issued := id :: s.issued }.answered r)

/-- A `Submit` that waits in `Enqueue` tries again. -/
def unblock (s : System) (id : TaskID) : Option System :=
  (s.toRuntime.unblock id).map s.answered

/-- `CancelTask`. -/
def cancel (s : System) (id : TaskID) (now : Time) (len : Nat) : System :=
  s.ran (s.toRuntime.cancel id now (LogEnv.noError now len))

/-- The scheduler promotes what is due. -/
def promote (s : System) (now : Time) : Option System :=
  (s.toRuntime.promote now).map s.ran

/-- The scheduler handles the first ready task. -/
def schedule (s : System) (now later : Time) : Option System :=
  (s.toRuntime.schedule now later).map s.ran

/-- A worker takes a task. -/
def start (s : System) (now : Time) (len : Nat) : Option System :=
  (s.toRuntime.start now (LogEnv.noError now len)).map s.ran

/-- The handler of a task returns. -/
def finish (s : System) (id : TaskID) (result : Option HandlerError) (now : Time)
    (delay : Duration) (len : Nat) : Option System :=
  (s.toRuntime.finish id result now delay (LogEnv.noError now len)).map s.ran

/-- `checkpoint`. -/
def checkpoint (s : System) (order : List TaskID) : Option System :=
  (s.toRuntime.checkpoint order).map s.ran

/-- `New` and `Recover` in the next process; `none` if it does not come up. -/
def boot (s : System) (cfg : Engine.Config) (order : List TaskID) : Option System :=
  match Engine.loadTasks cfg s.disk with
  | .error _ => none
  | .ok (loaded, lastSeq) =>
      if loaded.tasks.Enumerates order then
        ((loaded.openLog lastSeq).rebuildQueues order).map fun e => s.ran (.started e s.disk)
      else
        none

/-- The transitions of the system. -/
def step (s : System) : Event → Option System
  | .submit task generatedID now len => s.submit task generatedID now len
  | .unblock id => s.unblock id
  | .cancel id now len => some (s.cancel id now len)
  | .promote now => s.promote now
  | .schedule now later => s.schedule now later
  | .start now len => s.start now len
  | .finish id result now delay len => s.finish id result now delay len
  | .checkpoint order => s.checkpoint order
  | .shutdown order cfg recoverOrder =>
      if s.hands = [] then
        (s.checkpoint order).bind fun t => t.boot cfg recoverOrder
      else
        none
  | .kill cfg recoverOrder => s.boot cfg recoverOrder

/-- The process that comes up is the one that `Recover` gives. -/
theorem boot_recover
    {s t : System} {cfg : Engine.Config} {order : List TaskID}
    (h : s.boot cfg order = some t) :
    Engine.recover cfg s.disk order = .ok t.engine := by
  unfold boot at h
  unfold Engine.recover
  cases hload : Engine.loadTasks cfg s.disk with
  | error err =>
      simp [hload] at h
  | ok r =>
      obtain ⟨loaded, lastSeq⟩ := r
      simp only [hload] at h ⊢
      split_ifs at h
      obtain ⟨e, he, rfl⟩ := Option.map_eq_some_iff.mp h
      rw [he]
      rfl

end System
end TaskQueue
