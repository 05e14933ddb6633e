import TaskQueue.Engine.Effects

/-!
# An engine at work

The engine of one process, its directory, and the tasks that are in nobody's queue: in the
scheduler's ready list, with a worker, or with a `Submit` that waits in `Enqueue`.  `Submit`,
`CancelTask`, the two halves of a worker iteration, the scheduler's promotion and its handling
of one ready task, and `checkpoint` are taken whole, with any outcome of their I/O.

What is observed of such a process differs from one result to the next: the tasks that were
acknowledged, the metrics, the results of the handlers.  It is added to the operations that are
defined here.
-/

namespace TaskQueue

open Queue
open Wal (LogEnv)

namespace Engine

/-- The scheduler promotes what is due, after it has handled the ready tasks that it had. -/
def promoteNext (e : Engine) (ready : List TaskID) (now : Time) :
    Option (Engine × List TaskID) :=
  if ready = [] then
    some ((e.promoteReady now).2, (e.promoteReady now).1)
  else
    none

/-- The scheduler handles the first ready task. -/
def scheduleNext (e : Engine) (ready : List TaskID) (now later : Time) :
    Option (Engine × List TaskID) :=
  match ready with
  | [] => none
  | id :: rest => (e.scheduleReady id now later).map fun e' => (e', rest)

/-- The last block of `Submit`; `none` if it still waits in `Enqueue`. -/
def tryPlace (e : Engine) (id : TaskID) (state : TaskState) : Option (Engine × SubmitResult) :=
  match e.place id state with
  | (_, .blocked _) => none
  | r => some r

section Inversion

variable {e : Engine} {ready : List TaskID} {id : TaskID} {now later : Time}
  {r : Engine × List TaskID}

theorem promoteNext_some
    (h : e.promoteNext ready now = some r) :
    ready = [] ∧ r = ((e.promoteReady now).2, (e.promoteReady now).1) := by
  unfold promoteNext at h
  split_ifs at h with hready
  exact ⟨hready, (Option.some.inj h).symm⟩

theorem scheduleNext_some
    (h : e.scheduleNext ready now later = some r) :
    ∃ id, ready = id :: r.2 ∧ e.scheduleReady id now later = some r.1 := by
  cases ready with
  | nil =>
      cases h
  | cons id rest =>
      obtain ⟨e', he', rfl⟩ := Option.map_eq_some_iff.mp h
      exact ⟨id, rfl, he'⟩

/-- A call that is over has put its task into the buffer or was turned away. -/
theorem tryPlace_pending
    {r : Engine × SubmitResult}
    (h : e.tryPlace id .pending = some r) :
    (∃ rb, e.buffer.enqueue id = .done rb ∧ r = ({ e with buffer := rb }, .ok id)) ∨
      ∃ err, e.buffer.enqueue id = .fail err ∧ r = (e, .error (.enqueue err)) := by
  simp only [tryPlace, place, reduceCtorEq, if_false] at h
  cases henq : e.buffer.enqueue id with
  | done rb =>
      rw [henq] at h
      exact Or.inl ⟨rb, rfl, (Option.some.inj h).symm⟩
  | fail err =>
      rw [henq] at h
      exact Or.inr ⟨err, rfl, (Option.some.inj h).symm⟩
  | wait =>
      rw [henq] at h
      cases h

end Inversion

end Engine

/-- An engine, its directory, and the tasks on their way between the queues. -/
structure Runtime where
  engine : Engine
  disk : Engine.Disk
  ready : List TaskID
  hands : List TaskID
  blocked : List TaskID

namespace Runtime

open Engine (HandlerError SubmitResult)

/-- A process that `Recover` has just started. -/
@[simps] def started (e : Engine) (d : Engine.Disk) : Runtime where
  engine := e
  disk := d
  ready := []
  hands := []
  blocked := []

/-- `Submit`. -/
def submit (r : Runtime) (task : Task) (generatedID : TaskID) (now : Time) (io : LogEnv) :
    Runtime × SubmitResult :=
  match r.engine.submit r.disk task generatedID now io with
  | (e, d, .blocked id) =>
      ({ r with engine := e, disk := d, blocked := id :: r.blocked }, .blocked id)
  | (e, d, result) => ({ r with engine := e, disk := d }, result)

/-- A `Submit` that waits in `Enqueue` tries again. -/
def unblock (r : Runtime) (id : TaskID) : Option (Runtime × SubmitResult) :=
  if id ∈ r.blocked then
    (r.engine.tryPlace id .pending).map fun p =>
      ({ r with engine := p.1, blocked := r.blocked.erase id }, p.2)
  else
    none

/-- `CancelTask`. -/
def cancel (r : Runtime) (id : TaskID) (now : Time) (io : LogEnv) : Runtime :=
  let c := r.engine.cancelTask r.disk id now io
  { r with engine := c.1, disk := c.2.1 }

/-- The scheduler promotes what is due. -/
def promote (r : Runtime) (now : Time) : Option Runtime :=
  (r.engine.promoteNext r.ready now).map fun p => { r with engine := p.1, ready := p.2 }

/-- The scheduler handles the first ready task. -/
def schedule (r : Runtime) (now later : Time) : Option Runtime :=
  (r.engine.scheduleNext r.ready now later).map fun p => { r with engine := p.1, ready := p.2 }

/-- A worker takes a task. -/
def start (r : Runtime) (now : Time) (io : LogEnv) : Option Runtime :=
  (r.engine.startTask r.disk now io).map fun p =>
    { r with engine := p.2.1, disk := p.2.2, hands := p.1 :: r.hands }

/-- The handler of a task returns. -/
def finish (r : Runtime) (id : TaskID) (result : Option HandlerError) (now : Time)
    (delay : Duration) (io : LogEnv) : Option Runtime :=
  if id ∈ r.hands then
    let f := r.engine.finishTask r.disk id result now delay io
    some { r with engine := f.1, disk := f.2, hands := r.hands.erase id }
  else
    none

/-- `checkpoint`. -/
def checkpoint (r : Runtime) (order : List TaskID) : Option Runtime :=
  if r.engine.tasks.Enumerates order then
    let c := r.engine.checkpoint r.disk order
    some { r with engine := c.1, disk := c.2 }
  else
    none

section Inversion

variable {r r' : Runtime} {id : TaskID} {now later : Time} {io : LogEnv}

theorem submit_eq
    (r : Runtime) (task : Task) (generatedID : TaskID) (now : Time) (io : LogEnv) :
    r.submit task generatedID now io =
      ({ r with
          engine := (r.engine.submit r.disk task generatedID now io).1
          disk := (r.engine.submit r.disk task generatedID now io).2.1
          blocked :=
            match (r.engine.submit r.disk task generatedID now io).2.2 with
            | .blocked id => id :: r.blocked
            | _ => r.blocked },
        (r.engine.submit r.disk task generatedID now io).2.2) := by
  unfold submit
  rcases r.engine.submit r.disk task generatedID now io with ⟨e, d, result⟩
  cases result <;> rfl

theorem unblock_some
    {p : Runtime × SubmitResult}
    (h : r.unblock id = some p) :
    id ∈ r.blocked ∧
      ((∃ rb, r.engine.buffer.enqueue id = .done rb ∧
          p = ({ r with
                 engine := { r.engine with buffer := rb }
                 blocked := r.blocked.erase id }, .ok id)) ∨
        ∃ err, r.engine.buffer.enqueue id = .fail err ∧
          p = ({ r with blocked := r.blocked.erase id }, .error (.enqueue err))) := by
  unfold unblock at h
  split_ifs at h with hid
  obtain ⟨q, hq, rfl⟩ := Option.map_eq_some_iff.mp h
  refine ⟨hid, ?_⟩
  rcases Engine.tryPlace_pending hq with ⟨rb, henq, rfl⟩ | ⟨err, henq, rfl⟩
  · exact Or.inl ⟨rb, henq, rfl⟩
  · exact Or.inr ⟨err, henq, rfl⟩

theorem promote_some
    (h : r.promote now = some r') :
    r.ready = [] ∧
      r' = { r with
             engine := (r.engine.promoteReady now).2
             ready := (r.engine.promoteReady now).1 } := by
  obtain ⟨p, hp, rfl⟩ := Option.map_eq_some_iff.mp h
  obtain ⟨hready, rfl⟩ := Engine.promoteNext_some hp
  exact ⟨hready, rfl⟩

theorem schedule_some
    (h : r.schedule now later = some r') :
    ∃ id rest e, r.ready = id :: rest ∧ r.engine.scheduleReady id now later = some e ∧
      r' = { r with engine := e, ready := rest } := by
  obtain ⟨p, hp, rfl⟩ := Option.map_eq_some_iff.mp h
  obtain ⟨id, hready, hsched⟩ := Engine.scheduleNext_some hp
  exact ⟨id, p.2, p.1, hready, hsched, rfl⟩

theorem start_some
    (h : r.start now io = some r') :
    ∃ id e d, r.engine.startTask r.disk now io = some (id, e, d) ∧
      r' = { r with engine := e, disk := d, hands := id :: r.hands } := by
  obtain ⟨⟨id, e, d⟩, hp, rfl⟩ := Option.map_eq_some_iff.mp h
  exact ⟨id, e, d, hp, rfl⟩

theorem finish_some
    {result : Option HandlerError} {delay : Duration}
    (h : r.finish id result now delay io = some r') :
    id ∈ r.hands ∧
      r' = { r with
             engine := (r.engine.finishTask r.disk id result now delay io).1
             disk := (r.engine.finishTask r.disk id result now delay io).2
             hands := r.hands.erase id } := by
  unfold finish at h
  split_ifs at h with hid
  exact ⟨hid, (Option.some.inj h).symm⟩

theorem checkpoint_some
    {order : List TaskID}
    (h : r.checkpoint order = some r') :
    r.engine.tasks.Enumerates order ∧
      r' = { r with
             engine := (r.engine.checkpoint r.disk order).1
             disk := (r.engine.checkpoint r.disk order).2 } := by
  unfold checkpoint at h
  split_ifs at h with horder
  exact ⟨horder, (Option.some.inj h).symm⟩

end Inversion

end Runtime
end TaskQueue
