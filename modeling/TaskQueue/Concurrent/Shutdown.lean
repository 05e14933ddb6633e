import Mathlib.Tactic
import TaskQueue.Lib.Custody
import TaskQueue.Concurrent.Holders

/-!
# Shutdown

The process with its goroutines, and `Shutdown` in steps: cancel the context, close the
ring buffer, wait for the pool, wait for the scheduler and the checkpoint goroutine or run
into the timeout, take the last checkpoint, close the log.  A worker looks at the context
before every `Dequeue` and returns when it is cancelled; it also returns when `Dequeue`
reports that the buffer is closed and empty.

The context is cancelled before the buffer is closed.  So a worker that is in `Dequeue`
when the buffer is closed takes one more task, and the others take none: what is left
in the buffer in the end is known when it is closed (`Draining`).
-/

namespace TaskQueue

open Lib (GoMap Run)
open Queue
open Wal (Log LogEnv LogRecord Snapshot)

/-- The goroutine of a worker. -/
inductive WorkerLife
  /-- Before the look at the context. -/
  | check
  /-- In `Dequeue`, or with a task. -/
  | loop
  /-- It has returned. -/
  | left
deriving DecidableEq, Repr

/-- Where `Shutdown` is. -/
inductive ShutdownPc
  | notCalled
  /-- The context is cancelled. -/
  | cancelled
  /-- The buffer is closed; waiting for the pool. -/
  | closed
  /-- The workers have returned; waiting for the other goroutines. -/
  | stopped
  /-- In the last checkpoint. -/
  | waited
  /-- Before the log is closed. -/
  | checkpointed
  /-- It has returned nil. -/
  | returned
  /-- It has returned an error. -/
  | failed
deriving DecidableEq, Repr

namespace ShutdownPc

/-- The buffer has been closed. -/
def pastClose : ShutdownPc → Bool
  | .notCalled => false
  | .cancelled => false
  | _ => true

/-- The pool has stopped. -/
def pastStop : ShutdownPc → Bool
  | .notCalled => false
  | .cancelled => false
  | .closed => false
  | _ => true

end ShutdownPc

/-- The task that a worker has taken and not yet handed to the user handler. -/
def WorkerPc.unhanded : WorkerPc → List TaskID
  | .dequeued id => [id]
  | .marked id => [id]
  | .starting id => [id]
  | _ => []

/-- The task that the next step of a worker hands to the user handler. -/
def WorkerPc.hands : WorkerPc → List TaskID
  | .starting id => [id]
  | _ => []

namespace World

variable {n m : Nat} {s s' : World n m}

/-- A step of a worker between two calls of `Dequeue`. -/
theorem WorkerStep.iterates
    {w : Fin n} {env : LogEnv}
    (h : WorkerStep s w env s')
    (hbusy : s.workers w ≠ .idle) :
    s'.engine.buffer = s.engine.buffer ∧
      (s'.workers w).unhanded ++ (s.workers w).hands = (s.workers w).unhanded := by
  cases h with
  | dequeue hpc _ =>
      exact absurd hpc hbusy
  | mark hpc | wrap hpc | logStart hpc | handle _ hpc | succeed hpc | die hpc _ | retry _ hpc _
  | logComplete hpc | logDead hpc | bury hpc | logRetry hpc | repush hpc | findRunning hpc _
  | findMoved hpc _ =>
      refine ⟨rfl, ?_⟩
      rw [hpc]
      simp [toWorker, handlerStarts, report, WorkerPc.unhanded, WorkerPc.hands]
  | @write id result hpc =>
      refine ⟨by cases result <;> rfl, ?_⟩
      rw [hpc]
      simp [toWorker, WorkerPc.unhanded, WorkerPc.hands]

theorem SchedulerStep.closedBuffer
    {now : Time}
    (h : SchedulerStep s now s')
    (hclosed : s.engine.buffer.closed = true) :
    s'.engine.buffer = s.engine.buffer := by
  cases h with
  | enqueue _ henq =>
      rw [RingBuffer.enqueue_of_closed hclosed] at henq
      cases henq
  | _ =>
      rfl

theorem CallStep.closedBuffer
    {c : Fin m} {env : LogEnv}
    (h : CallStep s c env s')
    (hclosed : s.engine.buffer.closed = true) :
    s'.engine.buffer = s.engine.buffer := by
  cases h with
  | enqueue _ henq =>
      rw [RingBuffer.enqueue_of_closed hclosed] at henq
      cases henq
  | _ =>
      rfl

/-- The threads other than the workers leave the workers alone, and a closed buffer. -/
structure Aside (s s' : World n m) : Prop where
  workers : s'.workers = s.workers
  buffer : s.engine.buffer.closed = true → s'.engine.buffer = s.engine.buffer

theorem checkpointStep_aside
    {order : List TaskID}
    (h : s.checkpointStep order = some s') :
    Aside s s' :=
  ⟨(checkpointStep_unmoved h).workers, fun _ => (checkpointStep_unmoved h).buffer⟩

theorem step_aside
    {ev : Event n m}
    (h : s.step ev = some s')
    (hev : ∀ w env result delay, ev ≠ .worker w env result delay) :
    Aside s s' := by
  cases ev with
  | worker w env result delay =>
      exact absurd rfl (hev w env result delay)
  | scheduler now =>
      have hstep := schedulerStep_cases h
      refine ⟨?_, hstep.closedBuffer⟩
      funext w
      exact hstep.acted.workers w (by simp)
  | submit c task generatedID now =>
      rcases submitStep_cases h with rfl | ⟨-, -, -, rfl⟩
      · exact ⟨rfl, fun _ => rfl⟩
      · exact ⟨rfl, fun _ => rfl⟩
  | cancel c id now =>
      rcases cancelStep_cases h with rfl | ⟨-, t, -, -, rfl⟩
      · exact ⟨rfl, fun _ => rfl⟩
      · exact ⟨rfl, fun _ => rfl⟩
  | call c env =>
      have hstep := callStep_cases h
      refine ⟨?_, hstep.closedBuffer⟩
      funext w
      exact hstep.acted.workers w (by simp)
  | checkpoint order =>
      exact checkpointStep_aside h

end World

/--
The process and its `Shutdown`.  `atClose`, `readers` and `handed` are history: the tasks in
the buffer and the number of workers in `Dequeue` when the buffer was closed, and the
tasks handed to the user handler since.
-/
structure Lifecycle (n m : Nat) where
  world : World n m
  ctxDone : Bool
  life : Fin n → WorkerLife
  checkpointing : Bool
  shutdown : ShutdownPc
  atClose : List TaskID
  readers : Nat
  handed : List TaskID

namespace Lifecycle

variable {n m : Nat}

open Engine (HandlerError)

/-- The steps of the threads, the returns of two of them, and the steps of `Shutdown`. -/
inductive Event (n m : Nat)
  | thread (ev : World.Event n m)
  | schedulerReturns
  | checkpointerReturns
  | cancelContext
  | closeBuffer
  | stopPool
  | waitDone
  | timeout
  | lastCheckpoint (order : List TaskID)
  | lastCheckpointFails
  | closeLog (ok : Bool)

/-- The process after `Start`, with the given engine and directory. -/
def start (e : Engine) (d : Engine.Disk) (ids : List TaskID) : Lifecycle n m where
  world := World.start e d ids
  ctxDone := false
  life := fun _ => .check
  checkpointing := true
  shutdown := .notCalled
  atClose := []
  readers := 0
  handed := []

/-- `Dequeue` reports that the buffer is closed. -/
def drained (s : Lifecycle n m) : Bool :=
  match s.world.engine.buffer.dequeue with
  | .closed => true
  | _ => false

/-- Worker `w` goes on to `l`. -/
def toLife (s : Lifecycle n m) (w : Fin n) (l : WorkerLife) : Lifecycle n m :=
  { s with life := Function.update s.life w l }

/-- A step of the loop of `Pool.worker`. -/
def workerStep (s : Lifecycle n m) (w : Fin n) (env : LogEnv) (result : Option HandlerError)
    (delay : Duration) : Option (Lifecycle n m) :=
  match s.life w with
  | .check => some (s.toLife w (if s.ctxDone then .left else .loop))
  | .loop =>
      if s.world.workers w = .idle ∧ s.drained = true then
        some (s.toLife w .left)
      else
        (s.world.workerStep w env result delay).map fun world =>
          { s with
            world := world
            life := Function.update s.life w
              (if world.workers w = .idle then .check else .loop)
            handed := (s.world.workers w).hands ++ s.handed }
  | .left => none

/-- Worker `w` has looked at the context and is in `Dequeue`. -/
def inDequeueAt (s : Lifecycle n m) (w : Fin n) : Nat :=
  if s.life w = .loop ∧ s.world.workers w = .idle then 1 else 0

/-- The number of workers in `Dequeue`. -/
def inDequeue (s : Lifecycle n m) : Nat :=
  ∑ w, s.inDequeueAt w

/-- The ring buffer is closed; the history of the tasks that are handed over begins. -/
def closeBuffer (s : Lifecycle n m) : Lifecycle n m :=
  { s with
    world :=
      { s.world with
        engine := { s.world.engine with buffer := s.world.engine.buffer.close } }
    shutdown := .closed
    atClose := s.world.engine.buffer.contents
    readers := s.inDequeue
    handed := [] }

/-- The transitions. -/
def step (s : Lifecycle n m) : Event n m → Option (Lifecycle n m)
  | .thread (.worker w env result delay) => s.workerStep w env result delay
  | .thread (.checkpoint order) =>
      if s.checkpointing then
        (s.world.step (.checkpoint order)).map fun world => { s with world := world }
      else
        none
  | .thread ev => (s.world.step ev).map fun world => { s with world := world }
  | .schedulerReturns =>
      if s.ctxDone = true ∧ s.world.scheduler = .loop [] then
        some { s with world := { s.world with scheduler := .stopped } }
      else
        none
  | .checkpointerReturns =>
      if s.ctxDone = true ∧ s.world.checkpointer = .idle then
        some { s with checkpointing := false }
      else
        none
  | .cancelContext =>
      if s.shutdown = .notCalled then
        some { s with ctxDone := true, shutdown := .cancelled }
      else
        none
  | .closeBuffer =>
      if s.shutdown = .cancelled then
        some s.closeBuffer
      else
        none
  | .stopPool =>
      if s.shutdown = .closed ∧ ∀ w, s.life w = .left then
        some { s with shutdown := .stopped }
      else
        none
  | .waitDone =>
      if s.shutdown = .stopped ∧ s.world.scheduler = .stopped ∧ s.checkpointing = false then
        some { s with shutdown := .waited }
      else
        none
  | .timeout =>
      if s.shutdown = .stopped then
        some { s with shutdown := .failed }
      else
        none
  | .lastCheckpoint order =>
      if s.shutdown = .waited then
        (s.world.checkpointStep order).map fun world =>
          { s with
            world := world
            shutdown := if world.checkpointer = .idle then .checkpointed else .waited }
      else
        none
  | .lastCheckpointFails =>
      -- the error is only logged
      if s.shutdown = .waited then
        some { s with shutdown := .checkpointed }
      else
        none
  | .closeLog ok =>
      if s.shutdown = .checkpointed then
        some
          { s with
            world :=
              { s.world with
                engine := { s.world.engine with walLog := s.world.engine.walLog.close } }
            shutdown := if ok then .returned else .failed }
      else
        none

/-- The steps of a worker, case by case. -/
inductive WorkerMove (s : Lifecycle n m) (w : Fin n) : Lifecycle n m → Prop
  | leaveByContext
      (hlife : s.life w = .check)
      (hctx : s.ctxDone = true) :
      WorkerMove s w (s.toLife w .left)
  | passCheck
      (hlife : s.life w = .check)
      (hctx : s.ctxDone = false) :
      WorkerMove s w (s.toLife w .loop)
  | leaveByClosed
      (hlife : s.life w = .loop)
      (hpc : s.world.workers w = .idle)
      (hdeq : s.world.engine.buffer.dequeue = .closed) :
      WorkerMove s w (s.toLife w .left)
  | take {id : TaskID} {rb : RingBuffer TaskID}
      (hlife : s.life w = .loop)
      (hpc : s.world.workers w = .idle)
      (hdeq : s.world.engine.buffer.dequeue = .done id rb) :
      WorkerMove s w
        { s with
          world := s.world.toWorker w (.dequeued id) { s.world.engine with buffer := rb }
          life := Function.update s.life w .loop }
  | iterate {world : World n m} {env : LogEnv}
      (hlife : s.life w = .loop)
      (hpc : s.world.workers w ≠ .idle)
      (hstep : World.WorkerStep s.world w env world) :
      WorkerMove s w
        { s with
          world := world
          life := Function.update s.life w
            (if world.workers w = .idle then .check else .loop)
          handed := (s.world.workers w).hands ++ s.handed }

theorem workerStep_moves
    {s s' : Lifecycle n m} {w : Fin n} {env : LogEnv} {result : Option HandlerError}
    {delay : Duration}
    (h : s.workerStep w env result delay = some s') :
    WorkerMove s w s' := by
  unfold workerStep at h
  cases hlife : s.life w with
  | check =>
      simp only [hlife, Option.some.injEq] at h
      cases hctx : s.ctxDone with
      | true =>
          rw [hctx] at h
          exact h ▸ .leaveByContext hlife hctx
      | false =>
          rw [hctx] at h
          exact h ▸ .passCheck hlife hctx
  | loop =>
      simp only [hlife] at h
      split_ifs at h with hleave
      · cases h
        refine .leaveByClosed hlife hleave.1 ?_
        have hdrained := hleave.2
        unfold drained at hdrained
        split at hdrained
        · assumption
        · cases hdrained
      · obtain ⟨world, hworld, rfl⟩ := Option.map_eq_some_iff.mp h
        have hstep := World.workerStep_cases hworld
        by_cases hpc : s.world.workers w = .idle
        · cases hstep with
          | @dequeue id rb _ hdeq =>
              have hmove := WorkerMove.take hlife hpc hdeq
              rw [hpc]
              simpa [World.toWorker, WorkerPc.hands] using hmove
          | mark hpc' | wrap hpc' | logStart hpc' | handle _ hpc' | succeed hpc' | die hpc' _
          | retry _ hpc' _ | logComplete hpc' | logDead hpc' | bury hpc' | logRetry hpc'
          | repush hpc' | findRunning hpc' _ | findMoved hpc' _ | write hpc' =>
              rw [hpc] at hpc'
              cases hpc'
        · exact .iterate hlife hpc hstep
  | left =>
      simp [hlife] at h

/-- How often the workers have taken a task and not yet handed it to the user handler. -/
def unhanded (s : Lifecycle n m) (id : TaskID) : Nat :=
  ∑ w, (s.world.workers w).unhanded.count id

/--
From the close of the buffer on: each worker that has left `Dequeue` since has taken one
task, if there was one, and what is missing from the buffer is with a worker or has been
handed to the user handler.
-/
structure Draining (s : Lifecycle n m) : Prop where
  idle : ∀ w, s.life w ≠ .loop → s.world.workers w = .idle
  context : s.shutdown ≠ .notCalled → s.ctxDone = true
  closed : s.shutdown.pastClose = true → s.world.engine.buffer.closed = true
  fewer : s.shutdown.pastClose = true → s.inDequeue ≤ s.readers
  rest : s.shutdown.pastClose = true →
    s.world.engine.buffer.contents = s.atClose.drop (s.readers - s.inDequeue)
  accounted : s.shutdown.pastClose = true → ∀ id,
    s.atClose.count id ≤
      s.world.engine.buffer.contents.count id + s.unhanded id + s.handed.count id
  left : s.shutdown.pastStop = true → ∀ w, s.life w = .left

theorem draining_start
    (e : Engine) (d : Engine.Disk) (ids : List TaskID) :
    Draining (start e d ids : Lifecycle n m) where
  idle := fun _ _ => rfl
  context := fun h => absurd rfl h
  closed := nofun
  fewer := nofun
  rest := nofun
  accounted := nofun
  left := nofun

section Steps

variable {s s' : Lifecycle n m}

/-- A step of a thread that is not a worker. -/
theorem Draining.aside
    (h : Draining s)
    {world : World n m}
    (ha : World.Aside s.world world) :
    Draining { s with world := world } := by
  have hdequeue : ({ s with world := world } : Lifecycle n m).inDequeue = s.inDequeue := by
    simp only [inDequeue, inDequeueAt, ha.workers]
  have hunhanded : ∀ id,
      ({ s with world := world } : Lifecycle n m).unhanded id = s.unhanded id := by
    intro id
    simp only [unhanded, ha.workers]
  have hbuffer : s.shutdown.pastClose = true → world.engine.buffer = s.world.engine.buffer :=
    fun hp => ha.buffer (h.closed hp)
  refine ⟨?_, h.context, ?_, ?_, ?_, ?_, h.left⟩
  · intro w hw
    rw [ha.workers]
    exact h.idle w hw
  · intro hp
    rw [hbuffer hp]
    exact h.closed hp
  · intro hp
    rw [hdequeue]
    exact h.fewer hp
  · intro hp
    rw [hbuffer hp, hdequeue]
    exact h.rest hp
  · intro hp id
    rw [hbuffer hp, hunhanded]
    exact h.accounted hp id

/-- `Shutdown` goes on after the close of the buffer. -/
theorem Draining.advance
    (h : Draining s)
    {pc : ShutdownPc}
    (hclose : s.shutdown.pastClose = true)
    (hstop : pc.pastStop = true → ∀ w, s.life w = .left) :
    Draining { s with shutdown := pc } where
  idle := h.idle
  context := fun _ => h.context (fun hpc => by rw [hpc] at hclose; cases hclose)
  closed := fun _ => h.closed hclose
  fewer := fun _ => h.fewer hclose
  rest := fun _ => h.rest hclose
  accounted := fun _ => h.accounted hclose
  left := hstop

/-- A step of one worker; `hmove` is what it does after the close of the buffer. -/
theorem Draining.worker
    (h : Draining s)
    {w : Fin n}
    (hctx : s'.ctxDone = s.ctxDone)
    (hpc : s'.shutdown = s.shutdown)
    (hatClose : s'.atClose = s.atClose)
    (hreaders : s'.readers = s.readers)
    (hlife : ∀ w', w' ≠ w → s'.life w' = s.life w')
    (hworkers : ∀ w', w' ≠ w → s'.world.workers w' = s.world.workers w')
    (hhere : s.life w ≠ .left)
    (hidle : s'.life w ≠ .loop → s'.world.workers w = .idle)
    (hmove : s.shutdown.pastClose = true →
      s'.world.engine.buffer.closed = s.world.engine.buffer.closed ∧
      s'.inDequeueAt w ≤ s.inDequeueAt w ∧
      s'.world.engine.buffer.contents =
        s.world.engine.buffer.contents.drop (s.inDequeueAt w - s'.inDequeueAt w) ∧
      ∀ id, s.world.engine.buffer.contents.count id +
          (s.world.workers w).unhanded.count id + s.handed.count id ≤
        s'.world.engine.buffer.contents.count id +
          (s'.world.workers w).unhanded.count id + s'.handed.count id) :
    Draining s' := by
  have hdequeue : s'.inDequeue + s.inDequeueAt w = s.inDequeue + s'.inDequeueAt w := by
    refine Lib.sum_exchange s.inDequeueAt s'.inDequeueAt w fun w' hw => ?_
    simp only [inDequeueAt, hlife w' hw, hworkers w' hw]
  have hunhanded : ∀ id, s'.unhanded id + (s.world.workers w).unhanded.count id =
      s.unhanded id + (s'.world.workers w).unhanded.count id := by
    intro id
    refine Lib.sum_exchange (fun w' => (s.world.workers w').unhanded.count id)
      (fun w' => (s'.world.workers w').unhanded.count id) w fun w' hw => ?_
    simp only [hworkers w' hw]
  refine ⟨?_, ?_, ?_, ?_, ?_, ?_, ?_⟩
  · intro w' hw'
    by_cases hw : w' = w
    · subst hw
      exact hidle hw'
    · rw [hworkers w' hw]
      rw [hlife w' hw] at hw'
      exact h.idle w' hw'
  · rw [hpc, hctx]
    exact h.context
  · rw [hpc]
    intro hp
    rw [(hmove hp).1]
    exact h.closed hp
  · rw [hpc, hreaders]
    intro hp
    have hfewer := h.fewer hp
    obtain ⟨-, hle, -, -⟩ := hmove hp
    omega
  · rw [hpc, hatClose, hreaders]
    intro hp
    have hfewer := h.fewer hp
    obtain ⟨-, hle, hcontents, -⟩ := hmove hp
    rw [hcontents, h.rest hp, List.drop_drop]
    congr 1
    omega
  · rw [hpc, hatClose]
    intro hp id
    have haccounted := h.accounted hp id
    have hcount := (hmove hp).2.2.2 id
    have hsum := hunhanded id
    omega
  · rw [hpc]
    intro hp
    exact absurd (h.left hp w) hhere

theorem draining_workerMove
    {w : Fin n}
    (h : Draining s)
    (hmove : WorkerMove s w s') :
    Draining s' := by
  have hupdated : ∀ (l : WorkerLife) w', w' ≠ w → Function.update s.life w l w' = s.life w' :=
    fun l w' hw => Function.update_of_ne hw l s.life
  cases hmove with
  | leaveByContext hlife hctx =>
      have hhere : s.world.workers w = .idle := h.idle w (by simp [hlife])
      refine h.worker rfl rfl rfl rfl (hupdated .left) (fun _ _ => rfl) (by simp [hlife])
        (fun _ => hhere) (fun _ => ⟨rfl, ?_, ?_, fun _ => le_rfl⟩)
      · simp [inDequeueAt, toLife]
      · simp [inDequeueAt, toLife, hlife]
  | passCheck hlife hctx =>
      refine h.worker rfl rfl rfl rfl (hupdated .loop) (fun _ _ => rfl) (by simp [hlife])
        (by simp [toLife]) (fun hp => ?_)
      -- the context is cancelled before the buffer is closed
      have hdone := h.context (fun hpc => by rw [hpc] at hp; cases hp)
      rw [hctx] at hdone
      cases hdone
  | leaveByClosed hlife hpc hdeq =>
      have hempty : s.world.engine.buffer.contents = [] := RingBuffer.contents_of_dequeue_closed hdeq
      refine h.worker rfl rfl rfl rfl (hupdated .left) (fun _ _ => rfl) (by simp [hlife])
        (fun _ => hpc) (fun _ => ⟨rfl, ?_, ?_, fun _ => le_rfl⟩)
      · simp [inDequeueAt, toLife]
      · simp [toLife, hempty]
  | @take id rb hlife hpc hdeq =>
      obtain ⟨hcontents, hsettings⟩ := RingBuffer.dequeue_done hdeq
      have hat : s.inDequeueAt w = 1 := by
        simp [inDequeueAt, hlife, hpc]
      refine h.worker rfl rfl rfl rfl (hupdated .loop)
        (fun w' hw => Function.update_of_ne hw _ _) (by simp [hlife])
        (by simp) (fun _ => ⟨hsettings.closed, ?_, ?_, ?_⟩)
      · simp [inDequeueAt, World.toWorker]
      · rw [hat, hcontents]
        simp [inDequeueAt, World.toWorker]
      · intro j
        rw [hcontents, hpc]
        simp only [World.toWorker, Function.update_self, WorkerPc.unhanded, List.count_cons,
          List.count_nil]
        omega
  | @iterate world env hlife hpc hstep =>
      obtain ⟨hbuffer, hunhanded⟩ := hstep.iterates hpc
      have hat : s.inDequeueAt w = 0 := by
        simp [inDequeueAt, hpc]
      refine h.worker rfl rfl rfl rfl (hupdated _)
        (fun w' hw => hstep.acted.workers w' (by simpa using Ne.symm hw)) (by simp [hlife])
        ?_ (fun _ => ⟨by rw [hbuffer], ?_, ?_, ?_⟩)
      · dsimp only
        rw [Function.update_self]
        split_ifs with hback
        · exact fun _ => hback
        · exact fun hne => absurd rfl hne
      · simp only [inDequeueAt, Function.update_self]
        split_ifs with h1 h2 <;> simp_all
      · rw [hbuffer, hat]
        simp
      · intro j
        have hcount := congrArg (List.count j) hunhanded
        rw [List.count_append] at hcount
        rw [hbuffer]
        dsimp only
        rw [List.count_append]
        omega

/-- The close of the buffer. -/
theorem Draining.close
    (h : Draining s)
    (hpc : s.shutdown = .cancelled) :
    Draining s.closeBuffer where
  idle := h.idle
  context := fun _ => h.context (by simp [hpc])
  closed := fun _ => rfl
  fewer := fun _ => le_rfl
  rest := by
    intro _
    show s.world.engine.buffer.contents =
      s.world.engine.buffer.contents.drop (s.inDequeue - s.inDequeue)
    rw [Nat.sub_self, List.drop_zero]
  accounted := by
    intro _ id
    show s.world.engine.buffer.contents.count id ≤
      s.world.engine.buffer.contents.count id + _ + _
    omega
  left := nofun

theorem step_draining
    (s : Lifecycle n m) (ev : Event n m) (s' : Lifecycle n m)
    (h : Draining s)
    (_hok : True)
    (hstep : s.step ev = some s') :
    Draining s' := by
  cases ev with
  | thread ev =>
      cases ev with
      | worker w env result delay =>
          exact draining_workerMove h (workerStep_moves hstep)
      | checkpoint order =>
          simp only [step] at hstep
          split_ifs at hstep
          obtain ⟨world, hworld, rfl⟩ := Option.map_eq_some_iff.mp hstep
          exact h.aside (World.checkpointStep_aside hworld)
      | scheduler now | submit c task generatedID now | cancel c id now | call c env =>
          obtain ⟨world, hworld, rfl⟩ := Option.map_eq_some_iff.mp hstep
          exact h.aside (World.step_aside hworld (by simp))
  | schedulerReturns =>
      simp only [step] at hstep
      split_ifs at hstep
      cases hstep
      exact h.aside ⟨rfl, fun _ => rfl⟩
  | checkpointerReturns =>
      simp only [step] at hstep
      split_ifs at hstep
      cases hstep
      exact ⟨h.idle, h.context, h.closed, h.fewer, h.rest, h.accounted, h.left⟩
  | cancelContext =>
      simp only [step] at hstep
      split_ifs at hstep
      cases hstep
      exact ⟨h.idle, fun _ => rfl, nofun, nofun, nofun, nofun, nofun⟩
  | closeBuffer =>
      simp only [step] at hstep
      split_ifs at hstep with hpc
      cases hstep
      exact h.close hpc
  | stopPool =>
      simp only [step] at hstep
      split_ifs at hstep with hpc
      cases hstep
      exact h.advance (by rw [hpc.1]; rfl) (fun _ => hpc.2)
  | waitDone =>
      simp only [step] at hstep
      split_ifs at hstep with hpc
      cases hstep
      exact h.advance (by rw [hpc.1]; rfl) (fun _ => h.left (by rw [hpc.1]; rfl))
  | timeout =>
      simp only [step] at hstep
      split_ifs at hstep with hpc
      cases hstep
      exact h.advance (by rw [hpc]; rfl) (fun _ => h.left (by rw [hpc]; rfl))
  | lastCheckpoint order =>
      simp only [step] at hstep
      split_ifs at hstep with hpc
      obtain ⟨world, hworld, rfl⟩ := Option.map_eq_some_iff.mp hstep
      exact (h.aside (World.checkpointStep_aside hworld)).advance (by rw [hpc]; rfl)
        (fun _ => h.left (by rw [hpc]; rfl))
  | lastCheckpointFails =>
      simp only [step] at hstep
      split_ifs at hstep with hpc
      cases hstep
      exact h.advance (by rw [hpc]; rfl) (fun _ => h.left (by rw [hpc]; rfl))
  | closeLog ok =>
      simp only [step] at hstep
      have hlog : World.Aside s.world
          { s.world with
            engine := { s.world.engine with walLog := s.world.engine.walLog.close } } :=
        ⟨rfl, fun _ => rfl⟩
      split_ifs at hstep with hpc hok <;> cases hstep
      all_goals exact (h.aside hlog).advance (by rw [hpc]; rfl) (fun _ => h.left (by rw [hpc]; rfl))

end Steps

/--
`Shutdown` has returned nil: the ring buffer is empty, and every task that was in it when it
was closed has been handed to the user handler since, if and only if there were no more
tasks in it then than workers in `Dequeue`.
-/
theorem shutdown_drains_iff
    (e : Engine) (d : Engine.Disk) (ids : List TaskID) (es : List (Event n m))
    (t : Lifecycle n m)
    (hrun : Run step (fun _ _ => True) (start e d ids) es t)
    (hret : t.shutdown = .returned) :
    (t.world.engine.buffer.contents = [] ∧
      ∀ id, t.atClose.count id ≤ t.handed.count id) ↔
      t.atClose.length ≤ t.readers := by
  have h : Draining t := hrun.invariant Draining step_draining (draining_start e d ids)
  have hclose : t.shutdown.pastClose = true := by
    rw [hret]
    rfl
  have hleft : ∀ w, t.life w = .left := h.left (by rw [hret]; rfl)
  have hidle : ∀ w, t.world.workers w = .idle := fun w => h.idle w (by simp [hleft w])
  have hdequeue : t.inDequeue = 0 := by
    simp [inDequeue, inDequeueAt, hleft]
  have hunhanded : ∀ id, t.unhanded id = 0 := by
    intro id
    simp [unhanded, hidle, WorkerPc.unhanded]
  have hrest := h.rest hclose
  rw [hdequeue, Nat.sub_zero] at hrest
  constructor
  · rintro ⟨hempty, -⟩
    rw [hrest] at hempty
    exact List.drop_eq_nil_iff.mp hempty
  · intro hfew
    have hempty : t.world.engine.buffer.contents = [] := by
      rw [hrest]
      exact List.drop_eq_nil_iff.mpr hfew
    refine ⟨hempty, fun id => ?_⟩
    have haccounted := h.accounted hclose id
    rw [hempty, hunhanded] at haccounted
    simpa using haccounted

/-- The steps of `Shutdown` after the workers have returned. -/
def wholeReturn (order : List TaskID) : List (Event n m) :=
  [.stopPool, .schedulerReturns, .checkpointerReturns, .waitDone] ++
    List.replicate 5 (.lastCheckpoint order) ++ [.closeLog true]

/-- The step of a worker, which the handler of its task returns nil to. -/
def workerEvent (now : Time) : Event 1 1 :=
  .thread (.worker 0 (.noError now 100) none 0)

/-- A worker waits in `Dequeue` when a task comes and the buffer is closed. -/
theorem shutdown_drains_iff_waiting :
    ∃ t : Lifecycle 1 1, Run step (fun _ _ => True)
        (start (System.initial System.roomyConfig).engine Engine.Disk.empty [])
        (workerEvent 5 :: (World.wholeSubmit 0 Task.zero "a" 10).map .thread ++
          [.cancelContext, .closeBuffer] ++ List.replicate 9 (workerEvent 20) ++
          wholeReturn ["a"]) t ∧
      t.shutdown = .returned ∧ t.atClose = ["a"] ∧
      t.world.engine.buffer.contents = [] ∧ t.atClose.count "a" ≤ t.handed.count "a" := by
  obtain ⟨t, hrun, hret, hclose, hreaders⟩ := Lib.exists_run_of_exec step (fun _ _ => True)
    (fun t : Lifecycle 1 1 => t.shutdown = .returned ∧ t.atClose = ["a"] ∧ t.readers = 1)
    (start (System.initial System.roomyConfig).engine Engine.Disk.empty [])
    (workerEvent 5 :: (World.wholeSubmit 0 Task.zero "a" 10).map .thread ++
      [.cancelContext, .closeBuffer] ++ List.replicate 9 (workerEvent 20) ++
      wholeReturn ["a"]) (by decide +kernel)
  have hdrained := (shutdown_drains_iff _ _ _ _ t hrun hret).mpr (by rw [hclose, hreaders]; rfl)
  exact ⟨t, hrun, hret, hclose, hdrained.1, hdrained.2 "a"⟩

/--
The worker looks at the context after it is cancelled: `Shutdown` returns nil, the task is
still in the buffer and has not been handed to the user handler.
-/
theorem shutdown_leaves_task :
    ∃ t : Lifecycle 1 1, Run step (fun _ _ => True)
        (start (System.initial System.roomyConfig).engine Engine.Disk.empty [])
        ((World.wholeSubmit 0 Task.zero "a" 10).map .thread ++
          [.cancelContext, .closeBuffer, workerEvent 20] ++ wholeReturn ["a"]) t ∧
      t.shutdown = .returned ∧ t.atClose = ["a"] ∧
        t.world.engine.buffer.contents = ["a"] ∧ t.handed = [] :=
  Lib.exists_run_of_exec step (fun _ _ => True)
    (fun t : Lifecycle 1 1 => t.shutdown = .returned ∧ t.atClose = ["a"] ∧
      t.world.engine.buffer.contents = ["a"] ∧ t.handed = []) _ _ (by decide +kernel)

end Lifecycle
end TaskQueue
