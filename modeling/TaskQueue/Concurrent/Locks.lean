import Mathlib.Tactic
import TaskQueue.Lib.LockOrder
import TaskQueue.Queue.Task

/-!
# The locks of the process

Which locks every function of the engine takes, in which order, and where it waits for
something else: a condition variable, a channel, a wait group, a timer or the user handler.
A function is a `LockScript`; a choice that depends on data (a branch, how often a loop
runs, which task or which log file) is left open, so a script has every trace that the
code has.

The locks are ordered: `metricsMu` before `e.mu`, both before the lock of a component,
and all of them before the lock of a task.  The `Error` and `Unwrap` methods of the error
of a handler, which `handleFailure` calls under `e.mu`, are taken to return and to leave
the locks alone; panics between `Lock` and `Unlock` are not modelled.
-/

namespace TaskQueue

open Queue
open Lib (LockAction LockMode LockScript LockState LockThread)
open Lib.LockScript (Balanced balanced_choose balanced_locked_condWait balanced_skip
  balanced_wait condWait locked oneOf rlocked seqs)

namespace Locks

/-- The locks; each WAL handle and each task has its own. -/
inductive Mutex
  /-- `metricsMu` of the engine. -/
  | stats
  /-- `mu` of the engine. -/
  | engine
  /-- `idMu` of `generateID`. -/
  | ids
  /-- `mu` of a WAL; every rotation opens a new one. -/
  | log (handle : Nat)
  /-- `mu` of the pool. -/
  | pool
  /-- `mu` of the ring buffer. -/
  | buffer
  /-- `mu` of the delayed heap. -/
  | heap
  /-- `dlqMu` of the engine. -/
  | dlq
  /-- `mu` of the metrics collector. -/
  | collector
  /-- `mu` of the token bucket. -/
  | limiter
  /-- `mu` of a task. -/
  | task (id : TaskID)
deriving DecidableEq, Repr

/-- The order of the locks. -/
def Mutex.rank : Mutex → Nat
  | .stats => 0
  | .engine => 1
  | .task _ => 3
  | _ => 2

/-- What the code does to the locks. -/
abbrev Script := LockScript Mutex

/-- A lock that is taken for a few lines of code without calls. -/
def briefly (l : Mutex) : Script := locked l .skip

/-! ### Tasks, the ring buffer, the heap -/

/-- `Task.GetState`. -/
def getState (id : TaskID) : Script := rlocked (.task id) .skip

/-- `Task.SetState` and `Task.ForceSetState`. -/
def forceSetState (id : TaskID) : Script := briefly (.task id)

/-- `RingBuffer.Enqueue`. -/
def enqueue : Script := locked .buffer (.loop (condWait .buffer))

/-- `RingBuffer.Dequeue`. -/
def dequeue : Script := locked .buffer (.loop (condWait .buffer))

/-- `RingBuffer.Close`. -/
def bufferClose : Script := briefly .buffer

/-- `RingBuffer.Len`. -/
def bufferLen : Script := briefly .buffer

/-- `DelayedHeap.Push`. -/
def heapPush : Script := briefly .heap

/-- `DelayedHeap.Remove`. -/
def heapRemove : Script := briefly .heap

/-- `DelayedHeap.Len`. -/
def heapLen : Script := briefly .heap

/-- `DelayedHeap.NextDeadline`. -/
def nextDeadline : Script := briefly .heap

/-- `DelayedHeap.PromoteReady`. -/
def promoteReady : Script := locked .heap (.loop (.choose forceSetState))

/-! ### The log and the counters -/

/-- `Append`, `Close`, `LastSeq`, `Size` and `SetSeq` of whatever handle `e.walLog` points to. -/
def onLog : Script := .choose fun handle => briefly (.log handle)

/-- `RecordEnqueue` and `RecordComplete` of the collector; the other counters are atomic. -/
def recordSample : Script := briefly .collector

/-- `GetSnapshot` of the collector. -/
def getSnapshot : Script := briefly .collector

/-- A counter of the engine goes up. -/
def count : Script := briefly .stats

/-- `Pool.Stats`, and the two blocks of a worker that count. -/
def poolStats : Script := briefly .pool

/-! ### The calls of the engine -/

/-- `generateID`. -/
def generateID : Script := briefly .ids

/-- `Submit` once the record is written: the heap, or the buffer and perhaps its error. -/
def place : Script :=
  oneOf
    [seqs [heapPush, count, recordSample],
      enqueue,
      seqs [enqueue, count, recordSample]]

/-- `Submit`. -/
def submit : Script :=
  oneOf
    [briefly .engine,
      seqs
        [locked .engine (oneOf [.skip, generateID]),
          oneOf
            [briefly .engine,
              seqs [onLog, briefly .engine],
              seqs [onLog, place]]]]

/-- `GetTask`. -/
def getTask : Script := rlocked .engine .skip

/-- `CancelTask`. -/
def cancelTask : Script :=
  oneOf
    [briefly .engine,
      seqs [briefly .engine, onLog],
      seqs [briefly .engine, onLog, heapRemove]]

/-- `ListDLQ`. -/
def listDLQ : Script := rlocked .dlq .skip

/-- `Stats`. -/
def stats : Script :=
  locked .stats
    (seqs
      [oneOf [.skip, poolStats],
        oneOf [.skip, seqs [onLog, onLog]],
        rlocked .dlq .skip,
        bufferLen,
        heapLen])

/-- Whatever code outside the engine does with it: any calls, and any waits between them. -/
def client : Script :=
  .loop
    (oneOf
      [.wait, submit, getTask, cancelTask, listDLQ, stats, getSnapshot,
        .choose getState, .choose forceSetState])

/-! ### The goroutines -/

/-- `handleSuccess`. -/
def handleSuccess (id : TaskID) : Script :=
  seqs [locked .engine (forceSetState id), onLog, count]

/-- `handleFailure`. -/
def handleFailure (id : TaskID) : Script :=
  seqs
    [count,
      locked .engine (forceSetState id),
      onLog,
      oneOf
        [seqs [briefly .dlq, count],
          seqs [heapPush, count]]]

/-- The handler that `wrapHandler` returns. -/
def wrapHandler (id : TaskID) : Script :=
  seqs
    [locked .engine (forceSetState id),
      onLog,
      client,
      oneOf
        [handleFailure id,
          seqs [recordSample, handleSuccess id]]]

/-- An iteration of `Pool.worker`. -/
def workerIteration (id : TaskID) : Script :=
  seqs
    [dequeue,
      poolStats,
      forceSetState id,
      wrapHandler id,
      poolStats,
      getState id,
      oneOf [.skip, forceSetState id]]

/-- `Pool.worker`; it returns before `Dequeue`, or when that reports the end. -/
def worker : Script :=
  seqs [.loop (.choose workerIteration), oneOf [.skip, dequeue]]

/-- What `Scheduler.Run` does with a task that is due. -/
def scheduleReady (id : TaskID) : Script :=
  seqs
    [getState id,
      oneOf
        [.skip,
          forceSetState id,
          enqueue,
          seqs [enqueue, forceSetState id, heapPush]]]

/-- An iteration of `Scheduler.Run`. -/
def schedulerPass : Script :=
  seqs
    [promoteReady,
      .loop (.choose scheduleReady),
      nextDeadline,
      oneOf [.skip, .wait]]

/-- `Scheduler.Run`; it returns from the `select`, or when the buffer is closed. -/
def schedulerRun : Script :=
  seqs
    [.loop schedulerPass,
      oneOf
        [.skip,
          seqs
            [promoteReady,
              .loop (.choose scheduleReady),
              .choose getState,
              enqueue]]]

/-- `rotateWAL`; opening or renaming a file may fail. -/
def rotateWAL : Script := seqs [onLog, oneOf [.skip, seqs [onLog, onLog]]]

/-- `checkpoint`; writing the snapshot may fail. -/
def checkpoint : Script := seqs [rlocked .engine onLog, oneOf [.skip, rotateWAL]]

/-- `checkpointLoop`. -/
def checkpointLoop : Script := seqs [.loop (seqs [.wait, checkpoint]), .wait]

/-- `Shutdown`: the pool, the other goroutines or the timeout, the last checkpoint. -/
def shutdown : Script :=
  seqs
    [bufferClose,
      oneOf [.skip, .wait],
      .wait,
      oneOf [.skip, seqs [checkpoint, onLog]]]

/-- What `rebuildQueues` does with a task. -/
def rebuildTask (id : TaskID) : Script :=
  seqs
    [getState id,
      oneOf [.skip, enqueue, heapPush, seqs [forceSetState id, enqueue]]]

/-- `Recover`; reading the files may fail. -/
def recover : Script :=
  seqs
    [.loop (.choose forceSetState),
      oneOf [.skip, seqs [oneOf [.skip, onLog], .loop (.choose rebuildTask)]]]

/-! ### The HTTP handlers -/

/-- `submitTask`. -/
def submitTask : Script := seqs [briefly .limiter, oneOf [.skip, submit]]

/-- `cancelTask` of the server. -/
def cancelTaskHandler : Script := seqs [cancelTask, oneOf [.skip, getTask]]

/-- The goroutines of the process. -/
inductive Goroutine
  | recover
  | worker
  | scheduler
  | checkpointLoop
  | shutdown
  /-- An HTTP request. -/
  | handleTasks
  | handleTaskByID
  | handleDLQ
  | handleStats
  | handleMetrics
  /-- Other Go code that has the engine. -/
  | client
deriving DecidableEq, Repr

/-- What a goroutine does to the locks. -/
def Goroutine.script : Goroutine → Script
  | .recover => Locks.recover
  | .worker => Locks.worker
  | .scheduler => schedulerRun
  | .checkpointLoop => Locks.checkpointLoop
  | .shutdown => Locks.shutdown
  | .handleTasks => oneOf [.skip, submitTask]
  | .handleTaskByID => oneOf [.skip, getTask, cancelTaskHandler]
  | .handleDLQ => oneOf [.skip, listDLQ]
  | .handleStats => stats
  | .handleMetrics => oneOf [.skip, getSnapshot]
  | .client => Locks.client

/-! ### Every function takes the locks in order -/

section Order

variable {floor : Nat}

theorem balanced_briefly
    {l : Mutex}
    (h : floor ≤ l.rank) :
    Balanced Mutex.rank floor (briefly l) :=
  balanced_skip.locked h

theorem balanced_getState
    (id : TaskID)
    (h : floor ≤ 3) :
    Balanced Mutex.rank floor (getState id) :=
  balanced_skip.rlocked h

theorem balanced_forceSetState
    (id : TaskID)
    (h : floor ≤ 3) :
    Balanced Mutex.rank floor (forceSetState id) :=
  balanced_briefly h

theorem balanced_onLog
    (h : floor ≤ 2) :
    Balanced Mutex.rank floor onLog :=
  balanced_choose fun _ => balanced_briefly h

/-- The lock of the heap is held while the tasks are marked. -/
theorem balanced_promoteReady
    (h : floor ≤ 2) :
    Balanced Mutex.rank floor promoteReady := by
  refine Balanced.locked ?_ h
  exact (balanced_choose fun id => balanced_forceSetState id le_rfl).loop

/-- `e.mu` is held while a task is marked. -/
theorem balanced_markTask
    (id : TaskID)
    (h : floor ≤ 1) :
    Balanced Mutex.rank floor (locked .engine (forceSetState id)) :=
  (balanced_forceSetState id (by decide)).locked h

/-- `Enqueue` waits, so no lock may be held when it is called. -/
theorem balanced_enqueue : Balanced Mutex.rank 0 enqueue :=
  balanced_locked_condWait

theorem balanced_dequeue : Balanced Mutex.rank 0 dequeue :=
  balanced_locked_condWait

/-- A counter goes up: `metricsMu` comes first in the order, so no lock may be held. -/
theorem balanced_count : Balanced Mutex.rank 0 count :=
  balanced_briefly le_rfl

theorem balanced_engine : Balanced Mutex.rank 0 (briefly .engine) :=
  balanced_briefly (by decide)

theorem balanced_heapPush : Balanced Mutex.rank 0 heapPush :=
  balanced_briefly (by decide)

theorem balanced_recordSample : Balanced Mutex.rank 0 recordSample :=
  balanced_briefly (by decide)

theorem balanced_poolStats : Balanced Mutex.rank 0 poolStats :=
  balanced_briefly (by decide)

theorem balanced_place : Balanced Mutex.rank 0 place := by
  have hcounted := balanced_count.seq (balanced_recordSample.seq balanced_skip)
  exact (balanced_heapPush.seq hcounted).branch <|
    balanced_enqueue.branch <|
    (balanced_enqueue.seq hcounted).branch balanced_skip

theorem balanced_submit : Balanced Mutex.rank 0 submit := by
  have hregister : Balanced Mutex.rank 0 (locked .engine (oneOf [.skip, generateID])) := by
    refine Balanced.locked ?_ (by decide)
    exact balanced_skip.branch <| (balanced_briefly (by decide)).branch balanced_skip
  have hlog := balanced_onLog (Nat.zero_le 2)
  have hafter := balanced_engine.branch <|
    (hlog.seq <| balanced_engine.seq balanced_skip).branch <|
    (hlog.seq <| balanced_place.seq balanced_skip).branch balanced_skip
  exact balanced_engine.branch <|
    (hregister.seq <| hafter.seq balanced_skip).branch balanced_skip

theorem balanced_getTask : Balanced Mutex.rank 0 getTask :=
  balanced_skip.rlocked (by decide)

theorem balanced_cancelTask : Balanced Mutex.rank 0 cancelTask := by
  have hlog := balanced_onLog (Nat.zero_le 2)
  have hremove : Balanced Mutex.rank 0 heapRemove := balanced_briefly (by decide)
  exact balanced_engine.branch <|
    (balanced_engine.seq <| hlog.seq balanced_skip).branch <|
    (balanced_engine.seq <| hlog.seq <| hremove.seq balanced_skip).branch balanced_skip

theorem balanced_listDLQ
    (h : floor ≤ 2) :
    Balanced Mutex.rank floor listDLQ :=
  balanced_skip.rlocked h

/-- `Stats` holds `metricsMu` while it asks the components, one after the other. -/
theorem balanced_stats : Balanced Mutex.rank 0 stats := by
  refine Balanced.locked ?_ le_rfl
  have hpool : Balanced Mutex.rank 1 poolStats := balanced_briefly (by decide)
  have hlog : Balanced Mutex.rank 1 onLog := balanced_onLog (by decide)
  have hlen : Balanced Mutex.rank 1 bufferLen := balanced_briefly (by decide)
  have hheap : Balanced Mutex.rank 1 heapLen := balanced_briefly (by decide)
  exact (balanced_skip.branch <| hpool.branch balanced_skip).seq <|
    (balanced_skip.branch <| (hlog.seq <| hlog.seq balanced_skip).branch balanced_skip).seq <|
    (balanced_listDLQ (by decide)).seq <|
    hlen.seq <| hheap.seq balanced_skip

theorem balanced_client : Balanced Mutex.rank 0 client := by
  have hget := balanced_choose fun id => balanced_getState id (Nat.zero_le 3)
  have hset := balanced_choose fun id => balanced_forceSetState id (Nat.zero_le 3)
  refine Balanced.loop ?_
  exact balanced_wait.branch <| balanced_submit.branch <| balanced_getTask.branch <|
    balanced_cancelTask.branch <| (balanced_listDLQ (by decide)).branch <|
    balanced_stats.branch <| (balanced_briefly (by decide)).branch <|
    hget.branch <| hset.branch balanced_skip

theorem balanced_handleSuccess
    (id : TaskID) :
    Balanced Mutex.rank 0 (handleSuccess id) :=
  (balanced_markTask id (by decide)).seq <|
    (balanced_onLog (by decide)).seq <|
    balanced_count.seq balanced_skip

theorem balanced_handleFailure
    (id : TaskID) :
    Balanced Mutex.rank 0 (handleFailure id) := by
  have hbury : Balanced Mutex.rank 0 (briefly .dlq) := balanced_briefly (by decide)
  have hcounted := balanced_count.seq balanced_skip
  have hafter := (hbury.seq hcounted).branch <|
    (balanced_heapPush.seq hcounted).branch balanced_skip
  exact balanced_count.seq <|
    (balanced_markTask id (by decide)).seq <|
    (balanced_onLog (by decide)).seq <|
    hafter.seq balanced_skip

theorem balanced_wrapHandler
    (id : TaskID) :
    Balanced Mutex.rank 0 (wrapHandler id) := by
  have hsucceeds := balanced_recordSample.seq <| (balanced_handleSuccess id).seq balanced_skip
  have hafter := (balanced_handleFailure id).branch <| hsucceeds.branch balanced_skip
  exact (balanced_markTask id (by decide)).seq <|
    (balanced_onLog (by decide)).seq <|
    balanced_client.seq <|
    hafter.seq balanced_skip

theorem balanced_worker : Balanced Mutex.rank 0 worker := by
  have hiteration : ∀ id, Balanced Mutex.rank 0 (workerIteration id) := by
    intro id
    have hmark := balanced_forceSetState id (Nat.zero_le 3)
    exact balanced_dequeue.seq <| balanced_poolStats.seq <| hmark.seq <|
      (balanced_wrapHandler id).seq <| balanced_poolStats.seq <|
      (balanced_getState id (by decide)).seq <|
      (balanced_skip.branch <| hmark.branch balanced_skip).seq balanced_skip
  exact (balanced_choose hiteration).loop.seq <|
    (balanced_skip.branch <| balanced_dequeue.branch balanced_skip).seq balanced_skip

theorem balanced_scheduleReady
    (id : TaskID) :
    Balanced Mutex.rank 0 (scheduleReady id) := by
  have hmark := balanced_forceSetState id (Nat.zero_le 3)
  have hcases := balanced_skip.branch <| hmark.branch <| balanced_enqueue.branch <|
    (balanced_enqueue.seq <| hmark.seq <| balanced_heapPush.seq balanced_skip).branch
      balanced_skip
  exact (balanced_getState id (by decide)).seq <| hcases.seq balanced_skip

theorem balanced_schedulerRun : Balanced Mutex.rank 0 schedulerRun := by
  have hpromote := balanced_promoteReady (Nat.zero_le 2)
  have htasks := (balanced_choose balanced_scheduleReady).loop
  have hdeadline : Balanced Mutex.rank 0 nextDeadline := balanced_briefly (by decide)
  have hpass := hpromote.seq <| htasks.seq <| hdeadline.seq <|
    (balanced_skip.branch <| balanced_wait.branch balanced_skip).seq balanced_skip
  have hlast := hpromote.seq <| htasks.seq <|
    (balanced_choose fun id => balanced_getState id (Nat.zero_le 3)).seq <|
    balanced_enqueue.seq balanced_skip
  exact hpass.loop.seq <| (balanced_skip.branch <| hlast.branch balanced_skip).seq balanced_skip

/-- `checkpoint` asks the log for its sequence number while it holds `e.mu`. -/
theorem balanced_checkpoint : Balanced Mutex.rank 0 checkpoint := by
  have hlog := balanced_onLog (Nat.zero_le 2)
  have hrotate : Balanced Mutex.rank 0 rotateWAL :=
    hlog.seq <|
    (balanced_skip.branch <| (hlog.seq <| hlog.seq balanced_skip).branch balanced_skip).seq
      balanced_skip
  have hcapture : Balanced Mutex.rank 0 (rlocked .engine onLog) :=
    (balanced_onLog le_rfl).rlocked (by decide)
  exact hcapture.seq <|
    (balanced_skip.branch <| hrotate.branch balanced_skip).seq balanced_skip

theorem balanced_checkpointLoop : Balanced Mutex.rank 0 checkpointLoop :=
  (balanced_wait.seq <| balanced_checkpoint.seq balanced_skip).loop.seq <|
    balanced_wait.seq balanced_skip

theorem balanced_shutdown : Balanced Mutex.rank 0 shutdown := by
  have hclose : Balanced Mutex.rank 0 bufferClose := balanced_briefly (by decide)
  have hlast := balanced_checkpoint.seq <| (balanced_onLog (by decide)).seq balanced_skip
  exact hclose.seq <| (balanced_skip.branch <| balanced_wait.branch balanced_skip).seq <|
    balanced_wait.seq <|
    (balanced_skip.branch <| hlast.branch balanced_skip).seq balanced_skip

theorem balanced_recover : Balanced Mutex.rank 0 recover := by
  have hrebuild : ∀ id, Balanced Mutex.rank 0 (rebuildTask id) := by
    intro id
    have hmark := balanced_forceSetState id (Nat.zero_le 3)
    have hcases := balanced_skip.branch <| balanced_enqueue.branch <|
      balanced_heapPush.branch <|
      (hmark.seq <| balanced_enqueue.seq balanced_skip).branch balanced_skip
    exact (balanced_getState id (by decide)).seq <| hcases.seq balanced_skip
  have happly := (balanced_choose fun id => balanced_forceSetState id (Nat.zero_le 3)).loop
  have hopen := balanced_skip.branch <| (balanced_onLog (Nat.zero_le 2)).branch balanced_skip
  have hrest := hopen.seq <| (balanced_choose hrebuild).loop.seq balanced_skip
  exact happly.seq <| (balanced_skip.branch <| hrest.branch balanced_skip).seq balanced_skip

/-- Every goroutine takes the locks in order, and keeps none. -/
theorem Goroutine.balanced
    (g : Goroutine) :
    Balanced Mutex.rank 0 g.script := by
  cases g with
  | recover =>
      exact balanced_recover
  | worker =>
      exact balanced_worker
  | scheduler =>
      exact balanced_schedulerRun
  | checkpointLoop =>
      exact balanced_checkpointLoop
  | shutdown =>
      exact balanced_shutdown
  | handleTasks =>
      have hallow : Balanced Mutex.rank 0 (briefly .limiter) := balanced_briefly (by decide)
      have hsubmit := hallow.seq <|
        (balanced_skip.branch <| balanced_submit.branch balanced_skip).seq balanced_skip
      exact balanced_skip.branch <| hsubmit.branch balanced_skip
  | handleTaskByID =>
      have hcancel := balanced_cancelTask.seq <|
        (balanced_skip.branch <| balanced_getTask.branch balanced_skip).seq balanced_skip
      exact balanced_skip.branch <| balanced_getTask.branch <| hcancel.branch balanced_skip
  | handleDLQ =>
      exact balanced_skip.branch <| (balanced_listDLQ (by decide)).branch balanced_skip
  | handleStats =>
      exact balanced_stats
  | handleMetrics =>
      exact balanced_skip.branch <| (balanced_briefly (by decide)).branch balanced_skip
  | client =>
      exact balanced_client

end Order

/-! ### No deadlock -/

/-- The goroutines before their first step, each with what it is going to do. -/
def launch {ι : Type} (traces : ι → List (LockAction Mutex)) : LockState ι Mutex :=
  fun i => ⟨[], traces i⟩

/-- In every state, what is left of every goroutine takes the locks in order. -/
theorem reaches_inOrder
    {ι : Type} [DecidableEq ι]
    {goroutines : ι → Goroutine} {traces : ι → List (LockAction Mutex)}
    (htraces : ∀ i, (goroutines i).script.Runs (traces i))
    {s : LockState ι Mutex}
    (hreach : (launch traces).Reaches s)
    (i : ι) :
    Lib.InOrder Mutex.rank (s i).held (s i).rest := by
  refine hreach.inOrder ?_ i
  intro j
  have hkeeps := (goroutines j).balanced [] (by simp)
  simpa [launch] using (htraces j).inOrder hkeeps (show Lib.InOrder Mutex.rank [] [] from rfl)

/-- A call of `Stats` before there is a pool or a log. -/
def statsTrace : List (LockAction Mutex) :=
  [.acquire .stats .exclusive,
    .acquire .dlq .shared, .release .dlq,
    .acquire .buffer .exclusive, .release .buffer,
    .acquire .heap .exclusive, .release .heap,
    .release .stats]

theorem stats_runs_statsTrace : Goroutine.handleStats.script.Runs statsTrace := by
  have hbriefly : ∀ l mode, (seqs [.acquire l mode, .skip, .release l] : Script).Runs
      [.acquire l mode, .release l] := by
    intro l mode
    exact .seq (.acquire l mode) (.seq .skip (.seq (.release l) .skip))
  have hbody := LockScript.Runs.seq (.left (oneOf [poolStats]) .skip) <|
    .seq (.left (oneOf [seqs [onLog, onLog]]) .skip) <|
    .seq (hbriefly .dlq .shared) <|
    .seq (hbriefly .buffer .exclusive) <|
    .seq (hbriefly .heap .exclusive) .skip
  exact .seq (.acquire .stats .exclusive) (.seq hbody (.seq (.release .stats) .skip))

/-- Two calls of `Stats`, the first one with `metricsMu` and the second one waiting for it. -/
def twoStats : LockState (Fin 2) Mutex :=
  Function.update (launch fun _ => statsTrace) 0
    ⟨[(.stats, .exclusive)], statsTrace.tail⟩

end Locks
end TaskQueue
