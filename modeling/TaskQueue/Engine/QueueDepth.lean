import Mathlib.Tactic
import TaskQueue.Lib.Runs
import TaskQueue.Metrics.Collector
import TaskQueue.Engine.Requeue

/-!
# The queue-depth gauge

One process with its metrics, from `Recover` on; its operations may have any outcome of their
I/O.  `Submit` calls `RecordEnqueue` when it succeeds, wherever the task went, and
`wrapHandler` calls `RecordDequeue` when it starts.

The difference between the gauge and the length of the ring buffer changes in two cases
(`step_imbalance`): a `Submit` that puts its task in the heap is counted, and a task that the
scheduler moves to the buffer is not.
-/

namespace TaskQueue

open Lib (GoMap Run)
open Queue
open Wal (Log LogEnv LogRecord Snapshot)

namespace Engine

/-- The buffer after a `Submit`. -/
theorem submit_len
    (e : Engine) (d : Disk) (task : Task) (generatedID : TaskID) (now : Time) (io : LogEnv) :
    (e.submit d task generatedID now io).1.buffer.len =
      match (e.submit d task generatedID now io).2.2 with
      | .ok _ =>
          if (e.prepare task generatedID now).state = .scheduled then e.buffer.len
          else e.buffer.len + 1
      | _ => e.buffer.len := by
  cases hdup : e.duplicateOf task with
  | some existing =>
      simp [submit, hdup]
  | none =>
      rcases submit_ends d generatedID now io hdup with ⟨w, disk, err, -, -, hsub⟩ | ⟨w, hsub⟩
      · rw [hsub]
        rfl
      · rw [hsub]
        rcases place_cases { e.register (e.prepare task generatedID now) with walLog := w }
            (e.prepare task generatedID now).id (e.prepare task generatedID now).state with
          ⟨hs, hp⟩ | ⟨hs, rb, henq, hp⟩ | ⟨-, err, hp⟩ | ⟨-, hp⟩
        · rw [hp]
          dsimp only
          rw [if_pos hs]
          rfl
        · rw [hp]
          dsimp only
          rw [if_neg hs]
          exact RingBuffer.enqueue_len henq
        · rw [hp]
          rfl
        · rw [hp]
          rfl

/-- `CancelTask` leaves the buffer alone. -/
theorem cancelTask_buffer
    (e : Engine) (d : Disk) (id : TaskID) (now : Time) (io : LogEnv) :
    (e.cancelTask d id now io).1.buffer = e.buffer := by
  rcases cancelTask_cases e d id now io with
    ⟨err, h⟩ | ⟨t, -, -, ⟨-, h⟩ | ⟨-, h⟩⟩
  · rw [h]
  · rw [h]
    rfl
  · rw [h]
    rfl

/-- So does the end of an iteration of a worker. -/
theorem finishTask_buffer
    (e : Engine) (d : Disk) (id : TaskID) (result : Option HandlerError)
    (now : Time) (delay : Duration) (io : LogEnv) :
    (e.finishTask d id result now delay io).1.buffer = e.buffer := by
  cases hget : e.tasks.get id with
  | none =>
      unfold finishTask afterExecution
      cases result with
      | none =>
          dsimp only
          split_ifs <;> rfl
      | some err =>
          simp only [handleFailure, hget]
          split_ifs <;> rfl
  | some t =>
      rcases finishTask_cases hget d result now delay io with
        ⟨-, h⟩ | ⟨err, -, -, h⟩ | ⟨err, -, -, h⟩
      · rw [h]
        rfl
      · rw [h]
        rfl
      · rw [h]
        rfl

/-- The scheduler's `Enqueue` of a ready task succeeds. -/
def movesToBuffer (e : Engine) (id : TaskID) (now : Time) : Bool :=
  match e.tasks.get id with
  | none => false
  | some t =>
      decide (t.state ≠ .cancelled) && !expired t now && !e.buffer.closed &&
        decide (e.buffer.size < e.buffer.cap)

/-- The buffer after the handling of a ready task. -/
theorem scheduleReady_len
    {e e' : Engine} {id : TaskID} {now later : Time}
    (h : e.scheduleReady id now later = some e') :
    e'.buffer.len = if e.movesToBuffer id now then e.buffer.len + 1 else e.buffer.len := by
  unfold scheduleReady at h
  unfold movesToBuffer
  cases hget : e.tasks.get id with
  | none =>
      rw [hget] at h
      cases h
      rfl
  | some t =>
      simp only [hget] at h ⊢
      split_ifs at h with hc hx
      · cases h
        simp [hc]
      · cases h
        simp [hx, updateTask]
      · cases hclosed : e.buffer.closed with
        | true =>
            simp [RingBuffer.enqueue_of_closed hclosed] at h
        | false =>
            by_cases hroom : e.buffer.size < e.buffer.cap
            · rw [RingBuffer.enqueue_of_room hclosed hroom] at h
              cases h
              simp [hc, hx, hroom, RingBuffer.len, RingBuffer.put]
            · have hfull : e.buffer.size = e.buffer.cap :=
                Nat.le_antisymm e.buffer.size_le (Nat.le_of_not_lt hroom)
              rw [RingBuffer.enqueue_of_full hclosed hfull] at h
              split_ifs at h with hp
              cases h
              simp [hroom, pushHeap, postpone, updateTask]

end Engine

/-- An engine at work, with its metrics. -/
structure Metered extends Runtime where
  metrics : Metrics

namespace Metered

open Engine (HandlerError Recovered SubmitResult)

/-- The steps; `latency` and `execTime` are the durations that are recorded. -/
inductive Event
  | submit (task : Task) (generatedID : TaskID) (now : Time) (io : LogEnv) (latency : Duration)
  | unblock (id : TaskID) (latency : Duration)
  | cancel (id : TaskID) (now : Time) (io : LogEnv)
  | promote (now : Time)
  | schedule (now later : Time)
  | start (now : Time) (io : LogEnv)
  | finish (id : TaskID) (result : Option HandlerError) (now : Time) (delay : Duration)
      (io : LogEnv) (execTime : Duration)
  | checkpoint (order : List TaskID)

/-- The process that `Recover` leaves. -/
def started (e : Engine) (d : Engine.Disk) : Metered where
  toRuntime := .started e d
  metrics := Metrics.new

/-- The process after an operation that records nothing. -/
def ran (s : Metered) (r : Runtime) : Metered where
  toRuntime := r
  metrics := s.metrics

/-- The process after a `Submit` with the given effect and result. -/
def answered (s : Metered) (latency : Duration) (r : Runtime × SubmitResult) : Metered where
  toRuntime := r.1
  metrics :=
    match r.2 with
    | .ok _ => s.metrics.recordEnqueue latency
    | _ => s.metrics

/-- The calls of `wrapHandler` and `handleFailure` after the user handler has returned. -/
def recordEnd (m : Metrics) (e : Engine) (id : TaskID) (result : Option HandlerError)
    (execTime : Duration) : Metrics :=
  match result with
  | none => m.recordComplete execTime
  | some err =>
      match e.tasks.get id with
      | none => m.recordFail
      | some t =>
          if Engine.finalFailure t err then m.recordFail.recordDead
          else m.recordFail.recordRetry

@[simp] theorem queueDepth_recordEnd
    (m : Metrics) (e : Engine) (id : TaskID) (result : Option HandlerError)
    (execTime : Duration) :
    (recordEnd m e id result execTime).queueDepth = m.queueDepth := by
  unfold recordEnd
  split
  · rfl
  · split
    · rfl
    · split_ifs <;> rfl

/-- The transitions of the process. -/
def step (s : Metered) : Event → Option Metered
  | .submit task generatedID now io latency =>
      some (s.answered latency (s.toRuntime.submit task generatedID now io))
  | .unblock id latency => (s.toRuntime.unblock id).map (s.answered latency)
  | .cancel id now io => some (s.ran (s.toRuntime.cancel id now io))
  | .promote now => (s.toRuntime.promote now).map s.ran
  | .schedule now later => (s.toRuntime.schedule now later).map s.ran
  | .start now io =>
      (s.toRuntime.start now io).map fun r => ⟨r, s.metrics.recordDequeue⟩
  | .finish id result now delay io execTime =>
      (s.toRuntime.finish id result now delay io).map fun r =>
        ⟨r, recordEnd s.metrics s.engine id result execTime⟩
  | .checkpoint order => (s.toRuntime.checkpoint order).map s.ran

/-- How far the gauge is above the number of tasks in the ring buffer. -/
def imbalance (s : Metered) : Int :=
  s.metrics.queueDepth - s.engine.buffer.len

/--
What a step adds to the difference: one for a `Submit` that succeeds with a task for the
heap, minus one for a ready task that the scheduler moves to the buffer.
-/
def miscount (s : Metered) : Event → Int
  | .submit task generatedID now io _ =>
      match (s.engine.submit s.disk task generatedID now io).2.2 with
      | .ok _ => if (s.engine.prepare task generatedID now).state = .scheduled then 1 else 0
      | _ => 0
  | .schedule now _ =>
      match s.ready with
      | [] => 0
      | id :: _ => if s.engine.movesToBuffer id now then -1 else 0
  | _ => 0

theorem imbalance_submit
    (s : Metered) (task : Task) (generatedID : TaskID) (now : Time) (io : LogEnv)
    (latency : Duration) :
    (s.answered latency (s.toRuntime.submit task generatedID now io)).imbalance =
      s.imbalance + s.miscount (.submit task generatedID now io latency) := by
  have hlen := Engine.submit_len s.engine s.disk task generatedID now io
  unfold answered imbalance miscount
  rw [Runtime.submit_eq]
  cases hr : (s.engine.submit s.disk task generatedID now io).2.2 with
  | ok id =>
      simp only [hr, Metrics.recordEnqueue] at hlen ⊢
      split_ifs at hlen ⊢
      · omega
      · rw [hlen]
        push_cast
        ring
  | duplicate existing =>
      simp only [hr] at hlen ⊢
      omega
  | error err =>
      simp only [hr] at hlen ⊢
      omega
  | blocked id =>
      simp only [hr] at hlen ⊢
      omega

/-- The two ways in which the gauge goes wrong. -/
theorem step_imbalance
    {s t : Metered} {ev : Event}
    (h : s.step ev = some t) :
    t.imbalance = s.imbalance + s.miscount ev := by
  cases ev with
  | submit task generatedID now io latency =>
      cases h
      exact imbalance_submit s task generatedID now io latency
  | unblock id latency =>
      obtain ⟨r, hr, rfl⟩ := Option.map_eq_some_iff.mp h
      obtain ⟨-, ⟨rb, henq, rfl⟩ | ⟨err, -, rfl⟩⟩ := Runtime.unblock_some hr
      · have hlen := RingBuffer.enqueue_len henq
        simp only [imbalance, miscount, answered, Metrics.recordEnqueue]
        omega
      · exact (Int.add_zero _).symm
  | cancel id now io =>
      cases h
      simp only [imbalance, miscount, ran, Runtime.cancel, Engine.cancelTask_buffer]
      omega
  | promote now =>
      obtain ⟨r, hr, rfl⟩ := Option.map_eq_some_iff.mp h
      obtain ⟨-, rfl⟩ := Runtime.promote_some hr
      exact (Int.add_zero _).symm
  | schedule now later =>
      obtain ⟨r, hr, rfl⟩ := Option.map_eq_some_iff.mp h
      obtain ⟨id, rest, e, hready, he, rfl⟩ := Runtime.schedule_some hr
      have hlen := Engine.scheduleReady_len he
      simp only [imbalance, miscount, ran, hready]
      split_ifs at hlen ⊢ <;> omega
  | start now io =>
      obtain ⟨r, hr, rfl⟩ := Option.map_eq_some_iff.mp h
      obtain ⟨id, e, d, he, rfl⟩ := Runtime.start_some hr
      obtain ⟨rb, hdeq, rfl, -⟩ := Engine.startTask_some he
      have hlen : s.engine.buffer.len = rb.len + 1 := RingBuffer.dequeue_len hdeq
      show s.metrics.queueDepth - 1 - (rb.len : Int) =
        s.metrics.queueDepth - s.engine.buffer.len + 0
      omega
  | finish id result now delay io execTime =>
      obtain ⟨r, hr, rfl⟩ := Option.map_eq_some_iff.mp h
      obtain ⟨-, rfl⟩ := Runtime.finish_some hr
      simp only [imbalance, miscount, Engine.finishTask_buffer, queueDepth_recordEnd]
      omega
  | checkpoint order =>
      obtain ⟨r, hr, rfl⟩ := Option.map_eq_some_iff.mp h
      obtain ⟨-, rfl⟩ := Runtime.checkpoint_some hr
      exact (Int.add_zero _).symm

/-- The gauge is what it is documented to be. -/
def GaugeRight (s : Metered) : Prop :=
  s.metrics.queueDepth = s.engine.buffer.len ∧ 0 ≤ s.metrics.queueDepth

theorem gaugeRight_iff
    (s : Metered) :
    s.GaugeRight ↔ s.imbalance = 0 := by
  unfold GaugeRight imbalance
  omega

/--
The gauge is right in all states of a run, from any engine on, those that `Recover` leaves
included, if and only if the ring buffer is empty at first, no `Submit` of the run puts a
task in the heap, and the scheduler moves no task to the buffer.
-/
theorem gauge_right_iff
    (e : Engine) (d : Engine.Disk) (es : List Event) (t : Metered)
    (hrun : Run step (fun _ _ => True) (started e d) es t) :
    (∀ fs u, fs <+: es → Run step (fun _ _ => True) (started e d) fs u → u.GaugeRight) ↔
      e.buffer.len = 0 ∧ Run step (fun s ev => s.miscount ev = 0) (started e d) es t := by
  have hkeeps : ∀ (s : Metered) ev u, s.GaugeRight → True → s.step ev = some u →
      (u.GaugeRight ↔ s.miscount ev = 0) := by
    intro s ev u hs _ hstep
    rw [gaugeRight_iff] at hs ⊢
    rw [step_imbalance hstep, hs, Int.zero_add]
  have hstart : (started e d).GaugeRight ↔ e.buffer.len = 0 := by
    rw [gaugeRight_iff]
    show (0 : Int) - e.buffer.len = 0 ↔ _
    omega
  rw [hrun.forall_prefix_iff hkeeps, hstart]

/-- A task is submitted and run. -/
theorem gauge_right_iff_run :
    ∃ t, Run step (fun _ _ => True)
        (started (System.initial System.roomyConfig).engine Engine.Disk.empty)
        [.submit Task.zero "a" 10 (LogEnv.noError 10 300) 1, .start 20 (LogEnv.noError 20 60),
          .finish "a" none 30 0 (LogEnv.noError 30 60) 5] t ∧
      t.GaugeRight := by
  obtain ⟨t, hrun⟩ := Lib.exists_run_of_exec step (fun s ev => s.miscount ev = 0)
    (fun _ => True) (started (System.initial System.roomyConfig).engine Engine.Disk.empty)
    [.submit Task.zero "a" 10 (LogEnv.noError 10 300) 1, .start 20 (LogEnv.noError 20 60),
      .finish "a" none 30 0 (LogEnv.noError 30 60) 5] (by decide +kernel)
  have hany := hrun.1.map id (fun _ _ _ h => h)
  exact ⟨t, hany, (gauge_right_iff _ _ _ t hany).mpr ⟨rfl, hrun.1⟩ _ t List.prefix_rfl hany⟩

/-- A log with a pending task. -/
def pendingDisk : Engine.Disk where
  snapshot := none
  walBin := [⟨⟨1, .enqueue, "a", 10, .ofTask { Task.zero with id := "a" }⟩, 300⟩]
  walOld := []

/--
A `Submit` with a time in the future: the gauge is one, and no task is waiting.  A task that
`Recover` has put in the buffer and a worker has started: the gauge is minus one.
-/
theorem gauge_wrong :
    (∃ t, Run step (fun _ _ => True)
        (started (System.initial System.roomyConfig).engine Engine.Disk.empty)
        [.submit { Task.zero with scheduledAt := 100 } "a" 10 (LogEnv.noError 10 300) 1] t ∧
      t.metrics.queueDepth = 1 ∧ t.engine.buffer.len = 0) ∧
    (∃ e, Recovered System.roomyConfig pendingDisk ["a"] e ∧
      ∃ t, Run step (fun _ _ => True) (started e pendingDisk)
          [.start 20 (LogEnv.noError 20 60)] t ∧
        t.metrics.queueDepth = -1 ∧ t.engine.buffer.len = 0) := by
  constructor
  · exact Lib.exists_run_of_exec step (fun _ _ => True)
      (fun t => t.metrics.queueDepth = 1 ∧ t.engine.buffer.len = 0) _ _ (by decide +kernel)
  · have hrec : ∃ e, Recovered System.roomyConfig pendingDisk ["a"] e ∧
        (Lib.exec step (fun _ _ => True) (started e pendingDisk)
          [.start 20 (LogEnv.noError 20 60)]).any
            (fun t => decide (t.metrics.queueDepth = -1 ∧ t.engine.buffer.len = 0)) = true :=
      Engine.recovered_of_recoversTo (by decide +kernel)
    obtain ⟨e, he, hexec⟩ := hrec
    exact ⟨e, he, Lib.exists_run_of_exec step (fun _ _ => True) _ _ _ hexec⟩

end Metered
end TaskQueue
