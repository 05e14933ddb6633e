import Mathlib.Tactic
import TaskQueue.Lib.Simulation
import TaskQueue.Engine.Placement
import TaskQueue.Concurrent.Holders

/-!
# Operations that nothing interrupts

The two models of the process side by side: `System` takes the operations atomically, `World`
interleaves the steps of the goroutines.  An operation whose goroutine is not interrupted ends
as the operation taken as a whole does (`run_submit`, `run_cancel`, `run_start`, `run_finish`,
`run_schedule`, `run_checkpoint`).  So, between two restarts and with enough goroutines, every
run of the first model is a run of the second one.
-/

namespace TaskQueue

open Lib (GoMap Run Occupied)
open Queue
open Wal (Log LogEnv LogRecord Snapshot)

namespace World

variable {n m : Nat}

open Engine (HandlerError SubmitResult)

/-- The process without its history. -/
structure Core (n m : Nat) where
  engine : Engine
  disk : Engine.Disk
  scheduler : SchedulerPc
  workers : Fin n → WorkerPc
  calls : Fin m → CallPc
  checkpointer : CheckpointPc
  issued : List TaskID
  accepted : List TaskID

/-- What there is of a process besides its history. -/
def core (s : World n m) : Core n m where
  engine := s.engine
  disk := s.disk
  scheduler := s.scheduler
  workers := s.workers
  calls := s.calls
  checkpointer := s.checkpointer
  issued := s.issued
  accepted := s.accepted

/-- The process gets to a state with the given core by steps of its own. -/
def Gets (s : World n m) (c : Core n m) : Prop :=
  ∃ es t, Run step (fun _ _ => True) s es t ∧ t.core = c

theorem Gets.here
    {s : World n m} {c : Core n m}
    (h : s.core = c) :
    s.Gets c :=
  ⟨[], s, Run.nil s, h⟩

theorem Gets.after
    {s t : World n m} {c : Core n m} {e : Event n m}
    (hstep : s.step e = some t)
    (h : t.Gets c) :
    s.Gets c := by
  obtain ⟨es, u, hrun, hcore⟩ := h
  exact ⟨e :: es, u, Run.cons trivial hstep hrun, hcore⟩

section Workers

variable {s : World n m} {w : Fin n} (io : LogEnv)

/-- A worker takes a task, marks it, and calls the user handler. -/
theorem run_start
    {id : TaskID} {e : Engine} {d : Engine.Disk}
    (hpc : s.workers w = .idle)
    (h : s.engine.startTask s.disk io.now io = some (id, e, d)) :
    s.Gets { s.core with
      engine := e, disk := d, workers := Function.update s.workers w (.executing id) } := by
  unfold Engine.startTask at h
  cases hdeq : s.engine.buffer.dequeue with
  | done id' rb =>
      simp only [hdeq, Option.some.injEq, Prod.mk.injEq] at h
      obtain ⟨rfl, rfl, rfl⟩ := h
      refine .after (e := .worker w io none 0) (by simp only [step, workerStep, hpc, hdeq]; rfl) ?_
      refine .after (e := .worker w io none 0) (by simp [step, workerStep, toWorker]; rfl) ?_
      refine .after (e := .worker w io none 0) (by simp [step, workerStep, toWorker]; rfl) ?_
      refine .after (e := .worker w io none 0) (by simp [step, workerStep, toWorker]; rfl) ?_
      exact .here (by simp [core, handlerStarts])
  | _ =>
      simp [hdeq] at h

/-- The check after the execution, and the write of the pool if the task is running. -/
theorem run_checking
    (id : TaskID) (result : Option HandlerError)
    (hpc : s.workers w = .checking id result) :
    s.Gets { s.core with
      engine := s.engine.afterExecution id result io.now
      workers := Function.update s.workers w .idle } := by
  unfold Engine.afterExecution
  split_ifs with hrunning
  · refine .after (e := .worker w io none 0)
      (by simp only [step, workerStep, hpc, if_pos hrunning]; rfl) ?_
    refine .after (e := .worker w io none 0) (by simp [step, workerStep, toWorker]; rfl) ?_
    exact .here (by simp [core])
  · refine .after (e := .worker w io none 0)
      (by simp only [step, workerStep, hpc, if_neg hrunning]; rfl) ?_
    exact .here (by simp [core, toWorker])

/-- The handler returns nil: `handleSuccess` and the rest of the iteration. -/
theorem run_succeed
    {id : TaskID}
    (hpc : s.workers w = .executing id) :
    s.Gets { s.core with
      engine := (s.engine.handleSuccess s.disk id io.now io).1.afterExecution id none io.now
      disk := (s.engine.handleSuccess s.disk id io.now io).2
      workers := Function.update s.workers w .idle } := by
  refine .after (e := .worker w io none 0) (by simp only [step, workerStep, hpc]; rfl) ?_
  refine .after (e := .worker w io none 0) (by simp [step, workerStep, toWorker]; rfl) ?_
  refine .after (e := .worker w io none 0) (by simp [step, workerStep, toWorker]; rfl) ?_
  convert run_checking (w := w) io id none ?_ using 1
  · simp [core, report, Engine.handleSuccess]
  · simp [report]

/-- The handler fails: `handleFailure` and the rest of the iteration. -/
theorem run_fail
    {id : TaskID} {err : HandlerError} {t : Task} (delay : Duration)
    (hpc : s.workers w = .executing id)
    (hget : s.engine.tasks.get id = some t) :
    s.Gets { s.core with
      engine :=
        (s.engine.handleFailure s.disk id err io.now delay io).1.afterExecution id (some err) io.now
      disk := (s.engine.handleFailure s.disk id err io.now delay io).2
      workers := Function.update s.workers w .idle } := by
  have hfails : s.engine.failsForGood id err = Engine.finalFailure t err := by
    simp [Engine.failsForGood, hget]
  refine .after (e := .worker w io (some err) delay)
    (by simp only [step, workerStep, hpc]; rfl) ?_
  by_cases hfinal : Engine.finalFailure t err = true
  · -- the last failure: `EntryDead`, then the dead-letter queue
    refine .after (e := .worker w io none 0)
      (by simp [step, workerStep, toWorker, hfails, hfinal]; rfl) ?_
    refine .after (e := .worker w io none 0) (by simp [step, workerStep, toWorker]; rfl) ?_
    refine .after (e := .worker w io none 0) (by simp [step, workerStep, toWorker, report]; rfl) ?_
    convert run_checking (w := w) io id (some err) ?_ using 1
    · simp [core, Engine.handleFailure, hget, hfinal]
    · simp
  · -- another attempt: `EntryRetry`, then the heap
    refine .after (e := .worker w io none delay)
      (by simp [step, workerStep, toWorker, hfails, hfinal]; rfl) ?_
    refine .after (e := .worker w io none 0) (by simp [step, workerStep, toWorker]; rfl) ?_
    refine .after (e := .worker w io none 0) (by simp [step, workerStep, toWorker]; rfl) ?_
    convert run_checking (w := w) io id (some err) ?_ using 1
    · simp [core, Engine.handleFailure, hget, hfinal, Engine.retryData, Engine.markRetry,
        Engine.noteFailure, Task.forceSetState]
    · simp

/-- The handler returns: the rest of the iteration of a worker. -/
theorem run_finish
    {id : TaskID} {t : Task} (result : Option HandlerError) (delay : Duration)
    (hpc : s.workers w = .executing id)
    (hget : s.engine.tasks.get id = some t) :
    s.Gets { s.core with
      engine := (s.engine.finishTask s.disk id result io.now delay io).1
      disk := (s.engine.finishTask s.disk id result io.now delay io).2
      workers := Function.update s.workers w .idle } := by
  cases result with
  | none =>
      exact run_succeed io hpc
  | some err =>
      exact run_fail io delay hpc hget

end Workers

section Scheduler

variable {s : World n m} {now later : Time} {id : TaskID} {ready : List TaskID}

/-- The scheduler handles the first ready task. -/
theorem run_schedule
    {e : Engine} {t : Task}
    (hpc : s.scheduler = .loop (id :: ready))
    (hget : s.engine.tasks.get id = some t)
    (h : s.engine.scheduleReady id now later = some e) :
    s.Gets { s.core with engine := e, scheduler := .loop ready } := by
  have hstate : s.engine.stateOf id = some t.state := by
    simp [Engine.stateOf, hget]
  have hexpired : s.engine.hasExpired id now = Engine.expired t now := by
    simp [Engine.hasExpired, hget]
  simp only [Engine.scheduleReady, hget] at h
  split_ifs at h with hcancelled hexp
  · cases h
    refine .after (e := .scheduler now)
      (by simp [step, schedulerStep, hpc, hstate, hcancelled]; rfl) ?_
    exact .here (by simp [core, toScheduler])
  · cases h
    refine .after (e := .scheduler now)
      (by simp [step, schedulerStep, hpc, hstate, hcancelled, hexpired, hexp]; rfl) ?_
    refine .after (e := .scheduler now) (by simp [step, schedulerStep, toScheduler]; rfl) ?_
    exact .here (by simp [core])
  · refine .after (e := .scheduler now)
      (by simp [step, schedulerStep, hpc, hstate, hcancelled, hexpired, hexp]; rfl) ?_
    cases henq : s.engine.buffer.enqueue id with
    | done rb =>
        simp only [henq, Option.some.injEq] at h
        subst h
        refine .after (e := .scheduler now)
          (by simp [step, schedulerStep, toScheduler, henq]; rfl) ?_
        exact .here (by simp [core])
    | fail err =>
        cases err with
        | full =>
            simp only [henq, Option.some.injEq] at h
            subst h
            refine .after (e := .scheduler now)
              (by simp [step, schedulerStep, toScheduler, henq]; rfl) ?_
            refine .after (e := .scheduler later) (by simp [step, schedulerStep]; rfl) ?_
            refine .after (e := .scheduler later)
              (by simp [step, schedulerStep, toScheduler]; rfl) ?_
            exact .here (by simp [core])
        | closed =>
            simp [henq] at h
    | wait =>
        simp [henq] at h

end Scheduler

section Calls

variable {s : World n m} {c : Fin m}

/-- Where the client is after a `Submit`: it has returned, or it waits in `Enqueue`. -/
def afterSubmit : SubmitResult → CallPc
  | .blocked id => .enqueueing id
  | _ => .idle

/-- The tasks that have been accepted after a `Submit`. -/
def acceptedAfter (accepted : List TaskID) : SubmitResult → List TaskID
  | .ok id => id :: accepted
  | _ => accepted

/-- The placement of a task that has been logged. -/
theorem run_place
    (io : LogEnv) {t : Task}
    (hpc : s.calls c = .logged t.id)
    (hget : s.engine.tasks.get t.id = some t) :
    s.Gets { s.core with
      engine := (s.engine.place t.id t.state).1
      calls := Function.update s.calls c (afterSubmit (s.engine.place t.id t.state).2)
      accepted := acceptedAfter s.accepted (s.engine.place t.id t.state).2 } := by
  have hstate : s.engine.stateOf t.id = some t.state := by
    simp [Engine.stateOf, hget]
  unfold Engine.place
  split_ifs with hscheduled
  · refine .after (e := .call c io)
      (by simp [step, callStep, hpc, hstate, hscheduled]; rfl) ?_
    refine .after (e := .call c io) (by simp [step, callStep, toCall]; rfl) ?_
    exact .here (by simp [core, afterSubmit, acceptedAfter])
  · refine .after (e := .call c io)
      (by simp [step, callStep, hpc, hstate, hscheduled]; rfl) ?_
    cases henq : s.engine.buffer.enqueue t.id with
    | done rb =>
        refine .after (e := .call c io) (by simp [step, callStep, toCall, henq]; rfl) ?_
        exact .here (by simp [core, afterSubmit, acceptedAfter])
    | fail err =>
        refine .after (e := .call c io) (by simp [step, callStep, toCall, henq]; rfl) ?_
        exact .here (by simp [core, afterSubmit, acceptedAfter])
    | wait =>
        exact .here (by simp [core, toCall, afterSubmit, acceptedAfter])

/-- `Submit` of a task with a new ID. -/
theorem run_submit
    (io : LogEnv) (task : Task) (generatedID : TaskID)
    (hpc : s.calls c = .idle)
    (hid : (s.engine.prepare task generatedID io.now).id ∉ s.issued) :
    ∃ issued, issued ⊆ (s.engine.prepare task generatedID io.now).id :: s.issued ∧
      s.Gets { s.core with
        engine := (s.engine.submit s.disk task generatedID io.now io).1
        disk := (s.engine.submit s.disk task generatedID io.now io).2.1
        calls := Function.update s.calls c
          (afterSubmit (s.engine.submit s.disk task generatedID io.now io).2.2)
        issued := issued
        accepted := acceptedAfter s.accepted
          (s.engine.submit s.disk task generatedID io.now io).2.2 } := by
  unfold Engine.submit Engine.logSubmit
  cases hdup : s.engine.duplicateOf task with
  | some existing =>
      refine ⟨s.issued, List.subset_cons_self _ _, .here ?_⟩
      have hidle : Function.update s.calls c .idle = s.calls := by
        rw [← hpc, Function.update_eq_self]
      simp [core, afterSubmit, acceptedAfter, hidle]
  | none =>
      refine ⟨_, List.Subset.refl _, ?_⟩
      generalize ht : s.engine.prepare task generatedID io.now = t at hid ⊢
      have hget : (s.engine.register t).tasks.get t.id = some t := by
        rw [Engine.get_register, if_pos rfl]
      refine .after (e := .submit c task generatedID io.now)
        (by simp [step, submitStep, hpc, hdup, ht, hid]; rfl) ?_
      dsimp only
      split_ifs with hjson
      · refine .after (e := .call c io)
          (by simp [step, callStep, toCall, hget, hjson]; rfl) ?_
        rcases happend : (s.engine.register t).append s.disk .enqueue t.id (.ofTask t) io with
          ⟨e', d', ok⟩
        have htasks : e'.tasks.get t.id = some t := by
          have hsame := Engine.append_tasks (s.engine.register t) s.disk .enqueue t.id
            (.ofTask t) io
          rw [happend] at hsame
          rw [hsame, hget]
        cases ok with
        | true =>
            refine .after (e := .call c io)
              (by simp [step, callStep, toCall, happend]; rfl) ?_
            convert run_place (c := c) (t := t) io ?_ ?_ using 1
            · simp [core]
            · simp
            · exact htasks
        | false =>
            refine .after (e := .call c io)
              (by simp [step, callStep, toCall, happend]; rfl) ?_
            refine .after (e := .call c io) (by simp [step, callStep, toCall]; rfl) ?_
            exact .here (by simp [core, afterSubmit, acceptedAfter])
      · refine .after (e := .call c io)
          (by simp [step, callStep, toCall, hget, hjson]; rfl) ?_
        refine .after (e := .call c io) (by simp [step, callStep, toCall]; rfl) ?_
        exact .here (by simp [core, afterSubmit, acceptedAfter])

/-- A `Submit` that waits in `Enqueue` goes on. -/
theorem run_unblock
    (io : LogEnv) {id : TaskID}
    (hpc : s.calls c = .enqueueing id) :
    (∀ rb, s.engine.buffer.enqueue id = .done rb →
      s.Gets { s.core with
        engine := { s.engine with buffer := rb }
        calls := Function.update s.calls c .idle
        accepted := id :: s.accepted }) ∧
    (∀ err, s.engine.buffer.enqueue id = .fail err →
      s.Gets { s.core with calls := Function.update s.calls c .idle }) := by
  constructor
  · intro rb henq
    refine .after (e := .call c io) (by simp only [step, callStep, hpc, henq]; rfl) ?_
    exact .here (by simp [core, toCall])
  · intro err henq
    refine .after (e := .call c io) (by simp only [step, callStep, hpc, henq]; rfl) ?_
    exact .here (by simp [core, toCall])

/-- `CancelTask`. -/
theorem run_cancel
    (io : LogEnv) (id : TaskID)
    (hpc : s.calls c = .idle) :
    s.Gets { s.core with
      engine := (s.engine.cancelTask s.disk id io.now io).1
      disk := (s.engine.cancelTask s.disk id io.now io).2.1 } := by
  have hidle : Function.update s.calls c .idle = s.calls := by
    rw [← hpc, Function.update_eq_self]
  cases hmark : s.engine.markCancelled id io.now with
  | error err =>
      rw [Engine.cancelTask_of_refused hmark]
      exact .here (by simp [core])
  | ok marked =>
      rw [Engine.cancelTask_of_marked hmark]
      refine .after (e := .cancel c id io.now)
        (by simp only [step, cancelStep, hpc, hmark]; rfl) ?_
      rcases happend : marked.append s.disk .cancel id .nil io with ⟨e', d', ok⟩
      cases ok with
      | true =>
          refine .after (e := .call c io)
            (by simp [step, callStep, toCall, happend]; rfl) ?_
          refine .after (e := .call c io) (by simp [step, callStep, toCall, report]; rfl) ?_
          exact .here (by simp [core, hidle])
      | false =>
          refine .after (e := .call c io)
            (by simp [step, callStep, toCall, happend]; rfl) ?_
          exact .here (by simp [core, hidle])

end Calls

/-- `checkpoint` and `rotateWAL`. -/
theorem run_checkpoint
    {s : World n m} {order : List TaskID}
    (hpc : s.checkpointer = .idle)
    (horder : s.engine.tasks.Enumerates order) :
    s.Gets { s.core with
      engine := (s.engine.checkpoint s.disk order).1
      disk := (s.engine.checkpoint s.disk order).2 } := by
  refine .after (e := .checkpoint order)
    (by simp only [step, checkpointStep, hpc, if_pos horder]; rfl) ?_
  refine .after (e := .checkpoint order) (by simp [step, checkpointStep]; rfl) ?_
  refine .after (e := .checkpoint order) (by simp [step, checkpointStep]; rfl) ?_
  refine .after (e := .checkpoint order) (by simp [step, checkpointStep]; rfl) ?_
  refine .after (e := .checkpoint order) (by simp [step, checkpointStep]; rfl) ?_
  exact .here (by simp [core, Engine.checkpoint, Engine.rotateWAL, Log.close, hpc])

/-- The process as the other model has it; `acked` are the tasks accepted before it started. -/
structure Mirrors (acked : List TaskID) (s : System) (t : Core n m) : Prop where
  engine : t.engine = s.engine
  disk : t.disk = s.disk
  scheduler : t.scheduler = .loop s.ready
  hands : Occupied .idle .executing t.workers s.hands
  blocked : Occupied .idle .enqueueing t.calls s.blocked
  checkpointer : t.checkpointer = .idle
  issued : t.issued ⊆ s.issued
  accepted : s.acked = t.accepted ++ acked

/-- Every start has a worker that is free, every call a client, and nothing restarts. -/
def Staffed (n m : Nat) (s : System) : System.Event → Prop
  | .submit _ _ _ _ => s.blocked.length < m
  | .cancel _ _ _ => s.blocked.length < m
  | .start _ _ => s.hands.length < n
  | .shutdown _ _ _ => False
  | .kill _ _ => False
  | _ => True

theorem executing_ne_idle
    (id : TaskID) :
    WorkerPc.executing id ≠ .idle := by
  simp

theorem executing_injective : Function.Injective WorkerPc.executing := by
  intro a b h
  exact WorkerPc.executing.inj h

theorem enqueueing_ne_idle
    (id : TaskID) :
    CallPc.enqueueing id ≠ .idle := by
  simp

theorem enqueueing_injective : Function.Injective CallPc.enqueueing := by
  intro a b h
  exact CallPc.enqueueing.inj h

/-- A step of the model with atomic operations, matched by steps of the goroutines. -/
def Matched (acked : List TaskID) (s' : System) (t : World n m) : Prop :=
  ∃ c : Core n m, t.Gets c ∧ Mirrors acked s' c

namespace Mirrors

variable {acked : List TaskID} {s s' : System} {t : World n m}

theorem submit
    (h : Mirrors acked s t.core)
    {task : Task} {generatedID : TaskID} {now : Time} {len : Nat}
    (hstaff : s.blocked.length < m)
    (hstep : s.submit task generatedID now len = some s') :
    Matched acked s' t := by
  obtain ⟨c, hc⟩ := h.blocked.exists_idle (by simpa using hstaff)
  have hengine : t.engine = s.engine := h.engine
  have hdisk : t.disk = s.disk := h.disk
  simp only [System.submit] at hstep
  split_ifs at hstep with hid
  cases hstep
  have hnew : (t.engine.prepare task generatedID now).id ∉ t.issued := by
    rw [hengine]
    exact fun hmem => hid (h.issued hmem)
  obtain ⟨issued, hissued, hgets⟩ :=
    run_submit (LogEnv.noError now len) task generatedID hc hnew
  refine ⟨_, hgets, ?_⟩
  have hnow : (LogEnv.noError now len).now = now := rfl
  simp only [hnow, hengine, hdisk] at hissued ⊢
  rw [Runtime.submit_eq]
  generalize s.engine.submit s.disk task generatedID now (LogEnv.noError now len) = r
  obtain ⟨e, d, result⟩ := r
  have hissued' : issued ⊆ (s.engine.prepare task generatedID now).id :: s.issued :=
    List.Subset.trans hissued (List.cons_subset_cons _ h.issued)
  have hidle := h.blocked
  rw [← Function.update_eq_self c t.core.calls, hc] at hidle
  refine ⟨rfl, rfl, h.scheduler, h.hands, ?_, h.checkpointer, hissued', ?_⟩
  · cases result with
    | blocked id =>
        exact h.blocked.engage enqueueing_ne_idle hc id
    | _ =>
        exact hidle
  · cases result with
    | ok id =>
        exact congrArg (id :: ·) h.accepted
    | _ =>
        exact h.accepted

theorem unblock
    (h : Mirrors acked s t.core)
    {id : TaskID}
    (hstep : s.unblock id = some s') :
    Matched acked s' t := by
  have hengine : t.engine = s.engine := h.engine
  obtain ⟨r, hr, rfl⟩ := Option.map_eq_some_iff.mp hstep
  obtain ⟨hid, hcases⟩ := Runtime.unblock_some hr
  obtain ⟨c, hc⟩ := h.blocked.exists_busy (a := id) (by simpa using hid)
  have hreleased := h.blocked.release enqueueing_ne_idle enqueueing_injective hc
  have hruns := run_unblock (LogEnv.noError 0 0) hc
  rw [hengine] at hruns
  rcases hcases with ⟨rb, henq, rfl⟩ | ⟨err, henq, rfl⟩
  · exact ⟨_, hruns.1 rb henq, rfl, h.disk, h.scheduler, h.hands, hreleased, h.checkpointer,
      h.issued, congrArg (id :: ·) h.accepted⟩
  · exact ⟨_, hruns.2 err henq, h.engine, h.disk, h.scheduler, h.hands, hreleased,
      h.checkpointer, h.issued, h.accepted⟩

theorem cancel
    (h : Mirrors acked s t.core)
    (hstaff : s.blocked.length < m)
    (id : TaskID) (now : Time) (len : Nat) :
    Matched acked (s.cancel id now len) t := by
  have hengine : t.engine = s.engine := h.engine
  have hdisk : t.disk = s.disk := h.disk
  obtain ⟨c, hc⟩ := h.blocked.exists_idle (by simpa using hstaff)
  have hgets := run_cancel (LogEnv.noError now len) id hc
  rw [hengine, hdisk] at hgets
  exact ⟨_, hgets, rfl, rfl, h.scheduler, h.hands, h.blocked, h.checkpointer, h.issued, h.accepted⟩

theorem promote
    (h : Mirrors acked s t.core)
    {now : Time}
    (hstep : s.promote now = some s') :
    Matched acked s' t := by
  have hengine : t.engine = s.engine := h.engine
  have hscheduler : t.scheduler = .loop s.ready := h.scheduler
  obtain ⟨hready, rfl⟩ := System.promote_cases hstep
  rw [hready] at hscheduler
  refine ⟨_, .after (e := .scheduler now)
    (by simp only [step, schedulerStep, hscheduler]; rfl) (.here rfl), ?_⟩
  exact ⟨by simp [core, toScheduler, hengine], h.disk, by simp [core, toScheduler, hengine],
    h.hands, h.blocked, h.checkpointer, h.issued, h.accepted⟩

theorem schedule
    (h : Mirrors acked s t.core)
    (hsound : System.Sound s)
    {now later : Time}
    (hstep : s.schedule now later = some s') :
    Matched acked s' t := by
  have hengine : t.engine = s.engine := h.engine
  have hscheduler : t.scheduler = .loop s.ready := h.scheduler
  obtain ⟨r, hr, rfl⟩ := Option.map_eq_some_iff.mp hstep
  obtain ⟨id, ready, e, hready, he, rfl⟩ := Runtime.schedule_some hr
  have hheld : 0 < s.held id := by
    simp [System.held, hready]
  obtain ⟨task, htask⟩ := Option.isSome_iff_exists.mp (hsound.registered id hheld)
  rw [← hengine] at he htask
  rw [hready] at hscheduler
  exact ⟨_, run_schedule hscheduler htask he, rfl, h.disk, rfl, h.hands, h.blocked,
    h.checkpointer, h.issued, h.accepted⟩

theorem start
    (h : Mirrors acked s t.core)
    (hstaff : s.hands.length < n)
    {now : Time} {len : Nat}
    (hstep : s.start now len = some s') :
    Matched acked s' t := by
  have hengine : t.engine = s.engine := h.engine
  have hdisk : t.disk = s.disk := h.disk
  obtain ⟨w, hw⟩ := h.hands.exists_idle (by simpa using hstaff)
  obtain ⟨r, hr, rfl⟩ := Option.map_eq_some_iff.mp hstep
  obtain ⟨id, e, d, hstart, rfl⟩ := Runtime.start_some hr
  rw [← hengine, ← hdisk] at hstart
  exact ⟨_, run_start (LogEnv.noError now len) hw hstart, rfl, rfl, h.scheduler,
    h.hands.engage executing_ne_idle hw id, h.blocked, h.checkpointer, h.issued, h.accepted⟩

theorem finish
    (h : Mirrors acked s t.core)
    (hsound : System.Sound s)
    {id : TaskID} {result : Option HandlerError} {now : Time} {delay : Duration} {len : Nat}
    (hstep : s.finish id result now delay len = some s') :
    Matched acked s' t := by
  have hengine : t.engine = s.engine := h.engine
  have hdisk : t.disk = s.disk := h.disk
  obtain ⟨r, hr, rfl⟩ := Option.map_eq_some_iff.mp hstep
  obtain ⟨hid, rfl⟩ := Runtime.finish_some hr
  have hheld : 0 < s.held id := by
    have hcount := List.count_pos_iff.mpr hid
    unfold System.held
    omega
  obtain ⟨task, htask⟩ := Option.isSome_iff_exists.mp (hsound.registered id hheld)
  obtain ⟨w, hw⟩ := h.hands.exists_busy (a := id) (by simpa using hid)
  rw [← hengine] at htask
  have hgets := run_finish (LogEnv.noError now len) result delay hw htask
  rw [hengine, hdisk] at hgets
  exact ⟨_, hgets, rfl, rfl, h.scheduler,
    h.hands.release executing_ne_idle executing_injective hw, h.blocked, h.checkpointer,
    h.issued, h.accepted⟩

theorem checkpoint
    (h : Mirrors acked s t.core)
    {order : List TaskID}
    (hstep : s.checkpoint order = some s') :
    Matched acked s' t := by
  have hengine : t.engine = s.engine := h.engine
  have hdisk : t.disk = s.disk := h.disk
  obtain ⟨horder, rfl⟩ := System.checkpoint_cases hstep
  rw [← hengine] at horder
  have hgets := run_checkpoint h.checkpointer horder
  rw [hengine, hdisk] at hgets
  exact ⟨_, hgets, rfl, rfl, h.scheduler, h.hands, h.blocked, h.checkpointer, h.issued, h.accepted⟩

/-- Every operation taken as a whole is one whose goroutine is not interrupted. -/
theorem matched
    (h : Mirrors acked s t.core)
    (hsound : System.Sound s)
    {e : System.Event}
    (hstaff : Staffed n m s e)
    (hstep : s.step e = some s') :
    Matched acked s' t := by
  cases e with
  | submit task generatedID now len =>
      exact h.submit hstaff hstep
  | unblock id =>
      exact h.unblock hstep
  | cancel id now len =>
      cases hstep
      exact h.cancel hstaff id now len
  | promote now =>
      exact h.promote hstep
  | schedule now later =>
      exact h.schedule hsound hstep
  | start now len =>
      exact h.start hstaff hstep
  | finish id result now delay len =>
      exact h.finish hsound hstep
  | checkpoint order =>
      exact h.checkpoint hstep
  | shutdown order cfg recoverOrder =>
      cases hstaff
  | kill cfg recoverOrder =>
      cases hstaff

end Mirrors

theorem mirrors_start
    {s : System}
    (hready : s.ready = []) (hhands : s.hands = []) (hblocked : s.blocked = []) :
    Mirrors s.acked s (start s.engine s.disk s.issued : World n m).core where
  engine := rfl
  disk := rfl
  scheduler := by
    rw [hready]
    rfl
  hands := by
    rw [hhands]
    exact Lib.occupied_idle _ _
  blocked := by
    rw [hblocked]
    exact Lib.occupied_idle _ _
  checkpointer := rfl
  issued := List.Subset.refl _
  accepted := rfl

/--
The atomic operations are no idealisation: after any number of restarts, every run of them in
one process, with a free worker for every start and a free client for every call, is an
interleaving of the steps of the goroutines, which ends with the same engine and directory, the
same tasks with the scheduler, with the workers and with the waiting clients, and the same
tasks accepted.
-/
theorem atomic_runs_are_interleavings
    (cfg : Engine.Config) (before : List System.Event) (s₀ : System)
    (hbefore : Run System.step (fun _ _ => True) (System.initial cfg) before s₀)
    (hready : s₀.ready = []) (hhands : s₀.hands = []) (hblocked : s₀.blocked = [])
    (es : List System.Event) (s : System)
    (hrun : Run System.step (Staffed n m) s₀ es s) :
    ∃ fs t, Run step (fun _ _ => True) (start s₀.engine s₀.disk s₀.issued : World n m) fs t ∧
      Mirrors s₀.acked s t.core := by
  have hsound : System.Sound s₀ :=
    hbefore.invariant System.Sound (fun _ _ _ h _ hstep => System.step_sound h hstep)
      (System.sound_initial cfg)
  let Related (s : System) (t : World n m) : Prop :=
    System.Sound s ∧ Mirrors s₀.acked s t.core
  have hmatch : ∀ s e s' (t : World n m), Related s t → Staffed n m s e → s.step e = some s' →
      ∃ fs t', Run step (fun _ _ => True) t fs t' ∧ Related s' t' := by
    rintro s e s' t ⟨hs, hmirrors⟩ hstaff hstep
    obtain ⟨c, ⟨fs, t', hfs, rfl⟩, hc⟩ := hmirrors.matched hs hstaff hstep
    exact ⟨fs, t', hfs, System.step_sound hs hstep, hc⟩
  obtain ⟨fs, t, hfs, -, hmirrors⟩ :=
    hrun.simulated Related hmatch ⟨hsound, mirrors_start hready hhands hblocked⟩
  exact ⟨fs, t, hfs, hmirrors⟩

instance (s : System) (e : System.Event) : Decidable (Staffed n m s e) :=
  System.Event.decidable (fun _ _ _ _ => inferInstanceAs (Decidable (_ < _)))
    (fun _ => instDecidableTrue) (fun _ _ _ => inferInstanceAs (Decidable (_ < _)))
    (fun _ => instDecidableTrue) (fun _ _ => instDecidableTrue)
    (fun _ _ => inferInstanceAs (Decidable (_ < _))) (fun _ _ _ _ _ => instDecidableTrue)
    (fun _ => instDecidableTrue) (fun _ _ _ => instDecidableFalse)
    (fun _ _ => instDecidableFalse) e

/-- A buffer with one slot, at which a `Submit` waits. -/
def oneSlotConfig : Engine.Config where
  capacity := 1
  overflowPolicy := .block
  maxRetries := 3
  defaultTimeout := 30000000000
  capacity_pos := Nat.one_pos
  maxRetries_nonneg := Engine.Config.threeRetries_nonneg

/-- One task starts, one waits in the buffer and one for room in it; then the first one fails. -/
def crowdedDay : List System.Event :=
  [.submit Task.zero "a" 10 100, .start 11 100, .submit Task.zero "b" 12 100,
    .submit Task.zero "c" 13 100, .checkpoint ["c", "b", "a"],
    .finish "a" (some ⟨"timeout", false⟩) 14 1000 100, .start 15 100, .unblock "c",
    .submit Task.zero "d" 16 100]

theorem atomic_runs_are_interleavings_crowdedDay :
    ∃ s, Run System.step (Staffed 1 2) (System.initial oneSlotConfig) crowdedDay s ∧
      (s.hands = ["b"] ∧ s.blocked = ["d"] ∧ s.acked = ["c", "b", "a"]) ∧
      ∃ fs t, Run step (fun _ _ => True) (initial oneSlotConfig : World 1 2) fs t ∧
        Mirrors [] s t.core := by
  obtain ⟨s, hrun, hs⟩ :=
    Lib.exists_run_of_exec System.step (Staffed 1 2)
      (fun s => s.hands = ["b"] ∧ s.blocked = ["d"] ∧ s.acked = ["c", "b", "a"])
      (System.initial oneSlotConfig) crowdedDay (by decide +kernel)
  exact ⟨s, hrun, hs,
    atomic_runs_are_interleavings oneSlotConfig [] _ (Run.nil _) rfl rfl rfl crowdedDay s hrun⟩

end World
end TaskQueue
