import Mathlib.Tactic
import TaskQueue.Concurrent.Agreement

/-!
# Final states and the ownership of outcomes

All states are written by `ForceSetState`, which checks nothing, so that a final state
is final and an outcome is written by its owner only as long as the threads are orderly.
`cancelled_runs` is a task that is cancelled in the ring buffer and then run;
`first_worker_fails_second` is a task that is marked as failed by a worker that had let
go of it, while another worker runs it.  `final_stays` and `outcome_owned` show that
this is all that can go wrong.
-/

namespace TaskQueue

open Queue
open Wal (LogEnv)
open Engine (HandlerError)

namespace World

variable {n m : Nat}

/--
In every orderly run of a recovered engine a completed, dead, cancelled or expired task
stays what it is, and the user handler is started on no task whose `CancelTask` has
returned nil.
-/
theorem final_stays
    (cfg : Engine.Config) (d : Engine.Disk) (order : List TaskID) (e : Engine)
    (es fs : List (Event n m)) (s t : World n m)
    (hrec : Engine.Recovered cfg d order e)
    (hrun : Lib.Run step Orderly (start e d order) es s)
    (hrest : Lib.Run step Orderly s fs t) :
    (∀ id x, s.engine.stateOf id = some x → x.isFinal = true →
      t.engine.stateOf id = some x) ∧ t.late = [] := by
  have hstep : ∀ (s : World n m) ev s', Agreement True s → s.Orderly ev →
      s.step ev = some s' → Agreement True s' :=
    fun s ev s' h hok hs => step_agreement ev h (fun _ => trivial) hok hs
  have hs := hrun.invariant (Agreement True) hstep (start_agreement hrec)
  refine ⟨?_, (hrest.invariant (Agreement True) hstep hs).prompt⟩
  intro id x hid hx
  refine (hrest.invariant
    (fun t => Agreement True t ∧ t.engine.stateOf id = some x) ?_ ⟨hs, hid⟩).2
  intro t ev t' ht hok hst
  exact ⟨hstep t ev t' ht.1 hok hst,
    step_stable ev ht.1 hok hst ht.2 (TaskState.isLive_eq_false_of_isFinal hx)⟩

/-- A task is cancelled on the heap, and a second one runs. -/
def cancelThenRun : List (Event 1 1) :=
  wholeSubmit 0 { Task.zero with scheduledAt := 1000 } "a" 10 ++
    wholeSubmit 0 Task.zero "b" 20 ++ wholeCancel 0 "a" 30

/-- The time of the cancelled task comes, and the second task completes. -/
def restOfRun : List (Event 1 1) :=
  .scheduler 2000 :: wholeStart 0 2000 ++ List.replicate 3 (.worker 0 (.noError 2010 100) none 0)

theorem final_stays_cancelThenRun :
    ∃ s t : World 1 1,
      Lib.Run step Orderly (initial System.roomyConfig) cancelThenRun s ∧
      Lib.Run step Orderly s restOfRun t ∧
      s.engine.stateOf "a" = some .cancelled ∧ t.engine.stateOf "b" = some .completed ∧
      (∀ id x, s.engine.stateOf id = some x → x.isFinal = true →
        t.engine.stateOf id = some x) ∧ t.late = [] := by
  obtain ⟨s, hrun, hcancelled, hexec⟩ :=
    Lib.exists_run_of_exec step Orderly
      (fun s : World 1 1 => s.engine.stateOf "a" = some .cancelled ∧
        (Lib.exec step Orderly s restOfRun).any
          (fun t => decide (t.engine.stateOf "b" = some .completed)) = true)
      (initial System.roomyConfig) cancelThenRun (by decide +kernel)
  obtain ⟨t, hrest, hcompleted⟩ :=
    Lib.exists_run_of_exec step Orderly
      (fun t : World 1 1 => t.engine.stateOf "b" = some .completed) s restOfRun hexec
  exact ⟨s, t, hrun, hrest, hcancelled, hcompleted,
    final_stays System.roomyConfig Engine.Disk.empty [] _ cancelThenRun restOfRun s t
      (recovered_initial System.roomyConfig) hrun hrest⟩

/-- A task is cancelled while it is in the ring buffer. -/
def cancelInBuffer : List (Event 1 1) :=
  wholeSubmit 0 Task.zero "a" 10 ++ wholeCancel 0 "a" 20

/-- A worker takes it all the same. -/
theorem cancelled_runs :
    ∃ s t : World 1 1,
      Lib.Run step (fun _ _ => True) (initial System.roomyConfig) cancelInBuffer s ∧
      Lib.Run step (fun _ _ => True) s (wholeStart 0 30) t ∧
      (s.engine.stateOf "a" = some .cancelled ∧ s.cancelled = ["a"]) ∧
      t.engine.stateOf "a" = some .running ∧ t.late = ["a"] := by
  obtain ⟨s, hrun, hcancelled, hexec⟩ :=
    Lib.exists_run_of_exec step (fun _ _ => True)
      (fun s : World 1 1 =>
        (s.engine.stateOf "a" = some .cancelled ∧ s.cancelled = ["a"]) ∧
        (Lib.exec step (fun _ _ => True) s (wholeStart 0 30)).any
          (fun t => decide (t.engine.stateOf "a" = some .running ∧ t.late = ["a"])) = true)
      (initial System.roomyConfig) cancelInBuffer (by decide +kernel)
  obtain ⟨t, hrest, hlate⟩ :=
    Lib.exists_run_of_exec step (fun _ _ => True)
      (fun t : World 1 1 => t.engine.stateOf "a" = some .running ∧ t.late = ["a"])
      s (wholeStart 0 30) hexec
  exact ⟨s, t, hrun, hrest, hcancelled, hlate⟩

/--
There are no calls of `CancelTask`, and a worker marks a task only when no other worker
is still to check it.
-/
def Handover (s : World n m) : Event n m → Prop
  | .worker w _ _ _ => s.HandsOver w
  | .cancel _ _ _ => False
  | _ => True

instance (s : World n m) (e : Event n m) : Decidable (s.Handover e) :=
  Event.decidable (fun w _ _ _ => inferInstanceAs (Decidable (s.HandsOver w)))
    (fun _ => instDecidableTrue) (fun _ _ _ _ => instDecidableTrue)
    (fun _ _ _ => instDecidableFalse) (fun _ _ => instDecidableTrue)
    (fun _ => instDecidableTrue) e

theorem Handover.notCancel
    {s : World n m} {e : Event n m}
    (hok : s.Handover e) :
    e.isCancel = false := by
  cases e with
  | cancel c id now =>
      exact hok.elim
  | _ =>
      rfl

/-- Without `CancelTask` no cancelled task is in a queue. -/
theorem Handover.orderly
    {s : World n m} {e : Event n m}
    (hok : s.Handover e)
    (h : Agreement False s) :
    s.Orderly e := by
  cases e with
  | worker w env result delay =>
      refine ⟨hok, ?_⟩
      intro _ id hid hst
      rcases h.states .buffer id (List.mem_of_mem_head? hid) with hpending | ⟨hfalse, -⟩
      · cases hst.symm.trans hpending
      · exact hfalse.elim
  | scheduler now =>
      intro _ id hid hst
      rcases h.states .heap id hid with hscheduled | ⟨hfalse, -⟩
      · cases hst.symm.trans hscheduled
      · exact hfalse.elim
  | cancel c id now =>
      exact hok.elim
  | _ =>
      trivial

/-- No step marks a task as failed while the places agree. -/
theorem step_failed
    {s s' : World n m}
    (e : Event n m)
    (h : Agreement False s)
    (hok : s.Handover e)
    (hstep : s.step e = some s')
    {j : TaskID}
    (hj : s'.engine.stateOf j = some .failed) :
    s.engine.stateOf j = some .failed := by
  cases e with
  | worker w env result delay =>
      rcases (workerStep_cases hstep).stateOf_cases j with hsame | ⟨x, hw, hx⟩
      · exact hsame ▸ hj
      · cases hj.symm.trans hx
        have hnot := h.unwritten w
        generalize s.workers w = pc at hw hnot
        cases hw with
        | fail id err =>
            exact absurd rfl (hnot j (some err))
  | scheduler now =>
      rcases (schedulerStep_cases hstep).stateOf_cases j with hsame | ⟨x, hw, hx⟩
      · exact hsame ▸ hj
      · cases hj.symm.trans hx
        cases hw
  | submit c task generatedID now =>
      rcases submitStep_cases hstep with rfl | ⟨-, -, -, rfl⟩
      · exact hj
      · change (s.engine.register _).stateOf j = some .failed at hj
        rw [Engine.stateOf, Engine.get_register] at hj
        split_ifs at hj with hself
        · rw [Option.map_some, Option.some.injEq] at hj
          rcases s.engine.prepare_state task generatedID now with hs | hs <;>
            cases hj.symm.trans hs
        · exact hj
  | cancel c id now =>
      exact hok.elim
  | call c env =>
      rcases (callStep_cases hstep).stateOf_cases j with hsame | ⟨-, hnone⟩
      · exact hsame ▸ hj
      · cases hj.symm.trans hnone
  | checkpoint order =>
      exact ((checkpointStep_unmoved hstep).stateOf j) ▸ hj

/--
In every run of a recovered engine without `CancelTask`, in which a worker marks a task
only when no other worker is still to check it, a task is running while a worker is in
the user handler for it, and no task becomes failed.
-/
theorem outcome_owned
    (cfg : Engine.Config) (d : Engine.Disk) (order : List TaskID) (e : Engine)
    (es : List (Event n m)) (s : World n m)
    (hrec : Engine.Recovered cfg d order e)
    (hrun : Lib.Run step Handover (start e d order) es s) :
    (∀ w id, s.workers w = .executing id → s.engine.stateOf id = some .running) ∧
      ∀ id, s.engine.stateOf id = some .failed → e.stateOf id = some .failed := by
  have hinv := hrun.invariant
    (fun s => Agreement False s ∧
      ∀ id, s.engine.stateOf id = some .failed → e.stateOf id = some .failed)
    (fun s ev s' h hok hs =>
      ⟨step_agreement ev h.1
        (fun hcancel => by rw [hok.notCancel] at hcancel; cases hcancel) (hok.orderly h.1) hs,
        fun id hid => h.2 id (step_failed ev h.1 hok hs hid)⟩)
    ⟨start_agreement hrec, fun _ hid => hid⟩
  refine ⟨?_, hinv.2⟩
  intro w id hpc
  have hst := hinv.1.states (.worker w) id (by simp [holdings, hpc, WorkerPc.holds])
  simpa [Allows, hpc, WorkerPc.expects] using hst

/-- A task fails and is on the heap again, its first worker still before its check. -/
def failOnce : List (Event 2 1) :=
  wholeSubmit 0 Task.zero "a" 10 ++ wholeStart 0 20 ++
    List.replicate 4 (.worker 0 (.noError 30 100) (some ⟨"boom", false⟩) 5)

/-- The scheduler promotes it and a second worker takes it. -/
def secondWorker : List (Event 2 1) :=
  List.replicate 3 (.scheduler 50) ++ wholeStart 1 60

/-- The first worker makes its check before the task is taken. -/
theorem outcome_owned_checkedInTime :
    ∃ s : World 2 1,
      Lib.Run step Handover (initial System.roomyConfig)
        (failOnce ++ .worker 0 (.noError 40 100) none 0 :: secondWorker) s ∧
      s.workers 1 = .executing "a" ∧
      (∀ w id, s.workers w = .executing id → s.engine.stateOf id = some .running) ∧
      ∀ id, s.engine.stateOf id = some .failed →
        (System.initial System.roomyConfig).engine.stateOf id = some .failed := by
  obtain ⟨s, hrun, hpc⟩ :=
    Lib.exists_run_of_exec step Handover (fun s : World 2 1 => s.workers 1 = .executing "a")
      (initial System.roomyConfig)
      (failOnce ++ .worker 0 (.noError 40 100) none 0 :: secondWorker) (by decide +kernel)
  exact ⟨s, hrun, hpc,
    outcome_owned System.roomyConfig Engine.Disk.empty [] _ _ s
      (recovered_initial System.roomyConfig) hrun⟩

/-- The first worker checks when the second one runs the task, and marks it as failed. -/
theorem first_worker_fails_second :
    ∃ s : World 2 1,
      Lib.Run step (fun _ ev => ev.isCancel = false) (initial System.roomyConfig)
        (failOnce ++ secondWorker ++
          List.replicate 2 (.worker 0 (.noError 70 100) none 0)) s ∧
      s.workers 1 = .executing "a" ∧ s.engine.stateOf "a" = some .failed :=
  Lib.exists_run_of_exec step (fun _ ev => ev.isCancel = false)
    (fun s : World 2 1 => s.workers 1 = .executing "a" ∧ s.engine.stateOf "a" = some .failed)
    (initial System.roomyConfig)
    (failOnce ++ secondWorker ++ List.replicate 2 (.worker 0 (.noError 70 100) none 0))
    (by decide +kernel)

end World
end TaskQueue
