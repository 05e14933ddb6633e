import Mathlib.Tactic
import TaskQueue.Lib.Custody
import TaskQueue.Concurrent.Steps
import TaskQueue.Engine.Requeue

/-!
# Who holds a task

At every moment a task is with at most one holder: the ring buffer, the heap, the
scheduler, a worker between `Dequeue` and the end of its handling of the outcome, or
the `Submit` that brings it in.  This holds in every run, whatever the threads do
(`Custody`, `step_custody`); `WorkerStep.moves`, `SchedulerStep.moves` and
`CallStep.moves` say which way each step hands tasks on.
-/

namespace TaskQueue

open Lib (GoMap Exclusive Moves)
open Queue
open Wal (Log LogEnv LogRecord Snapshot)

/-- The task that a worker holds. -/
def WorkerPc.holds : WorkerPc → List TaskID
  | .idle => []
  | .dequeued id => [id]
  | .marked id => [id]
  | .starting id => [id]
  | .executing id => [id]
  | .returned id _ => [id]
  | .completing id => [id]
  | .dying id _ => [id]
  | .burying id _ => [id]
  | .retrying id _ => [id]
  | .repushing id _ => [id]
  | .checking _ _ => []
  | .writing _ _ => []

/-- The tasks that the scheduler holds. -/
def SchedulerPc.holds : SchedulerPc → List TaskID
  | .loop ready => ready
  | .expiring id ready => id :: ready
  | .enqueueing id ready => id :: ready
  | .postponing id ready => id :: ready
  | .repushing id ready => id :: ready
  | .stopped => []

/-- The task that a `Submit` holds. -/
def CallPc.holds : CallPc → List TaskID
  | .registered task => [task.id]
  | .marshalled task _ => [task.id]
  | .undoing task => [task.id]
  | .logged id => [id]
  | .pushing id => [id]
  | .enqueueing id => [id]
  | _ => []

namespace World

variable {n m : Nat}

open Engine (HandlerError Named SameTasks SameSubmissions)

/-- The holders of tasks. -/
inductive Place (n m : Nat)
  | buffer
  | heap
  | scheduler
  | worker (w : Fin n)
  | call (c : Fin m)
deriving DecidableEq

/-- The tasks that each of them holds. -/
def holdings (s : World n m) : Place n m → List TaskID
  | .buffer => s.engine.buffer.contents
  | .heap => s.engine.heap.inner
  | .scheduler => s.scheduler.holds
  | .worker w => (s.workers w).holds
  | .call c => (s.calls c).holds

/-- What the other threads have stays as it is when one of them acts. -/
structure Acted (q : Place n m) (s s' : World n m) : Prop where
  scheduler : q ≠ .scheduler → s'.scheduler = s.scheduler
  workers : ∀ w, q ≠ .worker w → s'.workers w = s.workers w
  calls : ∀ c, q ≠ .call c → s'.calls c = s.calls c
  checkpointer : s'.checkpointer = s.checkpointer

/-- What the other threads hold stays; what the queues hold is for them to say. -/
theorem Acted.holdings
    {s s' : World n m} {p q : Place n m}
    (h : Acted q s s')
    (hp : p ≠ q)
    (hbuffer : p ≠ .buffer ∨ s'.engine.buffer.contents = s.engine.buffer.contents)
    (hheap : p ≠ .heap ∨ s'.engine.heap.inner = s.engine.heap.inner) :
    s'.holdings p = s.holdings p := by
  cases p with
  | buffer =>
      simpa [World.holdings] using hbuffer
  | heap =>
      simpa [World.holdings] using hheap
  | scheduler =>
      simp only [World.holdings, h.scheduler (Ne.symm hp)]
  | worker w =>
      simp only [World.holdings, h.workers w (Ne.symm hp)]
  | call c =>
      simp only [World.holdings, h.calls c (Ne.symm hp)]

/-- The step of a worker, by the program counters. -/
theorem acted_worker
    {s s' : World n m} {w : Fin n} {pc : WorkerPc}
    (hscheduler : s'.scheduler = s.scheduler)
    (hworkers : s'.workers = Function.update s.workers w pc)
    (hcalls : s'.calls = s.calls)
    (hcheckpointer : s'.checkpointer = s.checkpointer) :
    Acted (.worker w) s s' := by
  refine ⟨fun _ => hscheduler, ?_, fun c _ => by rw [hcalls], hcheckpointer⟩
  intro w' hw
  rw [hworkers]
  exact Function.update_of_ne (fun h => hw (by rw [h])) _ _

/-- The step of a client, by the program counters. -/
theorem acted_call
    {s s' : World n m} {c : Fin m} {pc : CallPc}
    (hscheduler : s'.scheduler = s.scheduler)
    (hworkers : s'.workers = s.workers)
    (hcalls : s'.calls = Function.update s.calls c pc)
    (hcheckpointer : s'.checkpointer = s.checkpointer) :
    Acted (.call c) s s' := by
  refine ⟨fun _ => hscheduler, fun w _ => by rw [hworkers], ?_, hcheckpointer⟩
  intro c' hc
  rw [hcalls]
  exact Function.update_of_ne (fun h => hc (by rw [h])) _ _

section Worker

variable (s : World n m) {w : Fin n} {pc : WorkerPc} {e : Engine}

theorem acted_toWorker :
    Acted (.worker w) s (s.toWorker w pc e) :=
  acted_worker rfl rfl rfl rfl

theorem holdings_toWorker_self :
    (s.toWorker w pc e).holdings (.worker w) = pc.holds := by
  simp [holdings, toWorker]

/-- A step at which a worker keeps its task, or drops it. -/
theorem moves_toWorker
    (hpc : pc.holds = (s.workers w).holds ∨ pc.holds = [])
    (hbuffer : e.buffer = s.engine.buffer)
    (hheap : e.heap = s.engine.heap) :
    Moves s.holdings (s.toWorker w pc e).holdings := by
  refine Moves.dropped (.worker w) ?_ ?_
  · rw [holdings_toWorker_self]
    rcases hpc with hpc | hpc
    · rw [hpc]
      exact List.Subperm.refl _
    · rw [hpc]
      exact List.nil_subperm
  · intro r hr
    exact s.acted_toWorker.holdings hr (Or.inr (congrArg _ hbuffer)) (Or.inr (congrArg _ hheap))

end Worker

theorem WorkerStep.acted
    {s s' : World n m} {w : Fin n} {env : LogEnv}
    (h : WorkerStep s w env s') :
    Acted (.worker w) s s' := by
  cases h <;> exact acted_worker rfl rfl rfl rfl

theorem WorkerStep.closed
    {s s' : World n m} {w : Fin n} {env : LogEnv}
    (h : WorkerStep s w env s') :
    s'.engine.buffer.closed = s.engine.buffer.closed := by
  cases h with
  | dequeue hpc hdeq =>
      exact (RingBuffer.dequeue_done hdeq).2.closed
  | @write id result hpc =>
      cases result <;> rfl
  | _ =>
      rfl

/-- Workers accept no tasks and complete no cancellation. -/
theorem WorkerStep.history
    {s s' : World n m} {w : Fin n} {env : LogEnv}
    (h : WorkerStep s w env s') :
    s'.issued = s.issued ∧ s'.accepted = s.accepted ∧ s'.cancelled = s.cancelled := by
  cases h <;> exact ⟨rfl, rfl, rfl⟩

/-- What the step of a worker does with the tasks. -/
theorem WorkerStep.moves
    {s s' : World n m} {w : Fin n} {env : LogEnv}
    (h : WorkerStep s w env s') :
    Moves s.holdings s'.holdings := by
  cases h with
  | @dequeue id rb hpc hdeq =>
      refine Moves.handed .buffer (.worker w) [id] (by simp) ?_ ?_ ?_
      · show ([id] ++ rb.contents).Perm s.engine.buffer.contents
        rw [(RingBuffer.dequeue_done hdeq).1]
        exact List.Perm.refl _
      · rw [holdings_toWorker_self]
        simp [holdings, hpc, WorkerPc.holds]
      · intro r hrb hrw
        exact s.acted_toWorker.holdings hrw (Or.inl hrb) (Or.inr rfl)
  | @repush id err hpc =>
      refine Moves.handed (.worker w) .heap [id] (by simp) ?_ ?_ ?_
      · rw [holdings_toWorker_self]
        simp [holdings, hpc, WorkerPc.holds]
      · exact Engine.pushHeap_perm s.engine id
      · intro r hrw hrh
        exact s.acted_toWorker.holdings hrw (Or.inr rfl) (Or.inl hrh)
  | logStart hpc =>
      exact moves_toWorker _ (Or.inl (by rw [hpc]; rfl)) rfl rfl
  | logComplete hpc =>
      exact moves_toWorker _ (Or.inr rfl) rfl rfl
  | logDead hpc =>
      exact moves_toWorker _ (Or.inl (by rw [hpc]; rfl)) rfl rfl
  | @write id result hpc =>
      refine s.moves_toWorker (Or.inr rfl) ?_ ?_ <;> cases result <;> rfl
  | bury hpc =>
      exact s.moves_toWorker (Or.inr rfl) rfl rfl
  | findRunning hpc hstate =>
      exact s.moves_toWorker (Or.inr rfl) rfl rfl
  | findMoved hpc hstate =>
      exact s.moves_toWorker (Or.inr rfl) rfl rfl
  | mark hpc =>
      exact s.moves_toWorker (Or.inl (by rw [hpc]; rfl)) rfl rfl
  | wrap hpc =>
      exact s.moves_toWorker (Or.inl (by rw [hpc]; rfl)) rfl rfl
  | handle result hpc =>
      exact s.moves_toWorker (Or.inl (by rw [hpc]; rfl)) rfl rfl
  | succeed hpc =>
      exact s.moves_toWorker (Or.inl (by rw [hpc]; rfl)) rfl rfl
  | die hpc hfinal =>
      exact s.moves_toWorker (Or.inl (by rw [hpc]; rfl)) rfl rfl
  | retry nextAt hpc hfinal =>
      exact s.moves_toWorker (Or.inl (by rw [hpc]; rfl)) rfl rfl
  | logRetry hpc =>
      exact moves_toWorker _ (Or.inl (by rw [hpc]; rfl)) rfl rfl

section Scheduler

variable (s : World n m) {pc : SchedulerPc} {e : Engine}

theorem acted_toScheduler :
    Acted .scheduler s (s.toScheduler pc e) :=
  ⟨fun h => absurd rfl h, fun _ _ => rfl, fun _ _ => rfl, rfl⟩

/-- A step at which the scheduler keeps its tasks, or drops some. -/
theorem moves_toScheduler
    (hpc : pc.holds.Sublist s.scheduler.holds)
    (hbuffer : e.buffer = s.engine.buffer)
    (hheap : e.heap = s.engine.heap) :
    Moves s.holdings (s.toScheduler pc e).holdings := by
  refine Moves.dropped .scheduler hpc.subperm ?_
  intro r hr
  exact s.acted_toScheduler.holdings hr (Or.inr (congrArg _ hbuffer)) (Or.inr (congrArg _ hheap))

end Scheduler

theorem SchedulerStep.acted
    {s s' : World n m} {now : Time}
    (h : SchedulerStep s now s') :
    Acted .scheduler s s' := by
  cases h <;> exact s.acted_toScheduler

theorem SchedulerStep.closed
    {s s' : World n m} {now : Time}
    (h : SchedulerStep s now s') :
    s'.engine.buffer.closed = s.engine.buffer.closed := by
  cases h with
  | enqueue hpc henq =>
      exact (RingBuffer.enqueue_done henq).2.closed
  | _ =>
      rfl

/-- The scheduler takes no part in the calls of the clients. -/
theorem SchedulerStep.history
    {s s' : World n m} {now : Time}
    (h : SchedulerStep s now s') :
    s'.issued = s.issued ∧ s'.accepted = s.accepted ∧ s'.cancelled = s.cancelled ∧
      s'.late = s.late ∧ s'.reported = s.reported ∧ s'.disk = s.disk := by
  cases h <;> exact ⟨rfl, rfl, rfl, rfl, rfl, rfl⟩

/-- What the step of the scheduler does with the tasks. -/
theorem SchedulerStep.moves
    {s s' : World n m} {now : Time}
    (h : SchedulerStep s now s') :
    Moves s.holdings s'.holdings := by
  cases h with
  | promote hpc =>
      have hprom := Engine.promoteReady_promoted s.engine now
      refine Moves.handed .heap .scheduler (s.engine.promoteReady now).1 (by simp)
        hprom.perm ?_ ?_
      · simp [holdings, toScheduler, hpc, SchedulerPc.holds]
      · intro r hrh hrs
        exact s.acted_toScheduler.holdings hrs (Or.inr rfl) (Or.inl hrh)
  | @enqueue id ready rb hpc henq =>
      refine Moves.handed .scheduler .buffer [id] (by simp) ?_ ?_ ?_
      · simp [holdings, toScheduler, hpc, SchedulerPc.holds]
      · show rb.contents.Perm ([id] ++ s.engine.buffer.contents)
        rw [(RingBuffer.enqueue_done henq).1]
        exact List.perm_append_comm
      · intro r hrs hrb
        exact s.acted_toScheduler.holdings hrs (Or.inl hrb) (Or.inr rfl)
  | @repush id ready hpc =>
      refine Moves.handed .scheduler .heap [id] (by simp) ?_ ?_ ?_
      · simp [holdings, toScheduler, hpc, SchedulerPc.holds]
      · exact Engine.pushHeap_perm s.engine id
      · intro r hrs hrh
        exact s.acted_toScheduler.holdings hrs (Or.inr rfl) (Or.inl hrh)
  | @skip id ready hpc hstate =>
      exact s.moves_toScheduler (by rw [hpc]; exact List.sublist_cons_self id ready) rfl rfl
  | @expire id ready hpc =>
      exact s.moves_toScheduler (by rw [hpc]; exact List.sublist_cons_self id ready) rfl rfl
  | stop hpc henq =>
      exact s.moves_toScheduler (List.nil_sublist _) rfl rfl
  | findExpired hpc hstate =>
      exact s.moves_toScheduler (by rw [hpc]; exact List.Sublist.refl _) rfl rfl
  | findReady hpc hstate =>
      exact s.moves_toScheduler (by rw [hpc]; exact List.Sublist.refl _) rfl rfl
  | findFull hpc =>
      exact s.moves_toScheduler (by rw [hpc]; exact List.Sublist.refl _) rfl rfl
  | postpone hpc =>
      exact s.moves_toScheduler (by rw [hpc]; exact List.Sublist.refl _) rfl rfl

section Call

variable (s : World n m) {c : Fin m} {pc : CallPc} {e : Engine}

theorem acted_toCall :
    Acted (.call c) s (s.toCall c pc e) :=
  acted_call rfl rfl rfl rfl

theorem holdings_toCall_self :
    (s.toCall c pc e).holdings (.call c) = pc.holds := by
  simp [holdings, toCall]

/-- A step at which a client keeps its task, or drops it. -/
theorem moves_toCall
    (hpc : pc.holds = (s.calls c).holds ∨ pc.holds = [])
    (hbuffer : e.buffer = s.engine.buffer)
    (hheap : e.heap = s.engine.heap) :
    Moves s.holdings (s.toCall c pc e).holdings := by
  refine Moves.dropped (.call c) ?_ ?_
  · rw [holdings_toCall_self]
    rcases hpc with hpc | hpc
    · rw [hpc]
      exact List.Subperm.refl _
    · rw [hpc]
      exact List.nil_subperm
  · intro r hr
    exact s.acted_toCall.holdings hr (Or.inr (congrArg _ hbuffer)) (Or.inr (congrArg _ hheap))

end Call

theorem CallStep.acted
    {s s' : World n m} {c : Fin m} {env : LogEnv}
    (h : CallStep s c env s') :
    Acted (.call c) s s' := by
  cases h <;> exact acted_call rfl rfl rfl rfl

theorem CallStep.closed
    {s s' : World n m} {c : Fin m} {env : LogEnv}
    (h : CallStep s c env s') :
    s'.engine.buffer.closed = s.engine.buffer.closed := by
  cases h with
  | enqueue hpc henq =>
      exact (RingBuffer.enqueue_done henq).2.closed
  | _ =>
      rfl

theorem CallStep.issued
    {s s' : World n m} {c : Fin m} {env : LogEnv}
    (h : CallStep s c env s') :
    s'.issued = s.issued := by
  cases h <;> rfl

/-- What a later step of a client does with the tasks. -/
theorem CallStep.moves
    {s s' : World n m} {c : Fin m} {env : LogEnv}
    (h : CallStep s c env s') :
    Moves s.holdings s'.holdings := by
  have hacted := h.acted
  cases h with
  | @push id hpc =>
      refine Moves.handed (.call c) .heap [id] (by simp) ?_ ?_ ?_
      · rw [holdings_toCall_self]
        simp [holdings, hpc, CallPc.holds]
      · exact Engine.pushHeap_perm s.engine id
      · intro r hrc hrh
        exact hacted.holdings hrc (Or.inr rfl) (Or.inl hrh)
  | @enqueue id rb hpc henq =>
      refine Moves.handed (.call c) .buffer [id] (by simp) ?_ ?_ ?_
      · rw [holdings_toCall_self]
        simp [holdings, hpc, CallPc.holds]
      · show rb.contents.Perm ([id] ++ s.engine.buffer.contents)
        rw [(RingBuffer.enqueue_done henq).1]
        exact List.perm_append_comm
      · intro r hrc hrb
        exact hacted.holdings hrc (Or.inl hrb) (Or.inr rfl)
  | @remove id hpc =>
      refine Moves.dropped .heap (Engine.removeHeap_sublist s.engine id) ?_
      intro r hrh
      by_cases hrc : r = .call c
      · rw [hrc, holdings_toCall_self]
        simp [holdings, hpc, CallPc.holds]
      · exact hacted.holdings hrc (Or.inr rfl) (Or.inl hrh)
  | logCancel hpc hok =>
      exact moves_toCall _ (Or.inr rfl) rfl rfl
  | failCancel hpc hok =>
      exact moves_toCall _ (Or.inr rfl) rfl rfl
  | undo hpc =>
      exact s.moves_toCall (Or.inr rfl) rfl rfl
  | turnAway hpc =>
      exact s.moves_toCall (Or.inr rfl) rfl rfl
  | marshal hpc hjson =>
      exact s.moves_toCall (Or.inl (by rw [hpc]; rfl)) rfl rfl
  | refuse hpc =>
      exact s.moves_toCall (Or.inl (by rw [hpc]; rfl)) rfl rfl
  | logEnqueue hpc hok =>
      exact moves_toCall _ (Or.inl (by rw [hpc]; rfl)) rfl rfl
  | failEnqueue hpc hok =>
      exact moves_toCall _ (Or.inl (by rw [hpc]; rfl)) rfl rfl
  | toHeap hpc hstate =>
      exact s.moves_toCall (Or.inl (by rw [hpc]; rfl)) rfl rfl
  | toBuffer hpc hstate =>
      exact s.moves_toCall (Or.inl (by rw [hpc]; rfl)) rfl rfl

/-- What every run keeps: the holders exclude each other, and all tasks are registered. -/
structure Custody (s : World n m) : Prop where
  exclusive : Exclusive s.holdings
  registered : ∀ {p id}, id ∈ s.holdings p → (s.engine.tasks.get id).isSome = true
  indexed : s.engine.heap.Indexed
  named : Named s.issued s.engine

/-- A step that hands tasks on, and changes neither the registered tasks nor their names. -/
theorem Custody.moved
    {s s' : World n m}
    (h : Custody s)
    (hmoves : Moves s.holdings s'.holdings)
    (htasks : SameTasks s.engine s'.engine)
    (hindexed : s'.engine.heap.Indexed)
    (hissued : s'.issued = s.issued) :
    Custody s' := by
  refine ⟨hmoves.exclusive h.exclusive, ?_, hindexed, ?_⟩
  · intro p id hid
    obtain ⟨q, hq⟩ := hmoves.origin hid
    rw [htasks.isSome]
    exact h.registered hq
  · rw [hissued]
    exact htasks.named h.named

/-- A task that some other holder has is not on the heap. -/
theorem Custody.notMem_heap
    {s : World n m}
    (h : Custody s)
    {p : Place n m} {id : TaskID}
    (hid : id ∈ s.holdings p)
    (hp : p ≠ .heap) :
    id ∉ s.engine.heap.inner :=
  h.exclusive.elsewhere (q := .heap) hid hp.symm

/-- A push of a task that some other holder has. -/
theorem Custody.pushHeap_indexed
    {s : World n m}
    (h : Custody s)
    {p : Place n m} {id : TaskID}
    (hid : id ∈ s.holdings p)
    (hp : p ≠ .heap) :
    (s.engine.pushHeap id).heap.Indexed :=
  Engine.pushHeap_indexed h.indexed (h.notMem_heap hid hp)

/-- A worker leaves the tasks as they were submitted. -/
theorem WorkerStep.sameSubmissions
    {s s' : World n m} {w : Fin n} {env : LogEnv}
    (h : WorkerStep s w env s') :
    SameSubmissions s.engine s'.engine := by
  cases h with
  | mark hpc =>
      exact Engine.sameSubmissions_updateTask _ _ _ (fun _ => rfl)
  | wrap hpc =>
      exact Engine.sameSubmissions_updateTask _ _ _ (fun _ => rfl)
  | succeed hpc =>
      exact Engine.sameSubmissions_updateTask _ _ _ (fun _ => rfl)
  | die hpc hfinal =>
      exact Engine.sameSubmissions_updateTask _ _ _ (fun _ => rfl)
  | retry nextAt hpc hfinal =>
      exact Engine.sameSubmissions_updateTask _ _ _ (fun _ => rfl)
  | @write id result hpc =>
      cases result <;> exact Engine.sameSubmissions_updateTask _ _ _ (fun _ => rfl)
  | _ =>
      exact SameSubmissions.refl _

/-- A worker's step registers no task and removes none. -/
theorem WorkerStep.sameTasks
    {s s' : World n m} {w : Fin n} {env : LogEnv}
    (h : WorkerStep s w env s') :
    SameTasks s.engine s'.engine :=
  h.sameSubmissions.sameTasks

/-- The scheduler leaves the tasks as they were submitted. -/
theorem SchedulerStep.sameSubmissions
    {s s' : World n m} {now : Time}
    (h : SchedulerStep s now s') :
    SameSubmissions s.engine s'.engine := by
  cases h with
  | promote hpc =>
      exact Engine.sameSubmissions_promoteReady _ _
  | expire hpc =>
      exact Engine.sameSubmissions_updateTask _ _ _ (fun _ => rfl)
  | postpone hpc =>
      exact Engine.sameSubmissions_updateTask _ _ _ (fun _ => rfl)
  | _ =>
      exact SameSubmissions.refl _

/-- The scheduler registers no task and removes none. -/
theorem SchedulerStep.sameTasks
    {s s' : World n m} {now : Time}
    (h : SchedulerStep s now s') :
    SameTasks s.engine s'.engine :=
  h.sameSubmissions.sameTasks

theorem workerStep_custody
    {s s' : World n m} {w : Fin n} {env : LogEnv}
    (h : Custody s)
    (hstep : WorkerStep s w env s') :
    Custody s' := by
  refine h.moved hstep.moves hstep.sameTasks ?_ hstep.history.1
  cases hstep with
  | @repush id err hpc =>
      refine h.pushHeap_indexed (p := .worker w) ?_ (by simp)
      simp [holdings, hpc, WorkerPc.holds]
  | @write id result hpc =>
      cases result <;> exact h.indexed
  | _ =>
      exact h.indexed

theorem schedulerStep_custody
    {s s' : World n m} {now : Time}
    (h : Custody s)
    (hstep : SchedulerStep s now s') :
    Custody s' := by
  refine h.moved hstep.moves hstep.sameTasks ?_ hstep.history.1
  cases hstep with
  | promote hpc =>
      exact (Engine.promoteReady_promoted s.engine now).indexed h.indexed
  | @repush id ready hpc =>
      refine h.pushHeap_indexed (p := .scheduler) ?_ (by simp)
      simp [holdings, hpc, SchedulerPc.holds]
  | _ =>
      exact h.indexed

/-- A failed `Submit` takes its task back, which nobody else holds. -/
theorem undo_custody
    {s : World n m} {c : Fin m} {task : Task}
    (h : Custody s)
    (hpc : s.calls c = .undoing task) :
    Custody (s.toCall c .idle (s.engine.unregister task)) := by
  have hmoves : Moves s.holdings (s.toCall c .idle (s.engine.unregister task)).holdings :=
    s.moves_toCall (Or.inr rfl) rfl rfl
  have hheld : task.id ∈ s.holdings (.call c) := by
    simp [holdings, hpc, CallPc.holds]
  refine ⟨hmoves.exclusive h.exclusive, ?_, h.indexed, ?_⟩
  · intro r id hid
    have hrc : r ≠ .call c := by
      rintro rfl
      rw [holdings_toCall_self] at hid
      cases hid
    have hold : (s.toCall c .idle (s.engine.unregister task)).holdings r = s.holdings r :=
      s.acted_toCall.holdings hrc (Or.inr rfl) (Or.inr rfl)
    rw [hold] at hid
    have hne : id ≠ task.id := by
      rintro rfl
      exact hrc (h.exclusive.unique hid hheld)
    show ((s.engine.unregister task).tasks.get id).isSome = true
    rw [Engine.get_unregister, if_neg hne]
    exact h.registered hid
  · intro id t ht
    change (s.engine.unregister task).tasks.get id = some t at ht
    rw [Engine.get_unregister] at ht
    split_ifs at ht
    exact h.named id t ht

theorem callStep_custody
    {s s' : World n m} {c : Fin m} {env : LogEnv}
    (h : Custody s)
    (hstep : CallStep s c env s') :
    Custody s' := by
  have hmoves := hstep.moves
  cases hstep with
  | @push id hpc =>
      refine h.moved hmoves (SameTasks.refl _) ?_ rfl
      refine h.pushHeap_indexed (p := .call c) ?_ (by simp)
      simp [holdings, hpc, CallPc.holds]
  | remove hpc =>
      exact h.moved hmoves (SameTasks.refl _) (Engine.removeHeap_indexed h.indexed) rfl
  | undo hpc =>
      exact undo_custody h hpc
  | _ =>
      exact h.moved hmoves (SameTasks.refl _) h.indexed rfl

/-- A task of the registry, or one that somebody holds, has an ID in use. -/
theorem Custody.fresh
    {s : World n m}
    (h : Custody s)
    {id : TaskID}
    (hid : id ∉ s.issued) :
    s.engine.tasks.get id = none ∧ ∀ p, id ∉ s.holdings p := by
  have hnone := h.named.get_eq_none hid
  refine ⟨hnone, ?_⟩
  intro p hp
  have hsome := h.registered hp
  rw [hnone] at hsome
  cases hsome

/-- A task that somebody holds has an ID in use. -/
theorem Custody.mem_issued
    {s : World n m}
    (h : Custody s)
    {p : Place n m} {id : TaskID}
    (hid : id ∈ s.holdings p) :
    id ∈ s.issued := by
  by_contra hnot
  exact (h.fresh hnot).2 p hid

theorem submitStep_custody
    {s s' : World n m} {c : Fin m} {task : Task} {generatedID : TaskID} {now : Time}
    (h : Custody s)
    (hstep : s.submitStep c task generatedID now = some s') :
    Custody s' := by
  rcases submitStep_cases hstep with rfl | ⟨hpc, -, hid, rfl⟩
  · exact h
  · generalize s.engine.prepare task generatedID now = t at hid
    obtain ⟨-, hfree⟩ := h.fresh hid
    have hacted : Acted (.call c) s ({ s with issued := t.id :: s.issued }.toCall c
        (.registered t) (s.engine.register t)) := acted_call rfl rfl rfl rfl
    have hrest := fun r (hr : r ≠ Place.call c) => hacted.holdings hr (Or.inr rfl) (Or.inr rfl)
    refine ⟨?_, ?_, h.indexed, h.named.register t⟩
    · refine h.exclusive.add hfree (q := .call c) ?_ hrest
      rw [holdings_toCall_self]
      simp [holdings, hpc, CallPc.holds]
    · intro r id hr
      show ((s.engine.register t).tasks.get id).isSome = true
      rw [Engine.get_register]
      split_ifs with hself
      · rfl
      · by_cases hrc : r = .call c
        · rw [hrc, holdings_toCall_self] at hr
          exact absurd (List.mem_singleton.mp hr) hself
        · rw [hrest r hrc] at hr
          exact h.registered hr

/-- What the first step of a `Submit` has done that has registered its task. -/
structure Registers (c : Fin m) (t : Task) (s s' : World n m) : Prop where
  acted : Acted (.call c) s s'
  call : s'.calls c = .registered t
  rest : ∀ p, p ≠ .call c → s'.holdings p = s.holdings p
  engine : s'.engine = s.engine.register t
  issued : s'.issued = t.id :: s.issued
  fresh : t.id ∉ s.issued

theorem submitStep_registers
    {s s' : World n m} {c : Fin m} {task : Task} {generatedID : TaskID} {now : Time}
    (h : s.submitStep c task generatedID now = some s') :
    (s' = s ∧ s.calls c = .idle) ∨
      Registers c (s.engine.prepare task generatedID now) s s' := by
  have hidle : s.calls c = .idle := by
    unfold submitStep at h
    cases hpc : s.calls c with
    | idle =>
        rfl
    | _ =>
        simp [hpc] at h
  rcases submitStep_cases h with hsame | ⟨-, -, hid, rfl⟩
  · exact Or.inl ⟨hsame, hidle⟩
  · right
    have hacted : Acted (.call c) s
        ({ s with issued := (s.engine.prepare task generatedID now).id :: s.issued }.toCall c
          (.registered (s.engine.prepare task generatedID now))
          (s.engine.register (s.engine.prepare task generatedID now))) :=
      acted_call rfl rfl rfl rfl
    exact ⟨hacted, by simp [toCall], fun p hp => hacted.holdings hp (Or.inr rfl) (Or.inr rfl),
      rfl, rfl, hid⟩

theorem cancelStep_custody
    {s s' : World n m} {c : Fin m} {id : TaskID} {now : Time}
    (h : Custody s)
    (hstep : s.cancelStep c id now = some s') :
    Custody s' := by
  rcases cancelStep_cases hstep with rfl | ⟨hpc, t, -, -, rfl⟩
  · exact h
  · exact h.moved (s.moves_toCall (Or.inr rfl) rfl rfl)
      (Engine.sameTasks_updateTask _ _ _ (fun _ => rfl)) h.indexed rfl

/-- What a step of `checkpoint` leaves as it was. -/
structure Unmoved (s s' : World n m) : Prop where
  tasks : s'.engine.tasks = s.engine.tasks
  buffer : s'.engine.buffer = s.engine.buffer
  heap : s'.engine.heap = s.engine.heap
  scheduler : s'.scheduler = s.scheduler
  workers : s'.workers = s.workers
  calls : s'.calls = s.calls
  issued : s'.issued = s.issued
  accepted : s'.accepted = s.accepted
  cancelled : s'.cancelled = s.cancelled
  reported : s'.reported = s.reported
  late : s'.late = s.late

/-- `checkpoint` moves no task and touches none. -/
theorem checkpointStep_unmoved
    {s s' : World n m} {order : List TaskID}
    (h : s.checkpointStep order = some s') :
    Unmoved s s' := by
  unfold checkpointStep at h
  cases hpc : s.checkpointer with
  | idle =>
      simp only [hpc] at h
      split_ifs at h
      cases h
      constructor <;> rfl
  | _ =>
      simp only [hpc, Option.some.injEq] at h
      subst h
      constructor <;> rfl

theorem Unmoved.holdings
    {s s' : World n m}
    (h : Unmoved s s') :
    s'.holdings = s.holdings := by
  funext p
  cases p <;>
    simp only [World.holdings, h.buffer, h.heap, h.scheduler, h.workers, h.calls]

theorem checkpointStep_custody
    {s s' : World n m} {order : List TaskID}
    (h : Custody s)
    (hstep : s.checkpointStep order = some s') :
    Custody s' := by
  have hsame := checkpointStep_unmoved hstep
  refine h.moved (Moves.kept (fun r => by rw [hsame.holdings])) ?_ ?_ hsame.issued
  · intro j
    rw [hsame.tasks]
  · rw [hsame.heap]
    exact h.indexed

/-- Every step keeps custody. -/
theorem step_custody
    {s s' : World n m} {e : Event n m}
    (h : Custody s)
    (hstep : s.step e = some s') :
    Custody s' := by
  cases e with
  | worker w env result delay =>
      exact workerStep_custody h (workerStep_cases hstep)
  | scheduler now =>
      exact schedulerStep_custody h (schedulerStep_cases hstep)
  | submit c task generatedID now =>
      exact submitStep_custody h hstep
  | cancel c id now =>
      exact cancelStep_custody h hstep
  | call c env =>
      exact callStep_custody h (callStep_cases hstep)
  | checkpoint order =>
      exact checkpointStep_custody h hstep

/-- Custody holds when the process starts after `Recover`. -/
theorem start_custody
    {cfg : Engine.Config} {d : Engine.Disk} {order : List TaskID} {e : Engine}
    (h : Engine.Recovered cfg d order e) :
    Custody (start e d order : World n m) := by
  obtain ⟨loaded, last, hload, horder, hall⟩ := h.restarted
  have hcount : ∀ id, e.buffer.contents.count id + e.heap.inner.count id ≤ 1 := by
    intro id
    have hone := hall.once id
    rwa [Engine.queued, List.count_append] at hone
  refine ⟨⟨?_, ?_⟩, ?_, hall.indexed, ?_⟩
  · intro p
    cases p with
    | buffer =>
        rw [List.nodup_iff_count_le_one]
        intro id
        have := hcount id
        show e.buffer.contents.count id ≤ 1
        omega
    | heap =>
        rw [List.nodup_iff_count_le_one]
        intro id
        have := hcount id
        show e.heap.inner.count id ≤ 1
        omega
    | _ =>
        exact List.nodup_nil
  · intro p q id hp hq
    have hone := hcount id
    cases p with
    | buffer =>
        have hpos : 0 < e.buffer.contents.count id := List.count_pos_iff.mpr hp
        cases q with
        | buffer =>
            rfl
        | heap =>
            have hpos' : 0 < e.heap.inner.count id := List.count_pos_iff.mpr hq
            omega
        | _ =>
            cases hq
    | heap =>
        have hpos : 0 < e.heap.inner.count id := List.count_pos_iff.mpr hp
        cases q with
        | heap =>
            rfl
        | buffer =>
            have hpos' : 0 < e.buffer.contents.count id := List.count_pos_iff.mpr hq
            omega
        | _ =>
            cases hq
    | _ =>
        cases hp
  · intro p id hid
    cases p with
    | buffer =>
        exact hall.registered id (List.mem_append_left _ hid)
    | heap =>
        exact hall.registered id (List.mem_append_right _ hid)
    | _ =>
        cases hid
  · intro id t ht
    change e.tasks.get id = some t at ht
    rw [hall.tasks id] at ht
    obtain ⟨t₀, ht₀, rfl⟩ := Option.map_eq_some_iff.mp ht
    rw [Engine.requeue_id]
    exact ⟨Engine.loadTasks_named hload ht₀, horder.mem.mpr (by rw [ht₀]; rfl)⟩

theorem recovered_initial
    (cfg : Engine.Config) :
    Engine.Recovered cfg Engine.Disk.empty [] (System.initial cfg).engine :=
  ⟨System.recover_empty cfg, rfl⟩

end World

/-- The task of a worker that is between `Dequeue` and the end of the user handler. -/
def WorkerPc.runs : WorkerPc → List TaskID
  | .dequeued id => [id]
  | .marked id => [id]
  | .starting id => [id]
  | .executing id => [id]
  | _ => []

theorem WorkerPc.runs_sublist
    (pc : WorkerPc) :
    pc.runs.Sublist pc.holds := by
  cases pc with
  | dequeued id =>
      exact List.Sublist.refl _
  | marked id =>
      exact List.Sublist.refl _
  | starting id =>
      exact List.Sublist.refl _
  | executing id =>
      exact List.Sublist.refl _
  | _ =>
      exact List.nil_sublist _

namespace World

variable {n m : Nat}

/--
How often a task occurs in the ring buffer, on the heap, in the scheduler's ready list
and with the workers that are between `Dequeue` and the end of the user handler.
-/
def occurrences (s : World n m) (id : TaskID) : Nat :=
  s.engine.buffer.contents.count id +
    (s.engine.heap.inner.count id +
      (s.scheduler.holds.count id + ∑ w, (s.workers w).runs.count id))

/-- The places that `occurrences` counts. -/
def waitingOrRunning (s : World n m) : Option (Option (Option (Fin n))) → List TaskID
  | none => s.engine.buffer.contents
  | some none => s.engine.heap.inner
  | some (some none) => s.scheduler.holds
  | some (some (some w)) => (s.workers w).runs

theorem Custody.waitingOrRunning
    {s : World n m}
    (h : Custody s) :
    Exclusive s.waitingOrRunning := by
  let place : Option (Option (Option (Fin n))) → Place n m
    | none => .buffer
    | some none => .heap
    | some (some none) => .scheduler
    | some (some (some w)) => .worker w
  refine h.exclusive.part (f := place) ?_ ?_
  · rintro (_ | _ | _ | w) (_ | _ | _ | w') heq <;> simp_all [place]
  · rintro (_ | _ | _ | w)
    · exact List.Sublist.refl _
    · exact List.Sublist.refl _
    · exact List.Sublist.refl _
    · exact (s.workers w).runs_sublist

theorem Custody.occurrences_le_one
    {s : World n m}
    (h : Custody s)
    (id : TaskID) :
    s.occurrences id ≤ 1 := by
  have hsum := h.waitingOrRunning.sum_count_le_one id
  simp only [Fintype.sum_option] at hsum
  exact hsum

/--
From every state that `Recover` produces and in every interleaving, a task occurs at most
once in the queues, the ready list and the hands of the workers, and no two workers
execute the user handler for one task.
-/
theorem never_run_twice_at_once
    (cfg : Engine.Config) (d : Engine.Disk) (order : List TaskID) (e : Engine)
    (hrec : Engine.Recovered cfg d order e)
    (es : List (Event n m)) (s : World n m)
    (hrun : Lib.Run step (fun _ _ => True) (start e d order) es s) :
    (∀ id, s.occurrences id ≤ 1) ∧
      ∀ w w' id, s.workers w = .executing id → s.workers w' = .executing id → w = w' := by
  have hcustody : Custody s :=
    hrun.invariant Custody (fun _ _ _ h _ hstep => step_custody h hstep) (start_custody hrec)
  refine ⟨hcustody.occurrences_le_one, ?_⟩
  intro w w' id hw hw'
  have hmem : ∀ v, s.workers v = .executing id → id ∈ s.holdings (.worker v) := by
    intro v hv
    simp [holdings, hv, WorkerPc.holds]
  have hsame := hcustody.exclusive.unique (hmem w hw) (hmem w' hw')
  simpa using hsame

/-- Two workers take two tasks, and a third task waits. -/
def twoAtWork : List (Event 2 1) :=
  wholeSubmit 0 Task.zero "a" 10 ++ wholeStart 0 20 ++ wholeSubmit 0 Task.zero "b" 30 ++
    wholeStart 1 40 ++ wholeSubmit 0 Task.zero "c" 50

theorem never_run_twice_at_once_twoAtWork :
    ∃ s : World 2 1,
      Lib.Run step (fun _ _ => True) (initial System.roomyConfig) twoAtWork s ∧
      (s.workers 0 = .executing "a" ∧ s.workers 1 = .executing "b") ∧
      (∀ id, s.occurrences id ≤ 1) ∧
      ∀ w w' id, s.workers w = .executing id → s.workers w' = .executing id → w = w' := by
  obtain ⟨s, hrun, hpcs⟩ :=
    Lib.exists_run_of_exec step (fun _ _ => True)
      (fun s : World 2 1 => s.workers 0 = .executing "a" ∧ s.workers 1 = .executing "b")
      (initial System.roomyConfig) twoAtWork (by decide +kernel)
  exact ⟨s, hrun, hpcs, never_run_twice_at_once System.roomyConfig Engine.Disk.empty []
    (System.initial System.roomyConfig).engine (recovered_initial System.roomyConfig)
    twoAtWork s hrun⟩

end World
end TaskQueue
