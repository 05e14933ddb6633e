import Mathlib.Tactic
import TaskQueue.Concurrent.Holders

/-!
# No task is lost in a running process

A task whose `Submit` returned nil and that still has to run should be in the ring
buffer, on the heap, with the scheduler or with a worker.  `CancelTask` removes from
the heap whatever stands at the position that the cancelled task has stored; that is
another task when the cancelled one was never pushed (its position is the zero value)
(`cancel_removesOther`), and it is the task itself, alive again, when the scheduler has
pushed it back meanwhile.  `accepted_kept` shows that tasks are lost in no other way.
-/

namespace TaskQueue

open Lib (GoMap Exclusive Moves)
open Queue
open Wal (Log LogEnv LogRecord Snapshot)

/-- The task whose final state a worker has written and not yet let go of. -/
def WorkerPc.settles : WorkerPc → Option TaskID
  | .completing id => some id
  | .dying id _ => some id
  | .burying id _ => some id
  | _ => none

/-- The task that a `CancelTask` removes from the heap next. -/
def CallPc.removes : CallPc → Option TaskID
  | .removing id => some id
  | _ => none

namespace World

variable {n m : Nat}

open Engine (HandlerError)

/-- The task is in a queue, with the scheduler or with a worker. -/
def Kept (s : World n m) (id : TaskID) : Prop :=
  id ∈ s.engine.buffer.contents ∨ id ∈ s.engine.heap.inner ∨ id ∈ s.scheduler.holds ∨
    ∃ w, id ∈ (s.workers w).holds

theorem mem_holds_of_settles
    {pc : WorkerPc} {id : TaskID}
    (h : pc.settles = some id) :
    id ∈ pc.holds := by
  cases pc <;> simp_all [WorkerPc.settles, WorkerPc.holds]

theorem live_updateTask_of_ne
    (e : Engine) {id j : TaskID} (f : Task → Task)
    (hj : j ≠ id) :
    (e.updateTask id f).live j = e.live j := by
  rw [Engine.live, Engine.stateOf_updateTask_of_ne e f hj, Engine.live]

/-- A write of a state in which a task does not run any more. -/
theorem live_updateTask_self
    {e : Engine} {id : TaskID} {f : Task → Task}
    (hf : ∀ t, (f t).state.isLive = false) :
    (e.updateTask id f).live id = false := by
  unfold Engine.live Engine.stateOf
  rw [Engine.get_updateTask_self]
  cases e.tasks.get id with
  | none =>
      rfl
  | some t =>
      simp [hf t]

theorem live_updateTask_final
    {e : Engine} {id j : TaskID} {f : Task → Task}
    (hf : ∀ t, (f t).state.isLive = false)
    (h : (e.updateTask id f).live j = true) :
    e.live j = true := by
  by_cases hj : j = id
  · rw [hj, live_updateTask_self hf] at h
    cases h
  · rw [live_updateTask_of_ne e f hj] at h
    exact h

/-- What is not made live stays as it is. -/
theorem live_eq_false_of_imp
    {e e' : Engine} {id : TaskID}
    (himp : e'.live id = true → e.live id = true)
    (h : e.live id = false) :
    e'.live id = false := by
  cases hlive : e'.live id with
  | false =>
      rfl
  | true =>
      rw [himp hlive] at h
      cases h

/-- A worker makes no other task live than the one it holds. -/
theorem WorkerStep.live_of_notMem
    {s s' : World n m} {w : Fin n} {env : LogEnv} {j : TaskID}
    (h : WorkerStep s w env s')
    (hj : j ∉ (s.workers w).holds)
    (hlive : s'.engine.live j = true) :
    s.engine.live j = true := by
  cases h with
  | mark hpc =>
      rw [hpc] at hj
      exact (live_updateTask_of_ne _ _ (by simpa [WorkerPc.holds] using hj)) ▸ hlive
  | wrap hpc =>
      rw [hpc] at hj
      exact (live_updateTask_of_ne _ _ (by simpa [WorkerPc.holds] using hj)) ▸ hlive
  | retry nextAt hpc hfinal =>
      rw [hpc] at hj
      exact (live_updateTask_of_ne _ _ (by simpa [WorkerPc.holds] using hj)) ▸ hlive
  | succeed hpc =>
      exact live_updateTask_final (fun _ => rfl) hlive
  | die hpc hfinal =>
      exact live_updateTask_final (fun _ => rfl) hlive
  | @write id result hpc =>
      cases result <;> exact live_updateTask_final (fun _ => rfl) hlive
  | _ =>
      exact hlive

/-- A worker does not revive the task whose final state it has written. -/
theorem WorkerStep.live_of_settles
    {s s' : World n m} {w : Fin n} {env : LogEnv} {id : TaskID}
    (h : WorkerStep s w env s')
    (hsettles : (s.workers w).settles = some id)
    (hlive : s.engine.live id = false) :
    s'.engine.live id = false := by
  cases h with
  | logComplete hpc =>
      exact hlive
  | logDead hpc =>
      exact hlive
  | bury hpc =>
      exact hlive
  | _ =>
      simp_all [WorkerPc.settles]

/-- The scheduler makes no other tasks live than those of the heap and its own. -/
theorem SchedulerStep.live_of_notMem
    {s s' : World n m} {now : Time} {j : TaskID}
    (h : SchedulerStep s now s')
    (hj : j ∉ s.scheduler.holds)
    (hheap : j ∉ s.engine.heap.inner)
    (hlive : s'.engine.live j = true) :
    s.engine.live j = true := by
  cases h with
  | promote hpc =>
      have hnot : j ∉ (s.engine.promoteReady now).1 := fun hmem =>
        hheap ((Engine.promoteReady_promoted s.engine now).perm.mem_iff.mp
          (List.mem_append_left _ hmem))
      change (s.engine.promoteReady now).2.live j = true at hlive
      rw [Engine.live, Engine.stateOf, Engine.get_promoteReady, if_neg hnot] at hlive
      exact hlive
  | expire hpc =>
      exact live_updateTask_final (fun _ => rfl) hlive
  | postpone hpc =>
      rw [hpc] at hj
      exact (live_updateTask_of_ne _ _ (List.ne_of_not_mem_cons hj)) ▸ hlive
  | _ =>
      exact hlive

/-- A client makes no task live after it has registered it. -/
theorem CallStep.live
    {s s' : World n m} {c : Fin m} {env : LogEnv} {j : TaskID}
    (h : CallStep s c env s')
    (hlive : s'.engine.live j = true) :
    s.engine.live j = true := by
  cases h with
  | @undo task hpc =>
      change (s.engine.unregister task).live j = true at hlive
      rw [Engine.live, Engine.stateOf, Engine.get_unregister] at hlive
      split_ifs at hlive
      · cases hlive
      · exact hlive
  | _ =>
      exact hlive

theorem Kept.toWorker
    {s : World n m} {w : Fin n} {pc : WorkerPc} {e : Engine} {id : TaskID}
    (h : Kept s id)
    (hbuffer : id ∈ s.engine.buffer.contents → id ∈ e.buffer.contents ∨ id ∈ pc.holds)
    (hheap : id ∈ s.engine.heap.inner → id ∈ e.heap.inner)
    (hpc : id ∈ (s.workers w).holds → id ∈ pc.holds ∨ id ∈ e.heap.inner) :
    Kept (s.toWorker w pc e) id := by
  have hself : id ∈ pc.holds → Kept (s.toWorker w pc e) id := by
    intro hid
    refine Or.inr (Or.inr (Or.inr ⟨w, ?_⟩))
    simpa [World.toWorker] using hid
  rcases h with hb | hh | hs | ⟨w', hw⟩
  · rcases hbuffer hb with hb' | hp
    · exact Or.inl hb'
    · exact hself hp
  · exact Or.inr (Or.inl (hheap hh))
  · exact Or.inr (Or.inr (Or.inl hs))
  · by_cases hww : w' = w
    · subst hww
      rcases hpc hw with hp | hh
      · exact hself hp
      · exact Or.inr (Or.inl hh)
    · refine Or.inr (Or.inr (Or.inr ⟨w', ?_⟩))
      simpa [World.toWorker, hww] using hw

/-- A step at which a worker keeps what it holds and leaves the queues alone. -/
theorem Kept.working
    {s : World n m} {w : Fin n} {pc : WorkerPc} {e : Engine} {id : TaskID}
    (h : Kept s id)
    (hbuffer : e.buffer = s.engine.buffer)
    (hheap : e.heap = s.engine.heap)
    (hpc : (s.workers w).holds ⊆ pc.holds) :
    Kept (s.toWorker w pc e) id := by
  refine h.toWorker ?_ ?_ (fun hp => Or.inl (hpc hp))
  · rw [hbuffer]
    exact Or.inl
  · rw [hheap]
    exact fun hh => hh

/-- A worker lets go of a task only after it has written its final state. -/
theorem WorkerStep.kept
    {s s' : World n m} {w : Fin n} {env : LogEnv} {id : TaskID}
    (h : WorkerStep s w env s')
    (hkept : Kept s id) :
    Kept s' id ∨ (s.workers w).settles = some id := by
  cases h with
  | @dequeue j rb hpc hdeq =>
      refine Or.inl (hkept.toWorker ?_ (fun hh => hh) (fun hp => by rw [hpc] at hp; cases hp))
      intro hb
      rw [(RingBuffer.dequeue_done hdeq).1] at hb
      rcases List.mem_cons.mp hb with rfl | hrest
      · exact Or.inr (List.mem_singleton_self _)
      · exact Or.inl hrest
  | @repush j err hpc =>
      have hperm := Engine.pushHeap_perm s.engine j
      refine Or.inl (hkept.toWorker (fun hb => Or.inl hb) ?_ ?_)
      · intro hh
        exact hperm.mem_iff.mpr (List.mem_cons_of_mem _ hh)
      · intro hp
        rw [hpc] at hp
        rw [List.mem_singleton.mp hp]
        exact Or.inr (hperm.mem_iff.mpr List.mem_cons_self)
  | @logComplete j hpc =>
      by_cases hj : id = j
      · right
        rw [hpc, hj]
        rfl
      · left
        refine Kept.toWorker hkept (fun hb => Or.inl hb) (fun hh => hh) ?_
        intro hp
        change id ∈ (s.workers w).holds at hp
        rw [hpc] at hp
        exact absurd (List.mem_singleton.mp hp) hj
  | @bury j err hpc =>
      by_cases hj : id = j
      · right
        rw [hpc, hj]
        rfl
      · left
        refine Kept.toWorker hkept (fun hb => Or.inl hb) (fun hh => hh) ?_
        intro hp
        rw [hpc] at hp
        exact absurd (List.mem_singleton.mp hp) hj
  | @write j result hpc =>
      left
      cases result <;> exact hkept.working rfl rfl (by simp [hpc, WorkerPc.holds])
  | _ =>
      rename_i hpc
      exact Or.inl (Kept.working hkept rfl rfl (by simp_all [WorkerPc.holds]))

theorem Kept.toScheduler
    {s : World n m} {pc : SchedulerPc} {e : Engine} {id : TaskID}
    (h : Kept s id)
    (hbuffer : id ∈ s.engine.buffer.contents → id ∈ e.buffer.contents)
    (hheap : id ∈ s.engine.heap.inner → id ∈ e.heap.inner ∨ id ∈ pc.holds)
    (hpc : id ∈ s.scheduler.holds →
      id ∈ pc.holds ∨ id ∈ e.buffer.contents ∨ id ∈ e.heap.inner) :
    Kept (s.toScheduler pc e) id := by
  rcases h with hb | hh | hs | hw
  · exact Or.inl (hbuffer hb)
  · rcases hheap hh with hh' | hp
    · exact Or.inr (Or.inl hh')
    · exact Or.inr (Or.inr (Or.inl hp))
  · rcases hpc hs with hp | hb | hh
    · exact Or.inr (Or.inr (Or.inl hp))
    · exact Or.inl hb
    · exact Or.inr (Or.inl hh)
  · exact Or.inr (Or.inr (Or.inr hw))

/-- The scheduler lets go of a task only when it is cancelled or has expired. -/
theorem SchedulerStep.kept
    {s s' : World n m} {now : Time} {id : TaskID}
    (h : SchedulerStep s now s')
    (hopen : s.engine.buffer.closed = false)
    (hkept : Kept s id) :
    Kept s' id ∨ s'.engine.live id = false := by
  cases h with
  | promote hpc =>
      have hperm := (Engine.promoteReady_promoted s.engine now).perm
      refine Or.inl (hkept.toScheduler (fun hb => hb) ?_ (fun hp => by rw [hpc] at hp; cases hp))
      intro hh
      rcases List.mem_append.mp (hperm.mem_iff.mpr hh) with hready | hleft
      · exact Or.inr hready
      · exact Or.inl hleft
  | @skip j ready hpc hstate =>
      by_cases hj : id = j
      · right
        rw [hj]
        show s.engine.live j = false
        rw [Engine.live, hstate]
        rfl
      · refine Or.inl (hkept.toScheduler (fun hb => hb) (fun hh => Or.inl hh) ?_)
        intro hp
        rw [hpc] at hp
        rcases List.mem_cons.mp hp with hself | hrest
        · exact absurd hself hj
        · exact Or.inl hrest
  | @expire j ready hpc =>
      by_cases hj : id = j
      · right
        rw [hj]
        exact live_updateTask_self (fun _ => rfl)
      · refine Or.inl (hkept.toScheduler (fun hb => hb) (fun hh => Or.inl hh) ?_)
        intro hp
        rw [hpc] at hp
        rcases List.mem_cons.mp hp with hself | hrest
        · exact absurd hself hj
        · exact Or.inl hrest
  | @enqueue j ready rb hpc henq =>
      have hcontents := (RingBuffer.enqueue_done henq).1
      refine Or.inl (hkept.toScheduler ?_ (fun hh => Or.inl hh) ?_)
      · intro hb
        show id ∈ rb.contents
        rw [hcontents]
        exact List.mem_append_left _ hb
      · intro hp
        rw [hpc] at hp
        rcases List.mem_cons.mp hp with hself | hrest
        · right
          left
          show id ∈ rb.contents
          rw [hcontents, hself]
          exact List.mem_append_right _ (List.mem_singleton_self j)
        · exact Or.inl hrest
  | @repush j ready hpc =>
      have hperm := Engine.pushHeap_perm s.engine j
      refine Or.inl (hkept.toScheduler (fun hb => hb) ?_ ?_)
      · intro hh
        exact Or.inl (hperm.mem_iff.mpr (List.mem_cons_of_mem _ hh))
      · intro hp
        rw [hpc] at hp
        rcases List.mem_cons.mp hp with hself | hrest
        · rw [hself]
          exact Or.inr (Or.inr (hperm.mem_iff.mpr List.mem_cons_self))
        · exact Or.inl hrest
  | @stop j ready hpc henq =>
      exact absurd henq (RingBuffer.enqueue_ne_closed hopen j)
  | _ =>
      exact Or.inl (hkept.toScheduler (fun hb => hb) (fun hh => Or.inl hh)
        (fun hp => by simp_all [SchedulerPc.holds]))

theorem Kept.toCall
    {s : World n m} {c : Fin m} {pc : CallPc} {e : Engine} {id : TaskID}
    (h : Kept s id)
    (hbuffer : id ∈ s.engine.buffer.contents → id ∈ e.buffer.contents)
    (hheap : id ∈ s.engine.heap.inner → id ∈ e.heap.inner) :
    Kept (s.toCall c pc e) id := by
  rcases h with hb | hh | hs | hw
  · exact Or.inl (hbuffer hb)
  · exact Or.inr (Or.inl (hheap hh))
  · exact Or.inr (Or.inr (Or.inl hs))
  · exact Or.inr (Or.inr (Or.inr hw))

/-- A client takes away no task but the target of a removal. -/
theorem CallStep.kept
    {s s' : World n m} {c : Fin m} {env : LogEnv} {id : TaskID}
    (h : CallStep s c env s')
    (hkept : Kept s id) :
    Kept s' id ∨ ∃ j, s.calls c = .removing j ∧ s.engine.heap.target j = some id := by
  cases h with
  | @push j hpc =>
      refine Or.inl (Kept.toCall hkept (fun hb => hb) ?_)
      intro hh
      exact (Engine.pushHeap_perm s.engine j).mem_iff.mpr (List.mem_cons_of_mem _ hh)
  | @enqueue j rb hpc henq =>
      refine Or.inl (Kept.toCall hkept ?_ (fun hh => hh))
      intro hb
      show id ∈ rb.contents
      rw [(RingBuffer.enqueue_done henq).1]
      exact List.mem_append_left _ hb
  | @remove j hpc =>
      by_cases htarget : s.engine.heap.target j = some id
      · exact Or.inr ⟨j, hpc, htarget⟩
      · refine Or.inl (Kept.toCall hkept (fun hb => hb) ?_)
        intro hh
        rcases s.engine.mem_removeHeap j hh with hleft | ht
        · exact hleft
        · exact absurd ht htarget
  | _ =>
      exact Or.inl hkept

/-- The tasks that must not be lost: those accepted, and those queued at the start. -/
def Owed (queued : List TaskID) (s : World n m) (id : TaskID) : Prop :=
  id ∈ s.accepted ∨ id ∈ queued

theorem Owed.of_accepted
    {queued : List TaskID} {s s' : World n m} {id : TaskID}
    (haccepted : s'.accepted = s.accepted)
    (h : s'.Owed queued id) :
    s.Owed queued id := by
  unfold Owed at h ⊢
  rwa [haccepted] at h

/-- What every step keeps so that no task is lost. -/
structure Tracked (queued : List TaskID) (s : World n m) : Prop where
  custody : Custody s
  bufferOpen : s.engine.buffer.closed = false
  settled : ∀ w id, (s.workers w).settles = some id → s.engine.live id = false
  known : ∀ id, s.Owed queued id → id ∈ s.issued
  kept : ∀ id, s.Owed queued id → s.engine.live id = true → Kept s id

/-- A worker writes a final state before it goes on to log it. -/
theorem WorkerStep.settles
    {s s' : World n m} {w : Fin n} {env : LogEnv} {id : TaskID}
    (h : WorkerStep s w env s')
    (hsettled : ∀ id, (s.workers w).settles = some id → s.engine.live id = false)
    (hid : (s'.workers w).settles = some id) :
    s'.engine.live id = false := by
  cases h with
  | @succeed j hpc =>
      have hj : j = id := by simpa [toWorker, WorkerPc.settles] using hid
      rw [← hj]
      exact live_updateTask_self (fun _ => rfl)
  | @die j err hpc hfinal =>
      have hj : j = id := by simpa [toWorker, WorkerPc.settles] using hid
      rw [← hj]
      exact live_updateTask_self (fun _ => rfl)
  | @logDead j err hpc =>
      have hj : j = id := by simpa [toWorker, report, WorkerPc.settles] using hid
      rw [← hj]
      exact hsettled j (by rw [hpc]; rfl)
  | _ =>
      simp [toWorker, report, handlerStarts, WorkerPc.settles] at hid

theorem workerStep_tracked
    {queued : List TaskID} {s s' : World n m} {w : Fin n} {env : LogEnv}
    (h : Tracked queued s)
    (hstep : WorkerStep s w env s') :
    Tracked queued s' := by
  obtain ⟨hissued, haccepted, -⟩ := hstep.history
  have hacted := hstep.acted
  refine ⟨workerStep_custody h.custody hstep, hstep.closed.trans h.bufferOpen, ?_, ?_, ?_⟩
  · intro w' id hid
    by_cases hw : w' = w
    · subst hw
      exact hstep.settles (h.settled w') hid
    · rw [hacted.workers w' (by simpa using Ne.symm hw)] at hid
      have hnot : id ∉ (s.workers w).holds :=
        h.custody.exclusive.elsewhere (p := .worker w') (q := .worker w)
          (mem_holds_of_settles hid) (by simpa using Ne.symm hw)
      exact live_eq_false_of_imp (hstep.live_of_notMem hnot) (h.settled w' id hid)
  · intro id hid
    rw [hissued]
    exact h.known id (hid.of_accepted haccepted)
  · intro id hid hlive
    by_cases hmem : id ∈ (s.workers w).holds
    · rcases hstep.kept (Or.inr (Or.inr (Or.inr ⟨w, hmem⟩))) with hk | hsettles
      · exact hk
      · exact absurd hlive (by simp [hstep.live_of_settles hsettles (h.settled w id hsettles)])
    · have hold := h.kept id (hid.of_accepted haccepted) (hstep.live_of_notMem hmem hlive)
      rcases hstep.kept hold with hk | hsettles
      · exact hk
      · exact absurd (mem_holds_of_settles hsettles) hmem

theorem schedulerStep_tracked
    {queued : List TaskID} {s s' : World n m} {now : Time}
    (h : Tracked queued s)
    (hstep : SchedulerStep s now s') :
    Tracked queued s' := by
  obtain ⟨hissued, haccepted, -⟩ := hstep.history
  have hacted := hstep.acted
  refine ⟨schedulerStep_custody h.custody hstep, hstep.closed.trans h.bufferOpen, ?_, ?_, ?_⟩
  · intro w id hid
    rw [hacted.workers w (by simp)] at hid
    have hheld : id ∈ s.holdings (.worker w) := mem_holds_of_settles hid
    have hnot : id ∉ s.scheduler.holds :=
      h.custody.exclusive.elsewhere (q := .scheduler) hheld (by simp)
    exact live_eq_false_of_imp
      (hstep.live_of_notMem hnot (h.custody.notMem_heap hheld (by simp))) (h.settled w id hid)
  · intro id hid
    rw [hissued]
    exact h.known id (hid.of_accepted haccepted)
  · intro id hid hlive
    have hold : Kept s id := by
      by_cases hs : id ∈ s.scheduler.holds
      · exact Or.inr (Or.inr (Or.inl hs))
      · by_cases hh : id ∈ s.engine.heap.inner
        · exact Or.inr (Or.inl hh)
        · exact h.kept id (hid.of_accepted haccepted) (hstep.live_of_notMem hs hh hlive)
    rcases hstep.kept h.bufferOpen hold with hk | hdead
    · exact hk
    · rw [hlive] at hdead
      cases hdead

/-- A `Submit` returns nil with its task in a queue. -/
theorem CallStep.accepted
    {s s' : World n m} {c : Fin m} {env : LogEnv} {id : TaskID}
    (h : CallStep s c env s')
    (hid : id ∈ s'.accepted) :
    id ∈ s.accepted ∨ (id ∈ (s.calls c).holds ∧ Kept s' id) := by
  cases h with
  | @push j hpc =>
      rcases List.mem_cons.mp hid with rfl | hold
      · right
        refine ⟨by simp [hpc, CallPc.holds], Or.inr (Or.inl ?_)⟩
        exact (Engine.pushHeap_perm s.engine id).mem_iff.mpr List.mem_cons_self
      · exact Or.inl hold
  | @enqueue j rb hpc henq =>
      rcases List.mem_cons.mp hid with rfl | hold
      · right
        refine ⟨by simp [hpc, CallPc.holds], Or.inl ?_⟩
        show id ∈ rb.contents
        rw [(RingBuffer.enqueue_done henq).1]
        exact List.mem_append_right _ (List.mem_singleton_self id)
      · exact Or.inl hold
  | _ =>
      exact Or.inl hid

/-- The removal of `CancelTask`, if it takes out a task, takes out a cancelled one. -/
def RemovesCancelled (s : World n m) : Event n m → Prop
  | .call c _ =>
      ∀ id ∈ (s.calls c).removes, ∀ a ∈ s.engine.heap.target id,
        s.engine.stateOf a = some .cancelled
  | _ => True

theorem callStep_tracked
    {queued : List TaskID} {s s' : World n m} {c : Fin m} {env : LogEnv}
    (h : Tracked queued s)
    (hok : s.RemovesCancelled (.call c env))
    (hstep : CallStep s c env s') :
    Tracked queued s' := by
  have hacted := hstep.acted
  have howed : ∀ id, s'.Owed queued id →
      s.Owed queued id ∨ (id ∈ (s.calls c).holds ∧ Kept s' id) := by
    intro id hid
    rcases hid with hacc | hq
    · rcases hstep.accepted hacc with hold | hnew
      · exact Or.inl (Or.inl hold)
      · exact Or.inr hnew
    · exact Or.inl (Or.inr hq)
  refine ⟨callStep_custody h.custody hstep, hstep.closed.trans h.bufferOpen, ?_, ?_, ?_⟩
  · intro w id hid
    rw [hacted.workers w (by simp)] at hid
    exact live_eq_false_of_imp hstep.live (h.settled w id hid)
  · intro id hid
    rw [hstep.issued]
    rcases howed id hid with hold | ⟨hheld, -⟩
    · exact h.known id hold
    · exact h.custody.mem_issued (p := .call c) hheld
  · intro id hid hlive
    rcases howed id hid with hold | ⟨-, hnew⟩
    · rcases hstep.kept (h.kept id hold (hstep.live hlive)) with hk | ⟨j, hpc, htarget⟩
      · exact hk
      · have hwas := hstep.live hlive
        rw [Engine.live, hok _ (by rw [hpc]; rfl) id htarget] at hwas
        cases hwas
    · exact hnew

theorem submitStep_tracked
    {queued : List TaskID} {s s' : World n m} {c : Fin m} {task : Task}
    {generatedID : TaskID} {now : Time}
    (h : Tracked queued s)
    (hstep : s.submitStep c task generatedID now = some s') :
    Tracked queued s' := by
  have hcustody := submitStep_custody h.custody hstep
  rcases submitStep_cases hstep with rfl | ⟨-, -, hid, rfl⟩
  · exact h
  · generalize s.engine.prepare task generatedID now = t at hid hcustody
    have hlive : ∀ id, id ∈ s.issued → (s.engine.register t).live id = s.engine.live id := by
      intro id hmem
      have hne : id ≠ t.id := by
        rintro rfl
        exact hid hmem
      rw [Engine.live, Engine.stateOf_register_of_ne _ hne]
      rfl
    refine ⟨hcustody, h.bufferOpen, ?_, ?_, ?_⟩
    · intro w id hw
      have hmem : id ∈ s.issued :=
        h.custody.mem_issued (p := .worker w) (mem_holds_of_settles hw)
      exact (hlive id hmem).trans (h.settled w id hw)
    · intro id howed
      exact List.mem_cons_of_mem _ (h.known id howed)
    · intro id howed hl
      exact h.kept id howed ((hlive id (h.known id howed)) ▸ hl)

theorem cancelStep_tracked
    {queued : List TaskID} {s s' : World n m} {c : Fin m} {id : TaskID} {now : Time}
    (h : Tracked queued s)
    (hstep : s.cancelStep c id now = some s') :
    Tracked queued s' := by
  have hcustody := cancelStep_custody h.custody hstep
  rcases cancelStep_cases hstep with rfl | ⟨-, t, -, -, rfl⟩
  · exact h
  · have hlive : ∀ j, (s.engine.updateTask id (Engine.cancelledAt now)).live j = true →
        s.engine.live j = true :=
      fun j hj => live_updateTask_final (fun _ => rfl) hj
    refine ⟨hcustody, h.bufferOpen, ?_, h.known, ?_⟩
    · intro w j hw
      exact live_eq_false_of_imp (hlive j) (h.settled w j hw)
    · intro j howed hl
      exact h.kept j howed (hlive j hl)

theorem checkpointStep_tracked
    {queued : List TaskID} {s s' : World n m} {order : List TaskID}
    (h : Tracked queued s)
    (hstep : s.checkpointStep order = some s') :
    Tracked queued s' := by
  have hsame := checkpointStep_unmoved hstep
  have hlive : ∀ id, s'.engine.live id = s.engine.live id := by
    intro id
    simp only [Engine.live, Engine.stateOf, hsame.tasks]
  refine ⟨checkpointStep_custody h.custody hstep, ?_, ?_, ?_, ?_⟩
  · rw [hsame.buffer]
    exact h.bufferOpen
  · intro w id hid
    rw [hsame.workers] at hid
    rw [hlive]
    exact h.settled w id hid
  · intro id hid
    rw [hsame.issued]
    exact h.known id (hid.of_accepted hsame.accepted)
  · intro id hid hl
    rw [hlive] at hl
    rw [Kept, hsame.buffer, hsame.heap, hsame.scheduler, hsame.workers]
    exact h.kept id (hid.of_accepted hsame.accepted) hl

/-- A step keeps track of the tasks when a removal takes out a cancelled task. -/
theorem step_tracked
    {queued : List TaskID} (s : World n m) (e : Event n m) (s' : World n m)
    (h : Tracked queued s)
    (hok : s.RemovesCancelled e)
    (hstep : s.step e = some s') :
    Tracked queued s' := by
  cases e with
  | worker w env result delay =>
      exact workerStep_tracked h (workerStep_cases hstep)
  | scheduler now =>
      exact schedulerStep_tracked h (schedulerStep_cases hstep)
  | submit c task generatedID now =>
      exact submitStep_tracked h hstep
  | cancel c id now =>
      exact cancelStep_tracked h hstep
  | call c env =>
      exact callStep_tracked h hok (callStep_cases hstep)
  | checkpoint order =>
      exact checkpointStep_tracked h hstep

theorem start_tracked
    {cfg : Engine.Config} {d : Engine.Disk} {order : List TaskID} {e : Engine}
    (h : Engine.Recovered cfg d order e) :
    Tracked e.queued (start e d order : World n m) := by
  have hcustody : Custody (start e d order : World n m) := start_custody h
  obtain ⟨loaded, last, hload, horder, hall⟩ := h.restarted
  have hkept : ∀ id, id ∈ e.queued → Kept (start e d order : World n m) id := by
    intro id hid
    rcases List.mem_append.mp hid with hb | hh
    · exact Or.inl hb
    · exact Or.inr (Or.inl hh)
  refine ⟨hcustody, hall.bufferOpen, ?_, ?_, ?_⟩
  · intro w id hid
    cases hid
  · rintro id (hacc | hq)
    · cases hacc
    · rcases List.mem_append.mp hq with hb | hh
      · exact hcustody.mem_issued (p := .buffer) hb
      · exact hcustody.mem_issued (p := .heap) hh
  · rintro id (hacc | hq) hlive
    · cases hacc
    · exact hkept id hq

/--
In every run of a recovered engine in which `CancelTask` removes only cancelled tasks
from the heap, a task that was accepted, or queued at the start, and that still has to
run is in a queue, with the scheduler or with a worker.
-/
theorem accepted_kept
    (cfg : Engine.Config) (d : Engine.Disk) (order : List TaskID) (e : Engine)
    (es : List (Event n m)) (s : World n m)
    (hrec : Engine.Recovered cfg d order e)
    (hrun : Lib.Run step RemovesCancelled (start e d order) es s) :
    ∀ id, id ∈ s.accepted ∨ id ∈ e.queued → s.engine.live id = true → Kept s id :=
  (hrun.invariant (Tracked e.queued) step_tracked (start_tracked hrec)).kept

instance (s : World n m) (e : Event n m) : Decidable (s.RemovesCancelled e) :=
  Event.decidable (fun _ _ _ _ => instDecidableTrue) (fun _ => instDecidableTrue)
    (fun _ _ _ _ => instDecidableTrue) (fun _ _ _ => instDecidableTrue)
    (fun c _ => inferInstanceAs (Decidable (∀ id ∈ (s.calls c).removes, ∀ a ∈ _, _)))
    (fun _ => instDecidableTrue) e

/-- A task is accepted and cancelled while it is on the heap, and another one starts. -/
def cancelScheduled : List (Event 1 1) :=
  wholeSubmit 0 { Task.zero with scheduledAt := 1000 } "a" 10 ++
    wholeSubmit 0 Task.zero "b" 20 ++ wholeCancel 0 "a" 30 ++ wholeStart 0 40

theorem accepted_kept_cancelScheduled :
    ∃ s : World 1 1,
      Lib.Run step RemovesCancelled (initial System.roomyConfig) cancelScheduled s ∧
      (s.accepted = ["b", "a"] ∧ s.cancelled = ["a"] ∧ s.engine.live "b" = true) ∧
      ∀ id, id ∈ s.accepted ∨ id ∈ (System.initial System.roomyConfig).engine.queued →
        s.engine.live id = true → Kept s id := by
  obtain ⟨s, hrun, hs⟩ :=
    Lib.exists_run_of_exec step RemovesCancelled
      (fun s : World 1 1 => s.accepted = ["b", "a"] ∧ s.cancelled = ["a"] ∧
        s.engine.live "b" = true)
      (initial System.roomyConfig) cancelScheduled (by decide +kernel)
  exact ⟨s, hrun, hs,
    accepted_kept System.roomyConfig Engine.Disk.empty [] _ cancelScheduled s
      (recovered_initial System.roomyConfig) hrun⟩

/-- A task is accepted for later, a second one for now, and the second is cancelled. -/
def cancelPending : List (Event 1 1) :=
  wholeSubmit 0 { Task.zero with scheduledAt := 1000 } "a" 10 ++
    wholeSubmit 0 Task.zero "b" 20 ++ wholeCancel 0 "b" 30

/-- The removal of the task that was never on the heap takes out the other one. -/
theorem cancel_removesOther :
    ∃ s : World 1 1,
      Lib.Run step (fun _ _ => True) (initial System.roomyConfig) cancelPending s ∧
      "a" ∈ s.accepted ∧ s.engine.live "a" = true ∧ ¬ Kept s "a" := by
  obtain ⟨s, hrun, hacc, hlive, hb, hh, hs, hw⟩ :=
    Lib.exists_run_of_exec step (fun _ _ => True)
      (fun s : World 1 1 => "a" ∈ s.accepted ∧ s.engine.live "a" = true ∧
        "a" ∉ s.engine.buffer.contents ∧ "a" ∉ s.engine.heap.inner ∧
        "a" ∉ s.scheduler.holds ∧ ∀ w, "a" ∉ (s.workers w).holds)
      (initial System.roomyConfig) cancelPending (by decide +kernel)
  refine ⟨s, hrun, hacc, hlive, ?_⟩
  rintro (hb' | hh' | hs' | ⟨w, hw'⟩)
  · exact hb hb'
  · exact hh hh'
  · exact hs hs'
  · exact hw w hw'

end World
end TaskQueue
