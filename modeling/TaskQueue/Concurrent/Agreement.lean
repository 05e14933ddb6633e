import Mathlib.Tactic
import TaskQueue.Concurrent.Holders

/-!
# The state of a task and its holder

As long as the threads keep out of each other's way (`Orderly`), the holder of a task
says in which states it can be: `Agreement`, kept by every orderly step (`step_agreement`).
Every state is then written by a thread that has the task, over a state in which the
task still has to run (`step_stable`).

`cancels` says whether there are calls of `CancelTask` at all.
-/

namespace TaskQueue

open Lib (GoMap Exclusive Moves Consistent)
open Queue
open Wal (Log LogEnv LogRecord Snapshot)
open Engine (HandlerError)

/-- The state of the task that a worker holds. -/
def WorkerPc.expects : WorkerPc → Option TaskState
  | .dequeued _ => some .pending
  | .marked _ => some .running
  | .starting _ => some .running
  | .executing _ => some .running
  | .returned _ _ => some .running
  | .completing _ => some .completed
  | .dying _ _ => some .dead
  | .burying _ _ => some .dead
  | .retrying _ _ => some .scheduled
  | .repushing _ _ => some .scheduled
  | _ => none

/-- The task that a worker has taken from the buffer and not marked yet. -/
def WorkerPc.taken : WorkerPc → Option TaskID
  | .dequeued id => some id
  | _ => none

/-- The task that a worker has let go of and still has to check. -/
def WorkerPc.checks : WorkerPc → Option TaskID
  | .checking id _ => some id
  | .writing id _ => some id
  | _ => none

/-- The states that a worker writes next. -/
inductive WorkerPc.Writes : WorkerPc → TaskID → TaskState → Prop
  | mark (id : TaskID) : Writes (.dequeued id) id .running
  | wrap (id : TaskID) : Writes (.marked id) id .running
  | succeed (id : TaskID) : Writes (.returned id none) id .completed
  | die (id : TaskID) (err : HandlerError) : Writes (.returned id (some err)) id .dead
  | retry (id : TaskID) (err : HandlerError) : Writes (.returned id (some err)) id .scheduled
  | complete (id : TaskID) : Writes (.writing id none) id .completed
  | fail (id : TaskID) (err : HandlerError) : Writes (.writing id (some err)) id .failed

/-- But for the write after its check, a worker writes to the task it holds. -/
theorem WorkerPc.Writes.expected
    {pc : WorkerPc} {j : TaskID} {x : TaskState}
    (hw : pc.Writes j x)
    (hnot : ∀ id outcome, pc ≠ .writing id outcome) :
    j ∈ pc.holds ∧ pc.expects.any TaskState.isLive = true := by
  cases hw with
  | complete id =>
      exact absurd rfl (hnot j none)
  | fail id err =>
      exact absurd rfl (hnot j (some err))
  | _ =>
      exact ⟨List.mem_singleton_self j, rfl⟩

/-- The ready tasks that the scheduler has not looked at. -/
def SchedulerPc.unchecked : SchedulerPc → List TaskID
  | .loop ready => ready
  | .expiring _ ready => ready
  | .enqueueing _ ready => ready
  | .postponing _ ready => ready
  | .repushing _ ready => ready
  | .stopped => []

/-- The ready task that the scheduler deals with, and its state. -/
def SchedulerPc.inHand : SchedulerPc → Option (TaskID × TaskState)
  | .expiring id _ => some (id, .pending)
  | .enqueueing id _ => some (id, .pending)
  | .postponing id _ => some (id, .pending)
  | .repushing id _ => some (id, .scheduled)
  | _ => none

theorem SchedulerPc.holds_eq
    (pc : SchedulerPc) :
    pc.holds = (pc.inHand.map Prod.fst).toList ++ pc.unchecked := by
  cases pc <;> rfl

/-- The states of the task that a `Submit` holds. -/
def CallPc.expects : CallPc → List TaskState
  | .registered _ => [.pending, .scheduled]
  | .marshalled _ _ => [.pending, .scheduled]
  | .undoing _ => [.pending, .scheduled]
  | .logged _ => [.pending, .scheduled]
  | .pushing _ => [.scheduled]
  | .enqueueing _ => [.pending]
  | _ => []

theorem CallPc.isLive_of_mem_expects
    {pc : CallPc} {x : TaskState}
    (hx : x ∈ pc.expects) :
    x.isLive = true := by
  have hall : ∀ y ∈ pc.expects, y = .pending ∨ y = .scheduled := by
    cases pc <;> simp [CallPc.expects]
  rcases hall x hx with rfl | rfl <;> rfl

/-- The task that a `CancelTask` has marked. -/
def CallPc.cancels : CallPc → Option TaskID
  | .cancelling id => some id
  | .removing id => some id
  | _ => none

namespace World

variable {n m : Nat}

/-- The states that a task can have at a place. -/
def Allows (cancels : Prop) (s : World n m) : Place n m → TaskID → Option TaskState → Prop
  | .buffer, _, st => st = some .pending ∨ cancels ∧ st = some .cancelled
  | .heap, _, st => st = some .scheduled ∨ cancels ∧ st = some .cancelled
  | .scheduler, id, st =>
      (∃ x, s.scheduler.inHand = some (id, x) ∧ st = some x) ∨
      id ∈ s.scheduler.unchecked ∧ (st = some .pending ∨ cancels ∧ st = some .cancelled)
  | .worker w, _, st => st = (s.workers w).expects
  | .call c, _, st => ∃ x ∈ (s.calls c).expects, st = some x

/-- The event is a call of `CancelTask`. -/
def Event.isCancel : Event n m → Bool
  | .cancel _ _ _ => true
  | _ => false

/-- The places agree with the states, and no thread has overtaken another. -/
structure Agreement (cancels : Prop) (s : World n m) : Prop where
  custody : Custody s
  states : Consistent s.holdings s.engine.stateOf (s.Allows cancels)
  checked : ∀ w id result, s.workers w = .checking id result →
    s.engine.stateOf id ≠ some .running
  unwritten : ∀ w id result, s.workers w ≠ .writing id result
  marked : ∀ c id, (s.calls c).cancels = some id → s.engine.stateOf id = some .cancelled
  cancelled : ∀ id ∈ s.cancelled, s.engine.stateOf id = some .cancelled
  prompt : s.late = []

/-- A worker marks a task only when no other worker is still to check it. -/
def HandsOver (s : World n m) (w : Fin n) : Prop :=
  ∀ id ∈ (s.workers w).taken, ∀ w', (s.workers w').checks ≠ some id

/-- A worker does not take a cancelled task from the buffer. -/
def TakesUncancelled (s : World n m) (w : Fin n) : Prop :=
  s.workers w = .idle → ∀ id ∈ s.engine.buffer.contents.head?,
    s.engine.stateOf id ≠ some .cancelled

/-- `PromoteReady` does not meet a cancelled task that is due. -/
def PromotesUncancelled (s : World n m) (now : Time) : Prop :=
  s.scheduler = .loop [] → ∀ id ∈ s.engine.heap.inner,
    s.engine.stateOf id = some .cancelled → now < s.engine.scheduledAt id

/-- `CancelTask` marks a task in a queue, or a ready task that the scheduler has not looked at. -/
def CancelsQueued (s : World n m) (id : TaskID) : Prop :=
  (s.engine.stateOf id).any Engine.cancellable = true →
    id ∈ s.engine.heap.inner ∨ id ∈ s.engine.buffer.contents ∨ id ∈ s.scheduler.unchecked

/-- The steps of threads that keep out of each other's way. -/
def Orderly (s : World n m) : Event n m → Prop
  | .worker w _ _ _ => s.HandsOver w ∧ s.TakesUncancelled w
  | .scheduler now => s.PromotesUncancelled now
  | .cancel _ id _ => s.CancelsQueued id
  | _ => True

instance (s : World n m) (w : Fin n) : Decidable (s.HandsOver w) :=
  inferInstanceAs (Decidable (∀ id ∈ (s.workers w).taken, _))

instance (s : World n m) (w : Fin n) : Decidable (s.TakesUncancelled w) :=
  inferInstanceAs (Decidable (_ → ∀ id ∈ s.engine.buffer.contents.head?, _))

instance (s : World n m) (now : Time) : Decidable (s.PromotesUncancelled now) :=
  inferInstanceAs (Decidable (_ → ∀ id ∈ s.engine.heap.inner, _ → _))

instance (s : World n m) (id : TaskID) : Decidable (s.CancelsQueued id) :=
  inferInstanceAs (Decidable (_ → _ ∨ _ ∨ _))

instance (s : World n m) (e : Event n m) : Decidable (s.Orderly e) :=
  Event.decidable (fun _ _ _ _ => inferInstanceAs (Decidable (_ ∧ _)))
    (fun now => inferInstanceAs (Decidable (s.PromotesUncancelled now)))
    (fun _ _ _ _ => instDecidableTrue)
    (fun _ id _ => inferInstanceAs (Decidable (s.CancelsQueued id)))
    (fun _ _ => instDecidableTrue) (fun _ => instDecidableTrue) e

variable {cancels : Prop} {s s' : World n m}

/-- What a place allows depends on the thread of that place only. -/
theorem Acted.allows
    {p q : Place n m}
    (h : Acted q s s')
    (hp : p ≠ q) :
    s'.Allows cancels p = s.Allows cancels p := by
  cases p with
  | buffer =>
      rfl
  | heap =>
      rfl
  | scheduler =>
      funext id st
      simp only [Allows, h.scheduler (Ne.symm hp)]
  | worker w =>
      funext id st
      simp only [Allows, h.workers w (Ne.symm hp)]
  | call c =>
      funext id st
      simp only [Allows, h.calls c (Ne.symm hp)]

section Worker

variable {w : Fin n} {env : LogEnv}

/-- The states that a worker's step changes. -/
theorem WorkerStep.stateOf_cases
    (h : WorkerStep s w env s')
    (j : TaskID) :
    s'.engine.stateOf j = s.engine.stateOf j ∨
      ∃ x, (s.workers w).Writes j x ∧ s'.engine.stateOf j = some x := by
  cases h with
  | @mark id hpc =>
      rw [hpc]
      refine ((s.engine.markRunning_sets id env.now).same_or j).imp_right ?_
      rintro ⟨rfl, hst⟩
      exact ⟨_, .mark j, hst⟩
  | @wrap id hpc =>
      rw [hpc]
      refine ((s.engine.markRunning_sets id env.now).same_or j).imp_right ?_
      rintro ⟨rfl, hst⟩
      exact ⟨_, .wrap j, hst⟩
  | @succeed id hpc =>
      rw [hpc]
      refine ((s.engine.markCompleted_sets id env.now).same_or j).imp_right ?_
      rintro ⟨rfl, hst⟩
      exact ⟨_, .succeed j, hst⟩
  | @die id err hpc hfinal =>
      rw [hpc]
      refine ((s.engine.markDead_sets id err env.now).same_or j).imp_right ?_
      rintro ⟨rfl, hst⟩
      exact ⟨_, .die j err, hst⟩
  | @retry id err nextAt hpc hfinal =>
      rw [hpc]
      refine ((s.engine.markRetry_sets id err nextAt).same_or j).imp_right ?_
      rintro ⟨rfl, hst⟩
      exact ⟨_, .retry j err, hst⟩
  | @write id result hpc =>
      rw [hpc]
      cases result with
      | none =>
          refine ((s.engine.poolWrite_none_sets id env.now).same_or j).imp_right ?_
          rintro ⟨rfl, hst⟩
          exact ⟨_, .complete j, hst⟩
      | some err =>
          refine ((s.engine.poolWrite_some_sets id err env.now).same_or j).imp_right ?_
          rintro ⟨rfl, hst⟩
          exact ⟨_, .fail j err, hst⟩
  | _ =>
      exact Or.inl rfl

/-- A worker that agrees writes to the task it holds, which has to run. -/
theorem Agreement.writes
    (h : Agreement cancels s)
    {j : TaskID} {x : TaskState}
    (hw : (s.workers w).Writes j x) :
    j ∈ (s.workers w).holds ∧ s.engine.live j = true := by
  obtain ⟨hheld, hlive⟩ := hw.expected (h.unwritten w)
  have hst : s.engine.stateOf j = (s.workers w).expects := h.states (.worker w) j hheld
  refine ⟨hheld, ?_⟩
  rw [Engine.live, hst]
  exact hlive

/-- A step that leaves the tasks alone that do not run any more keeps their states. -/
theorem stateOf_of_stable
    {id : TaskID} {x : TaskState}
    (hstable : s.engine.live id = false → s'.engine.stateOf id = s.engine.stateOf id)
    (hid : s.engine.stateOf id = some x)
    (hx : x.isLive = false) :
    s'.engine.stateOf id = some x := by
  have hlive : s.engine.live id = false := by
    rw [Engine.live, hid]
    exact hx
  rw [hstable hlive, hid]

theorem WorkerStep.stable
    (hstep : WorkerStep s w env s')
    (h : Agreement cancels s)
    {j : TaskID}
    (hj : s.engine.live j = false) :
    s'.engine.stateOf j = s.engine.stateOf j := by
  rcases hstep.stateOf_cases j with hsame | ⟨x, hw, -⟩
  · exact hsame
  · rw [(h.writes hw).2] at hj
    cases hj

/-- A worker marks what it holds; a task that is running already stays so. -/
theorem WorkerStep.running
    (hstep : WorkerStep s w env s')
    (h : Agreement cancels s)
    {j : TaskID}
    (hj : s'.engine.stateOf j = some .running) :
    s.engine.stateOf j = some .running ∨ s.workers w = .dequeued j := by
  rcases hstep.stateOf_cases j with hsame | ⟨x, hw, hx⟩
  · exact Or.inl (hsame ▸ hj)
  · rw [hj] at hx
    cases hx
    have hst : s.engine.stateOf j = (s.workers w).expects :=
      h.states (.worker w) j (h.writes hw).1
    generalize s.workers w = pc at hw hst
    cases hw with
    | mark id =>
        exact Or.inr rfl
    | wrap id =>
        exact Or.inl hst

/-- The task that a worker holds after its step is in the state that goes with it. -/
theorem WorkerStep.expected
    (hstep : WorkerStep s w env s')
    (h : Agreement cancels s)
    (htakes : s.TakesUncancelled w)
    {a : TaskID}
    (ha : a ∈ (s'.workers w).holds) :
    s'.engine.stateOf a = (s'.workers w).expects := by
  have hold : ∀ id ∈ (s.workers w).holds,
      (s.engine.tasks.get id).isSome = true ∧
        s.engine.stateOf id = (s.workers w).expects :=
    fun id hid => ⟨h.custody.registered (p := .worker w) hid, h.states (.worker w) id hid⟩
  cases hstep with
  | @dequeue id rb hpc hdeq =>
      simp only [toWorker, Function.update_self] at ha ⊢
      rw [List.mem_singleton.mp ha]
      have hfront := (RingBuffer.dequeue_done hdeq).1
      have hmem : id ∈ s.holdings .buffer := by
        show id ∈ s.engine.buffer.contents
        rw [hfront]
        exact List.mem_cons_self
      have huncancelled := htakes hpc id (by rw [hfront]; rfl)
      exact (h.states .buffer id hmem).resolve_right fun hc => huncancelled hc.2
  | @mark id hpc =>
      simp only [toWorker, Function.update_self] at ha ⊢
      rw [List.mem_singleton.mp ha]
      exact (s.engine.markRunning_sets id env.now).self (hold id (by simp [hpc, WorkerPc.holds])).1
  | @wrap id hpc =>
      simp only [toWorker, Function.update_self] at ha ⊢
      rw [List.mem_singleton.mp ha]
      exact (s.engine.markRunning_sets id env.now).self (hold id (by simp [hpc, WorkerPc.holds])).1
  | @succeed id hpc =>
      simp only [toWorker, Function.update_self] at ha ⊢
      rw [List.mem_singleton.mp ha]
      exact (s.engine.markCompleted_sets id env.now).self
        (hold id (by simp [hpc, WorkerPc.holds])).1
  | @die id err hpc hfinal =>
      simp only [toWorker, Function.update_self] at ha ⊢
      rw [List.mem_singleton.mp ha]
      exact (s.engine.markDead_sets id err env.now).self
        (hold id (by simp [hpc, WorkerPc.holds])).1
  | @retry id err nextAt hpc hfinal =>
      simp only [toWorker, Function.update_self] at ha ⊢
      rw [List.mem_singleton.mp ha]
      exact (s.engine.markRetry_sets id err nextAt).self
        (hold id (by simp [hpc, WorkerPc.holds])).1
  | _ =>
      simp_all [toWorker, handlerStarts, report, WorkerPc.holds, WorkerPc.expects]

/-- What a worker's step brings to other places: a task to be retried, to the heap. -/
theorem WorkerStep.came
    (hstep : WorkerStep s w env s')
    {p : Place n m} {a : TaskID}
    (hp : p ≠ .worker w)
    (ha : a ∈ s'.holdings p) :
    a ∈ s.holdings p ∨ (p = .heap ∧ ∃ err, s.workers w = .repushing a err) := by
  have hacted := hstep.acted
  cases p with
  | buffer =>
      left
      cases hstep with
      | dequeue hpc hdeq =>
          show a ∈ s.engine.buffer.contents
          rw [(RingBuffer.dequeue_done hdeq).1]
          exact List.mem_cons_of_mem _ ha
      | @write id result hpc =>
          cases result <;> exact ha
      | _ =>
          exact ha
  | heap =>
      cases hstep with
      | @repush id err hpc =>
          rcases List.mem_cons.mp ((Engine.pushHeap_perm s.engine id).mem_iff.mp ha) with
            rfl | hold
          · exact Or.inr ⟨rfl, err, hpc⟩
          · exact Or.inl hold
      | @write id result hpc =>
          left
          cases result <;> exact ha
      | _ =>
          exact Or.inl ha
  | scheduler =>
      left
      simpa only [holdings, hacted.scheduler (by simp)] using ha
  | worker w' =>
      left
      simpa only [holdings, hacted.workers w' (Ne.symm hp)] using ha
  | call c =>
      left
      simpa only [holdings, hacted.calls c (by simp)] using ha

theorem workerStep_states
    (h : Agreement cancels s)
    (htakes : s.TakesUncancelled w)
    (hstep : WorkerStep s w env s') :
    Consistent s'.holdings s'.engine.stateOf (s'.Allows cancels) := by
  have hself : ∀ a, a ∈ s'.holdings (.worker w) ↔ a ∈ (s'.workers w).holds := fun _ => Iff.rfl
  refine h.states.act h.custody.exclusive (workerStep_custody h.custody hstep).exclusive
    (.worker w) (fun p hp => hstep.acted.allows hp) ?_ ?_ ?_
  · intro a ha _
    rcases hstep.stateOf_cases a with hsame | ⟨x, hw, -⟩
    · exact hsame
    · exact absurd (h.writes hw).1 ha
  · intro p hp a ha
    rcases hstep.came hp ha with hold | ⟨rfl, err, hpc⟩
    · exact Or.inl hold
    · right
      left
      have hst : s.engine.stateOf a = (s.workers w).expects :=
        h.states (.worker w) a (by simp [holdings, hpc, WorkerPc.holds])
      rw [hpc] at hst
      rcases hstep.stateOf_cases a with hsame | ⟨x, hw, -⟩
      · exact hsame.trans hst
      · rw [hpc] at hw
        cases hw
  · intro a ha
    exact hstep.expected h htakes ha

/-- A worker that goes to its check has moved the task on. -/
theorem WorkerStep.moved_on
    (hstep : WorkerStep s w env s')
    (h : Agreement cancels s)
    {id : TaskID} {outcome : Option HandlerError}
    (hpc' : s'.workers w = .checking id outcome) :
    s'.engine.stateOf id ≠ some .running := by
  have hold : ∀ id ∈ (s.workers w).holds, s.engine.stateOf id = (s.workers w).expects :=
    fun id hid => h.states (.worker w) id hid
  cases hstep with
  | @logComplete j hpc =>
      have hj : j = id ∧ none = outcome := by simpa [toWorker, report] using hpc'
      have hst := hold j (by simp [hpc, WorkerPc.holds])
      rw [hpc, hj.1] at hst
      exact fun hrun => by cases hst.symm.trans hrun
  | @bury j err hpc =>
      have hj : j = id ∧ some err = outcome := by simpa [toWorker] using hpc'
      have hst := hold j (by simp [hpc, WorkerPc.holds])
      rw [hpc, hj.1] at hst
      exact fun hrun => by cases hst.symm.trans hrun
  | @repush j err hpc =>
      have hj : j = id ∧ some err = outcome := by simpa [toWorker] using hpc'
      have hst := hold j (by simp [hpc, WorkerPc.holds])
      rw [hpc, hj.1] at hst
      exact fun hrun => by cases hst.symm.trans hrun
  | _ =>
      simp [toWorker, handlerStarts, report] at hpc'

/-- The check of a worker finds its task moved on, so that it writes nothing. -/
theorem WorkerStep.unwritten
    (hstep : WorkerStep s w env s')
    (h : Agreement cancels s)
    (id : TaskID) (outcome : Option HandlerError) :
    s'.workers w ≠ .writing id outcome := by
  cases hstep with
  | @findRunning j result hpc hstate =>
      exact absurd hstate (h.checked w j result hpc)
  | _ =>
      simp [toWorker, handlerStarts, report]

/-- A worker that marks a task overtakes nobody. -/
theorem workerStep_agreement
    (h : Agreement cancels s)
    {result : Option HandlerError} {delay : Duration}
    (hok : s.Orderly (.worker w env result delay))
    (hstep : WorkerStep s w env s') :
    Agreement cancels s' := by
  have hacted := hstep.acted
  have hkept : ∀ id, s.engine.stateOf id = some .cancelled →
      s'.engine.stateOf id = some .cancelled := by
    intro id hid
    exact stateOf_of_stable (hstep.stable h) hid rfl
  refine ⟨workerStep_custody h.custody hstep, workerStep_states h hok.2 hstep,
    ?_, ?_, ?_, ?_, ?_⟩
  · intro w' id outcome hpc' hrun
    by_cases hw : w' = w
    · subst hw
      exact hstep.moved_on h hpc' hrun
    · rw [hacted.workers w' (by simpa using Ne.symm hw)] at hpc'
      rcases hstep.running h hrun with hwas | hmark
      · exact h.checked w' id outcome hpc' hwas
      · exact hok.1 id (by rw [hmark]; rfl) w' (by rw [hpc']; rfl)
  · intro w' id outcome
    by_cases hw : w' = w
    · subst hw
      exact hstep.unwritten h id outcome
    · rw [hacted.workers w' (by simpa using Ne.symm hw)]
      exact h.unwritten w' id outcome
  · intro c id hc
    rw [hacted.calls c (by simp)] at hc
    exact hkept id (h.marked c id hc)
  · intro id hid
    rw [hstep.history.2.2] at hid
    exact hkept id (h.cancelled id hid)
  · cases hstep with
    | @logStart id hpc =>
        have hnot : id ∉ s.cancelled := by
          intro hmem
          have hst : s.engine.stateOf id = (s.workers w).expects :=
            h.states (.worker w) id (by simp [holdings, hpc, WorkerPc.holds])
          rw [hpc, h.cancelled id hmem] at hst
          cases hst
        exact (if_neg hnot).trans h.prompt
    | _ =>
        exact h.prompt

end Worker

section Scheduler

variable {now : Time}

theorem stateOf_promoteReady
    {e : Engine} {id : TaskID}
    (hid : id ∈ (e.promoteReady now).1)
    (hreg : (e.tasks.get id).isSome = true) :
    (e.promoteReady now).2.stateOf id = some .pending := by
  obtain ⟨t, ht⟩ := Option.isSome_iff_exists.mp hreg
  rw [Engine.stateOf, Engine.get_promoteReady, if_pos hid, ht]
  rfl

/-- The states that the scheduler writes next. -/
inductive SchedulerWrites (s : World n m) (now : Time) : TaskID → TaskState → Prop
  | promote {id : TaskID}
      (hpc : s.scheduler = .loop [])
      (hid : id ∈ (s.engine.promoteReady now).1) :
      SchedulerWrites s now id .pending
  | expire {id : TaskID} {ready : List TaskID}
      (hpc : s.scheduler = .expiring id ready) :
      SchedulerWrites s now id .expired
  | postpone {id : TaskID} {ready : List TaskID}
      (hpc : s.scheduler = .postponing id ready) :
      SchedulerWrites s now id .scheduled

theorem SchedulerStep.stateOf_cases
    (h : SchedulerStep s now s')
    (j : TaskID) :
    s'.engine.stateOf j = s.engine.stateOf j ∨
      ∃ x, SchedulerWrites s now j x ∧ s'.engine.stateOf j = some x := by
  cases h with
  | promote hpc =>
      have hget := Engine.get_promoteReady s.engine now j
      show (s.engine.promoteReady now).2.stateOf j = _ ∨ ∃ x, _ ∧
        (s.engine.promoteReady now).2.stateOf j = some x
      unfold Engine.stateOf
      rw [hget]
      split_ifs with hj
      · cases s.engine.tasks.get j with
        | none =>
            exact Or.inl rfl
        | some t =>
            exact Or.inr ⟨.pending, .promote hpc hj, rfl⟩
      · exact Or.inl rfl
  | @expire id ready hpc =>
      refine ((s.engine.expire_sets id).same_or j).imp_right ?_
      rintro ⟨rfl, hst⟩
      exact ⟨_, .expire hpc, hst⟩
  | @postpone id ready hpc =>
      refine ((s.engine.postpone_sets id now).same_or j).imp_right ?_
      rintro ⟨rfl, hst⟩
      exact ⟨_, .postpone hpc, hst⟩
  | _ =>
      exact Or.inl rfl

theorem Agreement.inHand
    (h : Agreement cancels s)
    {id : TaskID} {x : TaskState}
    (hid : s.scheduler.inHand = some (id, x)) :
    s.engine.stateOf id = some x := by
  have hnodup := h.custody.exclusive.nodup .scheduler
  change s.scheduler.holds.Nodup at hnodup
  rw [SchedulerPc.holds_eq, hid] at hnodup
  have hheld : id ∈ s.scheduler.holds := by
    rw [SchedulerPc.holds_eq, hid]
    exact List.mem_cons_self
  rcases h.states .scheduler id hheld with ⟨y, hy, hst⟩ | ⟨hmem, -⟩
  · rw [hid] at hy
    cases hy
    exact hst
  · exact absurd hmem (List.nodup_cons.mp hnodup).1

theorem Agreement.unchecked
    (h : Agreement cancels s)
    {id : TaskID}
    (hid : id ∈ s.scheduler.unchecked) :
    s.engine.stateOf id = some .pending ∨ cancels ∧ s.engine.stateOf id = some .cancelled := by
  have hheld : id ∈ s.scheduler.holds := by
    rw [SchedulerPc.holds_eq]
    exact List.mem_append_right _ hid
  have hnodup := h.custody.exclusive.nodup .scheduler
  change s.scheduler.holds.Nodup at hnodup
  rw [SchedulerPc.holds_eq] at hnodup
  rcases h.states .scheduler id hheld with ⟨y, hy, -⟩ | ⟨-, hst⟩
  · rw [hy] at hnodup
    exact absurd hid (List.nodup_cons.mp hnodup).1
  · exact hst

/-- The scheduler writes to tasks that have to run, and that it has before or after. -/
theorem Agreement.schedulerWrites
    (h : Agreement cancels s)
    (hok : s.Orderly (.scheduler now))
    {j : TaskID} {x : TaskState}
    (hw : SchedulerWrites s now j x) :
    s.engine.live j = true := by
  cases hw with
  | promote hpc hid =>
      have hheap : j ∈ s.engine.heap.inner :=
        (Engine.promoteReady_promoted s.engine now).perm.mem_iff.mp
          (List.mem_append_left _ hid)
      rcases h.states .heap j hheap with hst | ⟨-, hst⟩
      · rw [Engine.live, hst]
        rfl
      · have hlater := hok hpc j hheap hst
        have hdue := Engine.promoteReady_due hid
        exact absurd hdue (not_le.mpr hlater)
  | expire hpc =>
      rw [Engine.live, h.inHand (by rw [hpc]; rfl)]
      rfl
  | postpone hpc =>
      rw [Engine.live, h.inHand (by rw [hpc]; rfl)]
      rfl

theorem SchedulerStep.stable
    (hstep : SchedulerStep s now s')
    (h : Agreement cancels s)
    (hok : s.Orderly (.scheduler now))
    {j : TaskID}
    (hj : s.engine.live j = false) :
    s'.engine.stateOf j = s.engine.stateOf j := by
  rcases hstep.stateOf_cases j with hsame | ⟨x, hw, -⟩
  · exact hsame
  · rw [h.schedulerWrites hok hw] at hj
    cases hj

/-- The states that go with the tasks of the scheduler after its step. -/
theorem SchedulerStep.expected
    (hstep : SchedulerStep s now s')
    (h : Agreement cancels s)
    {a : TaskID}
    (ha : a ∈ s'.scheduler.holds) :
    s'.Allows cancels .scheduler a (s'.engine.stateOf a) := by
  have hnodup : s.scheduler.holds.Nodup := h.custody.exclusive.nodup .scheduler
  cases hstep with
  | promote hpc =>
      have hheap : a ∈ s.engine.heap.inner :=
        (Engine.promoteReady_promoted s.engine now).perm.mem_iff.mp
          (List.mem_append_left _ ha)
      exact Or.inr ⟨ha, Or.inl
        (stateOf_promoteReady ha (h.custody.registered (p := .heap) hheap))⟩
  | @skip id ready hpc hstate =>
      exact Or.inr ⟨ha, h.unchecked (by rw [hpc]; exact List.mem_cons_of_mem _ ha)⟩
  | @findExpired id ready hpc hstate =>
      have ha' : a ∈ s.scheduler.unchecked := by rw [hpc]; exact ha
      have hready := h.unchecked ha'
      rcases List.mem_cons.mp ha with rfl | hrest
      · refine Or.inl ⟨.pending, rfl, ?_⟩
        exact hready.resolve_right (fun hc => hstate hc.2)
      · exact Or.inr ⟨hrest, hready⟩
  | @findReady id ready hpc hstate =>
      have ha' : a ∈ s.scheduler.unchecked := by rw [hpc]; exact ha
      have hready := h.unchecked ha'
      rcases List.mem_cons.mp ha with rfl | hrest
      · refine Or.inl ⟨.pending, rfl, ?_⟩
        exact hready.resolve_right (fun hc => hstate hc.2)
      · exact Or.inr ⟨hrest, hready⟩
  | @expire id ready hpc =>
      rw [hpc] at hnodup
      have hne : a ≠ id := by
        rintro rfl
        exact (List.nodup_cons.mp hnodup).1 ha
      refine Or.inr ⟨ha, ?_⟩
      show (s.engine.updateTask id (Task.forceSetState · .expired)).stateOf a = _ ∨ _ ∧
        (s.engine.updateTask id (Task.forceSetState · .expired)).stateOf a = _
      rw [(s.engine.expire_sets id).of_ne hne]
      exact h.unchecked (by rw [hpc]; exact ha)
  | @enqueue id ready rb hpc henq =>
      exact Or.inr ⟨ha, h.unchecked (by rw [hpc]; exact ha)⟩
  | @findFull id ready hpc =>
      rcases List.mem_cons.mp ha with rfl | hrest
      · exact Or.inl ⟨.pending, rfl, h.inHand (by rw [hpc]; rfl)⟩
      · exact Or.inr ⟨hrest, h.unchecked (by rw [hpc]; exact hrest)⟩
  | stop hpc henq =>
      cases ha
  | @postpone id ready hpc =>
      rcases List.mem_cons.mp ha with rfl | hrest
      · have hreg : (s.engine.tasks.get a).isSome = true :=
          h.custody.registered (p := .scheduler) (by simp [holdings, hpc, SchedulerPc.holds])
        exact Or.inl ⟨.scheduled, rfl, (s.engine.postpone_sets a now).self hreg⟩
      · rw [hpc] at hnodup
        have hne : a ≠ id := by
          rintro rfl
          exact (List.nodup_cons.mp hnodup).1 hrest
        refine Or.inr ⟨hrest, ?_⟩
        show (s.engine.postpone id now).stateOf a = _ ∨ _ ∧
          (s.engine.postpone id now).stateOf a = _
        rw [(s.engine.postpone_sets id now).of_ne hne]
        exact h.unchecked (by rw [hpc]; exact hrest)
  | @repush id ready hpc =>
      exact Or.inr ⟨ha, h.unchecked (by rw [hpc]; exact ha)⟩

/-- What the scheduler's step brings to other places: the task in its hand. -/
theorem SchedulerStep.came
    (hstep : SchedulerStep s now s')
    {p : Place n m} {a : TaskID}
    (hp : p ≠ .scheduler)
    (ha : a ∈ s'.holdings p) :
    a ∈ s.holdings p ∨
      (p = .buffer ∧ s.scheduler.inHand = some (a, .pending) ∧
        s'.engine.stateOf a = s.engine.stateOf a) ∨
      (p = .heap ∧ s.scheduler.inHand = some (a, .scheduled) ∧
        s'.engine.stateOf a = s.engine.stateOf a) := by
  have hacted := hstep.acted
  cases p with
  | buffer =>
      cases hstep with
      | @enqueue id ready rb hpc henq =>
          change a ∈ rb.contents at ha
          rw [(RingBuffer.enqueue_done henq).1] at ha
          rcases List.mem_append.mp ha with hold | hnew
          · exact Or.inl hold
          · rw [List.mem_singleton.mp hnew]
            exact Or.inr (Or.inl ⟨rfl, by rw [hpc]; rfl, rfl⟩)
      | _ =>
          exact Or.inl ha
  | heap =>
      cases hstep with
      | promote hpc =>
          exact Or.inl ((Engine.promoteReady_promoted s.engine now).perm.mem_iff.mp
            (List.mem_append_right _ ha))
      | @repush id ready hpc =>
          rcases List.mem_cons.mp ((Engine.pushHeap_perm s.engine id).mem_iff.mp ha) with
            rfl | hold
          · exact Or.inr (Or.inr ⟨rfl, by rw [hpc]; rfl, rfl⟩)
          · exact Or.inl hold
      | _ =>
          exact Or.inl ha
  | scheduler =>
      exact absurd rfl hp
  | worker w =>
      left
      simpa only [holdings, hacted.workers w (by simp)] using ha
  | call c =>
      left
      simpa only [holdings, hacted.calls c (by simp)] using ha

theorem SchedulerWrites.held
    {j : TaskID} {x : TaskState}
    (hw : SchedulerWrites s now j x)
    (hstep : SchedulerStep s now s') :
    j ∈ s.scheduler.holds ∨ j ∈ s'.scheduler.holds := by
  cases hw with
  | promote hpc hid =>
      right
      cases hstep <;> simp_all [toScheduler, SchedulerPc.holds]
  | expire hpc =>
      left
      rw [hpc]
      exact List.mem_cons_self
  | postpone hpc =>
      left
      rw [hpc]
      exact List.mem_cons_self

theorem schedulerStep_states
    (h : Agreement cancels s)
    (hstep : SchedulerStep s now s') :
    Consistent s'.holdings s'.engine.stateOf (s'.Allows cancels) := by
  refine h.states.act h.custody.exclusive (schedulerStep_custody h.custody hstep).exclusive
    .scheduler (fun p hp => hstep.acted.allows hp) ?_ ?_ ?_
  · intro a ha ha'
    rcases hstep.stateOf_cases a with hsame | ⟨x, hw, -⟩
    · exact hsame
    · rcases hw.held hstep with hold | hnew
      · exact absurd hold ha
      · exact absurd hnew ha'
  · intro p hp a ha
    rcases hstep.came hp ha with hold | ⟨rfl, hhand, hsame⟩ | ⟨rfl, hhand, hsame⟩
    · exact Or.inl hold
    · exact Or.inr (Or.inl (hsame.trans (h.inHand hhand)))
    · exact Or.inr (Or.inl (hsame.trans (h.inHand hhand)))
  · intro a ha
    exact hstep.expected h ha

theorem schedulerStep_agreement
    (h : Agreement cancels s)
    (hok : s.Orderly (.scheduler now))
    (hstep : SchedulerStep s now s') :
    Agreement cancels s' := by
  have hacted := hstep.acted
  obtain ⟨-, -, hcancelled, hlate, -⟩ := hstep.history
  have hkept : ∀ id, s.engine.stateOf id = some .cancelled →
      s'.engine.stateOf id = some .cancelled := by
    intro id hid
    exact stateOf_of_stable (hstep.stable h hok) hid rfl
  refine ⟨schedulerStep_custody h.custody hstep, schedulerStep_states h hstep,
    ?_, ?_, ?_, ?_, hlate.trans h.prompt⟩
  · intro w id outcome hpc hrun
    rw [hacted.workers w (by simp)] at hpc
    rcases hstep.stateOf_cases id with hsame | ⟨x, hw, hx⟩
    · exact h.checked w id outcome hpc (hsame ▸ hrun)
    · rw [hrun] at hx
      cases hx
      cases hw
  · intro w id outcome
    rw [hacted.workers w (by simp)]
    exact h.unwritten w id outcome
  · intro c id hc
    rw [hacted.calls c (by simp)] at hc
    exact hkept id (h.marked c id hc)
  · intro id hid
    rw [hcancelled] at hid
    exact hkept id (h.cancelled id hid)

end Scheduler

section Call

variable {c : Fin m} {env : LogEnv}

/-- Only the end of a failed `Submit` touches the registry after the first step. -/
theorem CallStep.stateOf_cases
    (h : CallStep s c env s')
    (j : TaskID) :
    s'.engine.stateOf j = s.engine.stateOf j ∨
      (j ∈ (s.calls c).holds ∧ s'.engine.stateOf j = none) := by
  cases h with
  | @undo task hpc =>
      have hget := s.engine.get_unregister task j
      show (s.engine.unregister task).stateOf j = _ ∨ _ ∧
        (s.engine.unregister task).stateOf j = none
      unfold Engine.stateOf
      rw [hget]
      split_ifs with hj
      · exact Or.inr ⟨by simp [hpc, CallPc.holds, hj], rfl⟩
      · exact Or.inl rfl
  | _ =>
      exact Or.inl rfl

/-- A task with its `Submit` has to run. -/
theorem Agreement.submitted
    (h : Agreement cancels s)
    {id : TaskID}
    (hid : id ∈ (s.calls c).holds) :
    s.engine.live id = true := by
  obtain ⟨x, hx, hst⟩ := h.states (.call c) id hid
  rw [Engine.live, hst]
  exact CallPc.isLive_of_mem_expects hx

theorem CallStep.stable
    (hstep : CallStep s c env s')
    (h : Agreement cancels s)
    {j : TaskID}
    (hj : s.engine.live j = false) :
    s'.engine.stateOf j = s.engine.stateOf j := by
  rcases hstep.stateOf_cases j with hsame | ⟨hheld, -⟩
  · exact hsame
  · rw [h.submitted hheld] at hj
    cases hj

/-- The task of a `Submit` is in a state that goes with the next step. -/
theorem CallStep.expected
    (hstep : CallStep s c env s')
    (h : Agreement cancels s)
    {a : TaskID}
    (ha : a ∈ (s'.calls c).holds) :
    ∃ x ∈ (s'.calls c).expects, s'.engine.stateOf a = some x := by
  have hold : ∀ id ∈ (s.calls c).holds,
      ∃ x ∈ (s.calls c).expects, s.engine.stateOf id = some x :=
    fun id hid => h.states (.call c) id hid
  cases hstep <;> simp_all [toCall, report, CallPc.holds, CallPc.expects]

/-- What a client's step brings to other places: the task that it submits. -/
theorem CallStep.came
    (hstep : CallStep s c env s')
    {p : Place n m} {a : TaskID}
    (hp : p ≠ .call c)
    (ha : a ∈ s'.holdings p) :
    a ∈ s.holdings p ∨
      (p = .buffer ∧ s.calls c = .enqueueing a ∧
        s'.engine.stateOf a = s.engine.stateOf a) ∨
      (p = .heap ∧ s.calls c = .pushing a ∧ s'.engine.stateOf a = s.engine.stateOf a) := by
  have hacted := hstep.acted
  cases p with
  | buffer =>
      cases hstep with
      | @enqueue id rb hpc henq =>
          change a ∈ rb.contents at ha
          rw [(RingBuffer.enqueue_done henq).1] at ha
          rcases List.mem_append.mp ha with hold | hnew
          · exact Or.inl hold
          · rw [List.mem_singleton.mp hnew]
            exact Or.inr (Or.inl ⟨rfl, hpc, rfl⟩)
      | _ =>
          exact Or.inl ha
  | heap =>
      cases hstep with
      | @push id hpc =>
          rcases List.mem_cons.mp ((Engine.pushHeap_perm s.engine id).mem_iff.mp ha) with
            rfl | hold
          · exact Or.inr (Or.inr ⟨rfl, hpc, rfl⟩)
          · exact Or.inl hold
      | @remove id hpc =>
          exact Or.inl ((Engine.removeHeap_sublist s.engine id).subset ha)
      | _ =>
          exact Or.inl ha
  | scheduler =>
      left
      simpa only [holdings, hacted.scheduler (by simp)] using ha
  | worker w =>
      left
      simpa only [holdings, hacted.workers w (by simp)] using ha
  | call c' =>
      left
      simpa only [holdings, hacted.calls c' (Ne.symm hp)] using ha

theorem callStep_states
    (h : Agreement cancels s)
    (hstep : CallStep s c env s') :
    Consistent s'.holdings s'.engine.stateOf (s'.Allows cancels) := by
  refine h.states.act h.custody.exclusive (callStep_custody h.custody hstep).exclusive
    (.call c) (fun p hp => hstep.acted.allows hp) ?_ ?_ ?_
  · intro a ha _
    rcases hstep.stateOf_cases a with hsame | ⟨hheld, -⟩
    · exact hsame
    · exact absurd hheld ha
  · intro p hp a ha
    rcases hstep.came hp ha with hold | ⟨rfl, hpc, hsame⟩ | ⟨rfl, hpc, hsame⟩
    · exact Or.inl hold
    · right
      left
      have hst := h.states (.call c) a (by simp [holdings, hpc, CallPc.holds])
      simp only [Allows, hpc, CallPc.expects, List.mem_singleton, exists_eq_left] at hst
      exact hsame.trans hst
    · right
      left
      have hst := h.states (.call c) a (by simp [holdings, hpc, CallPc.holds])
      simp only [Allows, hpc, CallPc.expects, List.mem_singleton, exists_eq_left] at hst
      exact hsame.trans hst
  · intro a ha
    exact hstep.expected h ha

/-- A client that goes on with a `CancelTask` is the one that has marked the task. -/
theorem CallStep.marked
    (hstep : CallStep s c env s')
    {id : TaskID}
    (hid : (s'.calls c).cancels = some id) :
    (s.calls c).cancels = some id := by
  cases hstep with
  | @logCancel j hpc hok =>
      rw [hpc]
      simpa [toCall, report, CallPc.cancels] using hid
  | _ =>
      simp [toCall, CallPc.cancels] at hid

/-- A cancellation is complete for the task that was marked. -/
theorem CallStep.cancelled
    (hstep : CallStep s c env s')
    {id : TaskID}
    (hid : id ∈ s'.cancelled) :
    id ∈ s.cancelled ∨ (s.calls c).cancels = some id := by
  cases hstep with
  | @remove j hpc =>
      rcases List.mem_cons.mp hid with rfl | hold
      · right
        rw [hpc]
        rfl
      · exact Or.inl hold
  | _ =>
      exact Or.inl hid

theorem CallStep.late
    (hstep : CallStep s c env s') :
    s'.late = s.late := by
  cases hstep <;> rfl

theorem callStep_agreement
    (h : Agreement cancels s)
    (hstep : CallStep s c env s') :
    Agreement cancels s' := by
  have hacted := hstep.acted
  have hkept : ∀ id, s.engine.stateOf id = some .cancelled →
      s'.engine.stateOf id = some .cancelled := by
    intro id hid
    exact stateOf_of_stable (hstep.stable h) hid rfl
  refine ⟨callStep_custody h.custody hstep, callStep_states h hstep, ?_, ?_, ?_, ?_,
    hstep.late.trans h.prompt⟩
  · intro w id outcome hpc hrun
    rw [hacted.workers w (by simp)] at hpc
    rcases hstep.stateOf_cases id with hsame | ⟨-, hnone⟩
    · exact h.checked w id outcome hpc (hsame ▸ hrun)
    · rw [hrun] at hnone
      cases hnone
  · intro w id outcome
    rw [hacted.workers w (by simp)]
    exact h.unwritten w id outcome
  · intro c' id hc
    by_cases hcc : c' = c
    · subst hcc
      exact hkept id (h.marked c' id (hstep.marked hc))
    · rw [hacted.calls c' (by simpa using Ne.symm hcc)] at hc
      exact hkept id (h.marked c' id hc)
  · intro id hid
    rcases hstep.cancelled hid with hold | hself
    · exact hkept id (h.cancelled id hold)
    · exact hkept id (h.marked c id hself)

/-- A task with a new ID is registered as pending or scheduled. -/
theorem submitStep_agreement
    {task : Task} {generatedID : TaskID} {now : Time}
    (h : Agreement cancels s)
    (hstep : s.submitStep c task generatedID now = some s') :
    Agreement cancels s' := by
  have hcustody := submitStep_custody h.custody hstep
  rcases submitStep_cases hstep with rfl | ⟨hpc, -, hid, rfl⟩
  · exact h
  · have hstate := s.engine.prepare_state task generatedID now
    generalize s.engine.prepare task generatedID now = t at hid hcustody hstate
    obtain ⟨hnone, hfree⟩ := h.custody.fresh hid
    have hothers : ∀ j, j ≠ t.id → (s.engine.register t).stateOf j = s.engine.stateOf j :=
      fun j hj => s.engine.stateOf_register_of_ne hj
    have hself := s.engine.stateOf_register_self t
    have hkept : ∀ j x, s.engine.stateOf j = some x →
        (s.engine.register t).stateOf j = some x := by
      intro j x hx
      rw [hothers j, hx]
      rintro rfl
      rw [Engine.stateOf, hnone] at hx
      cases hx
    have hacted : Acted (.call c) s
        ({ s with issued := t.id :: s.issued }.toCall c (.registered t)
          (s.engine.register t)) := acted_call rfl rfl rfl rfl
    refine ⟨hcustody, ?_, ?_, h.unwritten, ?_, ?_, h.prompt⟩
    · refine h.states.act h.custody.exclusive hcustody.exclusive (.call c)
        (fun p hp => hacted.allows hp) ?_ ?_ ?_
      · intro a _ ha
        refine hothers a ?_
        rintro rfl
        exact ha (by simp [holdings, toCall, CallPc.holds])
      · intro p hp a ha
        left
        rwa [hacted.holdings hp (Or.inr rfl) (Or.inr rfl)] at ha
      · intro a ha
        rw [holdings_toCall_self] at ha
        rw [List.mem_singleton.mp ha]
        refine ⟨t.state, ?_, hself⟩
        rcases hstate with hs | hs <;> simp [hs, toCall, CallPc.expects]
    · intro w id outcome hw hrun
      by_cases hj : id = t.id
      · subst hj
        have hrun' := hself.symm.trans hrun
        rcases hstate with hs | hs <;> · rw [hs] at hrun'; cases hrun'
      · exact h.checked w id outcome hw ((hothers id hj) ▸ hrun)
    · intro c' id hc
      by_cases hcc : c' = c
      · subst hcc
        simp [toCall, CallPc.cancels] at hc
      · rw [hacted.calls c' (by simpa using Ne.symm hcc)] at hc
        exact hkept id _ (h.marked c' id hc)
    · intro id hmem
      exact hkept id _ (h.cancelled id hmem)

/-- The mark of `CancelTask`, in a queue or among the unchecked ready tasks. -/
theorem cancelStep_agreement
    {id : TaskID} {now : Time}
    (h : Agreement cancels s)
    (hcancels : cancels)
    (hok : s.Orderly (.cancel c id now))
    (hstep : s.cancelStep c id now = some s') :
    Agreement cancels s' := by
  have hcustody := cancelStep_custody h.custody hstep
  rcases cancelStep_cases hstep with rfl | ⟨hpc, t, hget, hcan, rfl⟩
  · exact h
  · have hsets := s.engine.cancelledAt_sets id now
    have hself : (s.engine.updateTask id (Engine.cancelledAt now)).stateOf id =
        some .cancelled := hsets.self (by rw [hget]; rfl)
    have hkept : ∀ j, s.engine.stateOf j = some .cancelled →
        (s.engine.updateTask id (Engine.cancelledAt now)).stateOf j = some .cancelled := by
      intro j hj
      rcases hsets.same_or j with hsame | ⟨-, hst⟩
      · exact hsame.trans hj
      · exact hst
    have hplace : id ∈ s.engine.heap.inner ∨ id ∈ s.engine.buffer.contents ∨
        id ∈ s.scheduler.unchecked :=
      hok (by rw [Engine.stateOf, hget]; exact hcan)
    have hacted : Acted (.call c) s (s.toCall c (.cancelling id)
        (s.engine.updateTask id (Engine.cancelledAt now))) := s.acted_toCall
    refine ⟨hcustody, ?_, ?_, h.unwritten, ?_, ?_, h.prompt⟩
    · intro p a ha
      have hp : p ≠ .call c := by
        rintro rfl
        rw [holdings_toCall_self] at ha
        cases ha
      rw [hacted.holdings hp (Or.inr rfl) (Or.inr rfl)] at ha
      rw [hacted.allows hp]
      by_cases ha_eq : a = id
      · subst ha_eq
        rcases hplace with hheap | hbuffer | hready
        · rw [h.custody.exclusive.unique (q := .heap) ha hheap]
          exact Or.inr ⟨hcancels, hself⟩
        · rw [h.custody.exclusive.unique (q := .buffer) ha hbuffer]
          exact Or.inr ⟨hcancels, hself⟩
        · have hheld : a ∈ s.holdings .scheduler := by
            show a ∈ s.scheduler.holds
            rw [SchedulerPc.holds_eq]
            exact List.mem_append_right _ hready
          rw [h.custody.exclusive.unique ha hheld]
          exact Or.inr ⟨hready, Or.inr ⟨hcancels, hself⟩⟩
      · have hsame := hsets.of_ne ha_eq
        show s.Allows cancels p a ((s.engine.updateTask id (Engine.cancelledAt now)).stateOf a)
        rw [hsame]
        exact h.states p a ha
    · intro w j outcome hw hrun
      rcases hsets.same_or j with hsame | ⟨-, hst⟩
      · exact h.checked w j outcome hw (hsame ▸ hrun)
      · cases hst.symm.trans hrun
    · intro c' j hc
      by_cases hcc : c' = c
      · subst hcc
        have hj : id = j := by simpa [toCall, CallPc.cancels] using hc
        rw [← hj]
        exact hself
      · rw [hacted.calls c' (by simpa using Ne.symm hcc)] at hc
        exact hkept j (h.marked c' j hc)
    · intro j hj
      exact hkept j (h.cancelled j hj)

end Call

theorem Unmoved.stateOf
    (h : Unmoved s s')
    (j : TaskID) :
    s'.engine.stateOf j = s.engine.stateOf j := by
  rw [Engine.stateOf, h.tasks, Engine.stateOf]

theorem Unmoved.agreement
    (hsame : Unmoved s s')
    (h : Agreement cancels s)
    (hcustody : Custody s') :
    Agreement cancels s' := by
  refine ⟨hcustody, ?_, ?_, ?_, ?_, ?_, hsame.late.trans h.prompt⟩
  · intro p a ha
    rw [hsame.holdings] at ha
    have hold := h.states p a ha
    rw [hsame.stateOf]
    cases p <;> simpa only [Allows, hsame.scheduler, hsame.workers, hsame.calls] using hold
  · intro w id outcome hw
    rw [hsame.workers] at hw
    rw [hsame.stateOf]
    exact h.checked w id outcome hw
  · intro w id outcome
    rw [hsame.workers]
    exact h.unwritten w id outcome
  · intro c id hc
    rw [hsame.calls] at hc
    rw [hsame.stateOf]
    exact h.marked c id hc
  · intro id hid
    rw [hsame.cancelled] at hid
    rw [hsame.stateOf]
    exact h.cancelled id hid

/-- An orderly step keeps the agreement. -/
theorem step_agreement
    (e : Event n m)
    (h : Agreement cancels s)
    (hcancels : e.isCancel = true → cancels)
    (hok : s.Orderly e)
    (hstep : s.step e = some s') :
    Agreement cancels s' := by
  cases e with
  | worker w env result delay =>
      exact workerStep_agreement h hok (workerStep_cases hstep)
  | scheduler now =>
      exact schedulerStep_agreement h hok (schedulerStep_cases hstep)
  | submit c task generatedID now =>
      exact submitStep_agreement h hstep
  | cancel c id now =>
      exact cancelStep_agreement h (hcancels rfl) hok hstep
  | call c env =>
      exact callStep_agreement h (callStep_cases hstep)
  | checkpoint order =>
      exact (checkpointStep_unmoved hstep).agreement h (checkpointStep_custody h.custody hstep)

/-- An orderly step leaves a registered task that does not have to run as it is. -/
theorem step_stable
    (e : Event n m)
    (h : Agreement cancels s)
    (hok : s.Orderly e)
    (hstep : s.step e = some s')
    {j : TaskID} {x : TaskState}
    (hj : s.engine.stateOf j = some x)
    (hx : x.isLive = false) :
    s'.engine.stateOf j = some x := by
  have hlive : s.engine.live j = false := by
    rw [Engine.live, hj]
    exact hx
  cases e with
  | worker w env result delay =>
      exact ((workerStep_cases hstep).stable h hlive).trans hj
  | scheduler now =>
      exact ((schedulerStep_cases hstep).stable h hok hlive).trans hj
  | submit c task generatedID now =>
      rcases submitStep_cases hstep with rfl | ⟨-, -, hid, rfl⟩
      · exact hj
      · have hnone := (h.custody.fresh hid).1
        have hne : j ≠ (s.engine.prepare task generatedID now).id := by
          rintro rfl
          rw [Engine.stateOf, hnone] at hj
          cases hj
        exact (s.engine.stateOf_register_of_ne hne).trans hj
  | cancel c id now =>
      rcases cancelStep_cases hstep with rfl | ⟨-, t, hget, hcan, rfl⟩
      · exact hj
      · have hne : j ≠ id := by
          rintro rfl
          rw [Engine.stateOf, hget] at hj
          cases hj
          cases hst : t.state <;> simp_all [Engine.cancellable, TaskState.isLive]
        exact ((s.engine.cancelledAt_sets id now).of_ne hne).trans hj
  | call c env =>
      exact ((callStep_cases hstep).stable h hlive).trans hj
  | checkpoint order =>
      exact ((checkpointStep_unmoved hstep).stateOf j).trans hj

/-- The places agree with the states when the process starts after `Recover`. -/
theorem start_agreement
    {cfg : Engine.Config} {d : Engine.Disk} {order : List TaskID} {e : Engine}
    (h : Engine.Recovered cfg d order e) :
    Agreement cancels (start e d order : World n m) := by
  have hcustody : Custody (start e d order : World n m) := start_custody h
  obtain ⟨loaded, last, hload, horder, hall⟩ := h.restarted
  refine ⟨hcustody, ?_, ?_, ?_, ?_, ?_, rfl⟩
  · intro p id hid
    cases p with
    | buffer =>
        exact Or.inl (hall.pending hid)
    | heap =>
        exact Or.inl (hall.scheduled hid)
    | _ =>
        cases hid
  · intro w id outcome hpc
    cases hpc
  · intro w id outcome hpc
    cases hpc
  · intro c id hc
    cases hc
  · intro id hid
    cases hid

end World
end TaskQueue
