import Mathlib.Tactic
import TaskQueue.Concurrent.Timing

/-!
# The lifecycle of a task as it is

`CanTransitionTo` gives the transitions of a task that `SetState` would accept, but the engine
writes states with `ForceSetState`.  This module finds the transitions that the goroutines
really make, in all their interleavings: those of `TaskState.becomes`, and each of them.

The invariant is `Standing`: the holder of a task still says in which state it is, but a task
that waits may have been cancelled there, and any task may have been marked as failed by a
worker that had it before.
-/

namespace TaskQueue

open Lib (Run Consistent Moves)
open Queue
open Wal (LogEnv)
open Engine (HandlerError)

/-- What a task in the given state can become by one step of one goroutine. -/
def Queue.TaskState.becomes : TaskState → List TaskState
  | .pending => [.running, .scheduled, .cancelled, .expired, .failed]
  | .scheduled => [.pending, .cancelled, .failed]
  | .running => [.completed, .scheduled, .dead, .failed]
  | .completed => [.failed]
  | .failed => [.pending, .scheduled, .running, .completed, .dead, .expired]
  | .retrying => []
  | .dead => [.failed]
  | .cancelled => [.pending, .scheduled, .running, .expired, .failed]
  | .expired => [.failed]

/-- Those of them that `SetState` would refuse. -/
def Queue.TaskState.forced (a : TaskState) : List TaskState :=
  a.becomes.filter fun b => !a.canTransitionTo b

/-- `SetState` knows no way out of a final state. -/
theorem Queue.TaskState.forced_of_isFinal
    {a : TaskState}
    (h : a.isFinal = true) :
    a.forced = a.becomes := by
  refine List.filter_eq_self.mpr fun b _ => ?_
  rw [canTransitionTo_of_isFinal h, Bool.not_false]

/-- The states of a task that was left in state `x` to wait. -/
def waiting (x : TaskState) : List TaskState :=
  [x, .cancelled, .failed]

/-- The states that the task of a worker can be in. -/
def WorkerPc.admits : WorkerPc → List TaskState
  | .dequeued _ => waiting .pending
  | .marked _ => [.running, .failed]
  | .starting _ => [.running, .failed]
  | .executing _ => [.running, .failed]
  | .returned _ _ => [.running, .failed]
  | .completing _ => [.completed, .failed]
  | .dying _ _ => [.dead, .failed]
  | .burying _ _ => [.dead, .failed]
  | .retrying _ _ => waiting .scheduled
  | .repushing _ _ => waiting .scheduled
  | _ => []

/-- The states that a task of the scheduler can be in. -/
def SchedulerPc.admits : SchedulerPc → TaskID → List TaskState
  | .repushing id _, j => if j = id then waiting .scheduled else waiting .pending
  | _, _ => waiting .pending

/-- The states that the task of a `Submit` can be in. -/
def CallPc.admits : CallPc → List TaskState
  | .registered _ => [.pending, .scheduled, .cancelled, .failed]
  | .marshalled _ _ => [.pending, .scheduled, .cancelled, .failed]
  | .undoing _ => [.pending, .scheduled, .cancelled, .failed]
  | .logged _ => [.pending, .scheduled, .cancelled, .failed]
  | .pushing _ => waiting .scheduled
  | .enqueueing _ => waiting .pending
  | _ => []

/-- States among which a task stays when it is marked as failed or is cancelled. -/
def Closed (xs : List TaskState) : Prop :=
  ∀ x ∈ xs, .failed ∈ xs ∧ (Engine.cancellable x = true → .cancelled ∈ xs) ∧ x ≠ .retrying

instance (xs : List TaskState) : Decidable (Closed xs) :=
  inferInstanceAs (Decidable (∀ x ∈ xs,
    .failed ∈ xs ∧ (Engine.cancellable x = true → .cancelled ∈ xs) ∧ x ≠ .retrying))

theorem WorkerPc.admits_closed
    (pc : WorkerPc) :
    Closed pc.admits := by
  cases pc <;> simp only [WorkerPc.admits] <;> decide

theorem SchedulerPc.admits_closed
    (pc : SchedulerPc) (id : TaskID) :
    Closed (pc.admits id) := by
  cases pc with
  | repushing j ready =>
      simp only [SchedulerPc.admits]
      split_ifs <;> decide
  | _ =>
      exact (by decide : Closed (waiting .pending))

theorem CallPc.admits_closed
    (pc : CallPc) :
    Closed pc.admits := by
  cases pc <;> simp only [CallPc.admits] <;> decide

namespace World

variable {n m : Nat}

/-- The states that a task can have at a place. -/
def admits (s : World n m) : Place n m → TaskID → List TaskState
  | .buffer, _ => waiting .pending
  | .heap, _ => waiting .scheduled
  | .scheduler, id => s.scheduler.admits id
  | .worker w, _ => (s.workers w).admits
  | .call c, _ => (s.calls c).admits

/-- The task is registered, in one of the given states. -/
def Among (xs : List TaskState) (st : Option TaskState) : Prop :=
  ∃ x ∈ xs, st = some x

/--
What every step keeps.  Nobody has a task any more that a worker has completed, so that the
check of this worker never finds it running.
-/
structure Standing (s : World n m) : Prop where
  custody : Custody s
  states : Consistent s.holdings s.engine.stateOf fun p id => Among (s.admits p id)
  completed : ∀ w id, s.workers w = .checking id none →
    id ∈ s.issued ∧ (∀ p, id ∉ s.holdings p) ∧ s.engine.stateOf id ≠ some .running
  unwritten : ∀ w id, s.workers w ≠ .writing id none
  unretried : ∀ w id, (s.workers w).checks = some id → s.engine.stateOf id ≠ some .retrying

variable {s s' : World n m}

theorem admits_closed
    (s : World n m) (p : Place n m) (id : TaskID) :
    Closed (s.admits p id) := by
  cases p with
  | buffer =>
      exact (by decide : Closed (waiting .pending))
  | heap =>
      exact (by decide : Closed (waiting .scheduled))
  | scheduler =>
      exact s.scheduler.admits_closed id
  | worker w =>
      exact (s.workers w).admits_closed
  | call c =>
      exact (s.calls c).admits_closed

/-- What a place admits depends on the thread of that place only. -/
theorem Acted.admits
    {p q : Place n m}
    (h : Acted q s s')
    (hp : p ≠ q) :
    s'.admits p = s.admits p := by
  funext id
  cases p with
  | buffer =>
      rfl
  | heap =>
      rfl
  | scheduler =>
      simp only [World.admits, h.scheduler (Ne.symm hp)]
  | worker w =>
      simp only [World.admits, h.workers w (Ne.symm hp)]
  | call c =>
      simp only [World.admits, h.calls c (Ne.symm hp)]

/-- The state of a task that somebody has. -/
theorem Standing.admitted
    (h : Standing s)
    {p : Place n m} {id : TaskID} {x : TaskState}
    (hid : id ∈ s.holdings p)
    (hx : s.engine.stateOf id = some x) :
    x ∈ s.admits p id := by
  obtain ⟨y, hy, hst⟩ := h.states p id hid
  cases hx.symm.trans hst
  exact hy

/-- A task that a worker is to check, or still has, is not waiting for a retry. -/
theorem Standing.ne_retrying
    (h : Standing s)
    {p : Place n m} {id : TaskID}
    (hid : id ∈ s.holdings p) :
    s.engine.stateOf id ≠ some .retrying := by
  intro hx
  exact (s.admits_closed p id _ (h.admitted hid hx)).2.2 rfl

section Worker

variable {w : Fin n} {env : LogEnv}

/-- But for the write after its check, a worker writes to the task it holds. -/
theorem WorkerStep.stateOf_of_notMem
    (hstep : WorkerStep s w env s')
    (hnot : ∀ id outcome, s.workers w ≠ .writing id outcome)
    {j : TaskID}
    (hj : j ∉ (s.workers w).holds) :
    s'.engine.stateOf j = s.engine.stateOf j := by
  rcases hstep.stateOf_cases j with hsame | ⟨x, hw, -⟩
  · exact hsame
  · exact absurd (hw.expected hnot).1 hj

/-- The task that a worker holds after its step is in a state that goes with it. -/
theorem WorkerStep.admitted
    (hstep : WorkerStep s w env s')
    (h : Standing s)
    {a : TaskID}
    (ha : a ∈ (s'.workers w).holds) :
    Among (s'.workers w).admits (s'.engine.stateOf a) := by
  have hreg : ∀ id ∈ (s.workers w).holds, (s.engine.tasks.get id).isSome = true :=
    fun id hid => h.custody.registered (p := .worker w) hid
  have hold : ∀ id ∈ (s.workers w).holds, Among (s.workers w).admits (s.engine.stateOf id) :=
    fun id hid => h.states (.worker w) id hid
  cases hstep with
  | @dequeue id rb hpc hdeq =>
      simp only [toWorker, Function.update_self] at ha ⊢
      rw [List.mem_singleton.mp ha]
      refine h.states .buffer id ?_
      show id ∈ s.engine.buffer.contents
      rw [(RingBuffer.dequeue_done hdeq).1]
      exact List.mem_cons_self
  | @mark id hpc =>
      simp only [toWorker, Function.update_self] at ha ⊢
      rw [List.mem_singleton.mp ha]
      exact ⟨.running, List.mem_cons_self,
        (s.engine.markRunning_sets id env.now).self (hreg id (by simp [hpc, WorkerPc.holds]))⟩
  | @wrap id hpc =>
      simp only [toWorker, Function.update_self] at ha ⊢
      rw [List.mem_singleton.mp ha]
      exact ⟨.running, List.mem_cons_self,
        (s.engine.markRunning_sets id env.now).self (hreg id (by simp [hpc, WorkerPc.holds]))⟩
  | @succeed id hpc =>
      simp only [toWorker, Function.update_self] at ha ⊢
      rw [List.mem_singleton.mp ha]
      exact ⟨.completed, List.mem_cons_self,
        (s.engine.markCompleted_sets id env.now).self
          (hreg id (by simp [hpc, WorkerPc.holds]))⟩
  | @die id err hpc hfinal =>
      simp only [toWorker, Function.update_self] at ha ⊢
      rw [List.mem_singleton.mp ha]
      exact ⟨.dead, List.mem_cons_self,
        (s.engine.markDead_sets id err env.now).self (hreg id (by simp [hpc, WorkerPc.holds]))⟩
  | @retry id err nextAt hpc hfinal =>
      simp only [toWorker, Function.update_self] at ha ⊢
      rw [List.mem_singleton.mp ha]
      exact ⟨.scheduled, List.mem_cons_self,
        (s.engine.markRetry_sets id err nextAt).self (hreg id (by simp [hpc, WorkerPc.holds]))⟩
  | _ =>
      simp_all [toWorker, handlerStarts, report, WorkerPc.holds, WorkerPc.admits]

theorem WorkerStep.admits
    (hstep : WorkerStep s w env s')
    (h : Standing s)
    (hnot : ∀ id outcome, s.workers w ≠ .writing id outcome) :
    Consistent s'.holdings s'.engine.stateOf fun p id => Among (s'.admits p id) := by
  refine h.states.act h.custody.exclusive (workerStep_custody h.custody hstep).exclusive
    (.worker w) ?_ ?_ ?_ ?_
  · intro p hp
    rw [hstep.acted.admits hp]
  · intro a ha _
    exact hstep.stateOf_of_notMem hnot ha
  · intro p hp a ha
    rcases hstep.came hp ha with hold | ⟨rfl, err, hpc⟩
    · exact Or.inl hold
    · right
      have hst := h.states (.worker w) a (by simp [holdings, hpc, WorkerPc.holds])
      simp only [World.admits, hpc] at hst
      rcases hstep.stateOf_cases a with hsame | ⟨x, hw, -⟩
      · rw [hsame]
        exact hst
      · rw [hpc] at hw
        cases hw
  · intro a ha
    exact hstep.admitted h ha

/-- The write after the check, to a task that anybody may have by now. -/
theorem poolWrite_admits
    (h : Standing s)
    (w : Fin n) (id : TaskID) (err : HandlerError) (now : Time) :
    Consistent (s.toWorker w .idle (s.engine.poolWrite id (some err) now)).holdings
      (s.engine.poolWrite id (some err) now).stateOf
      fun p j =>
        Among ((s.toWorker w .idle (s.engine.poolWrite id (some err) now)).admits p j) := by
  have hsets := s.engine.poolWrite_some_sets id err now
  have hacted : Acted (.worker w) s
      (s.toWorker w .idle (s.engine.poolWrite id (some err) now)) := s.acted_toWorker
  intro p a ha
  have hp : p ≠ .worker w := by
    rintro rfl
    rw [holdings_toWorker_self] at ha
    cases ha
  rw [hacted.holdings hp (Or.inr rfl) (Or.inr rfl)] at ha
  show Among ((s.toWorker w .idle (s.engine.poolWrite id (some err) now)).admits p a) _
  rw [hacted.admits hp]
  obtain ⟨x, hx, hst⟩ := h.states p a ha
  rcases hsets.same_or a with hsame | ⟨-, hfailed⟩
  · exact ⟨x, hx, hsame.trans hst⟩
  · exact ⟨.failed, (s.admits_closed p a x hx).1, hfailed⟩

/-- A worker has completed a task, and goes on to its check. -/
theorem WorkerStep.completes
    (hstep : WorkerStep s w env s')
    (h : Standing s)
    {id : TaskID}
    (hpc' : s'.workers w = .checking id none) :
    id ∈ s'.issued ∧ (∀ p, id ∉ s'.holdings p) ∧ s'.engine.stateOf id ≠ some .running := by
  have hacted := hstep.acted
  cases hstep with
  | @logComplete j hpc =>
      have hj : j = id := by simpa [toWorker, report] using hpc'
      subst hj
      have hheld : j ∈ s.holdings (.worker w) := by simp [holdings, hpc, WorkerPc.holds]
      refine ⟨h.custody.mem_issued hheld, ?_, ?_⟩
      · intro p hp
        by_cases hpw : p = .worker w
        · subst hpw
          simp [holdings, toWorker, report, WorkerPc.holds] at hp
        · rw [hacted.holdings hpw (Or.inr rfl) (Or.inr rfl)] at hp
          exact h.custody.exclusive.elsewhere hheld hpw hp
      · intro hrun
        have hmem := h.admitted hheld hrun
        simp [World.admits, hpc, WorkerPc.admits] at hmem
  | _ =>
      simp [toWorker, handlerStarts, report] at hpc'

/-- Only a worker that holds a task marks it as running, and no worker marks a retry. -/
theorem WorkerStep.written
    (hstep : WorkerStep s w env s')
    {j : TaskID} :
    (s'.engine.stateOf j = some .running → j ∉ (s.workers w).holds →
        s.engine.stateOf j = some .running) ∧
      (s'.engine.stateOf j = some .retrying → s.engine.stateOf j = some .retrying) := by
  rcases hstep.stateOf_cases j with hsame | ⟨x, hw, hx⟩
  · rw [hsame]
    exact ⟨fun hrun _ => hrun, id⟩
  · rw [hx]
    generalize s.workers w = pc at hw
    cases hw <;> simp [WorkerPc.holds]

theorem workerStep_standing
    (h : Standing s)
    (hstep : WorkerStep s w env s') :
    Standing s' := by
  have hacted := hstep.acted
  have hmoves := hstep.moves
  refine ⟨workerStep_custody h.custody hstep, ?_, ?_, ?_, ?_⟩
  · by_cases hwrite : ∃ id outcome, s.workers w = .writing id outcome
    · obtain ⟨id, outcome, hpc⟩ := hwrite
      cases hstep with
      | @write j result hpc' =>
          cases result with
          | none =>
              exact absurd hpc' (h.unwritten w j)
          | some err =>
              exact poolWrite_admits h w j err env.now
      | _ =>
          simp_all
    · exact hstep.admits h fun id outcome hpc => hwrite ⟨id, outcome, hpc⟩
  · intro w' id hpc
    by_cases hw : w' = w
    · subst hw
      exact hstep.completes h hpc
    · rw [hacted.workers w' (by simpa using Ne.symm hw)] at hpc
      obtain ⟨hissued, hfree, hrun⟩ := h.completed w' id hpc
      refine ⟨hstep.history.1 ▸ hissued, ?_, ?_⟩
      · intro p hp
        obtain ⟨q, hq⟩ := hmoves.origin hp
        exact hfree q hq
      · intro hrun'
        exact hrun (hstep.written.1 hrun' (hfree (.worker w)))
  · intro w' id hpc
    by_cases hw : w' = w
    · subst hw
      cases hstep with
      | @findRunning j result hpc' hstate =>
          have hj : j = id ∧ result = none := by simpa [toWorker] using hpc
          rw [hj.2] at hpc'
          exact (h.completed w' j hpc').2.2 hstate
      | _ =>
          simp [toWorker, handlerStarts, report] at hpc
    · rw [hacted.workers w' (by simpa using Ne.symm hw)] at hpc
      exact h.unwritten w' id hpc
  · intro w' id hid hretry
    have hwas := hstep.written.2 hretry
    by_cases hw : w' = w
    · subst hw
      rcases hstep.checks_origin hid with hheld | hold
      · exact h.ne_retrying (p := .worker w') hheld hwas
      · exact h.unretried w' id hold hwas
    · rw [hacted.workers w' (by simpa using Ne.symm hw)] at hid
      exact h.unretried w' id hid hwas

end Worker

section Scheduler

variable {now : Time}

/-- The ready task that the scheduler deals with was left in the state that goes with it. -/
theorem Standing.inHand
    (h : Standing s)
    {id : TaskID} {x : TaskState}
    (hid : s.scheduler.inHand = some (id, x)) :
    Among (waiting x) (s.engine.stateOf id) := by
  have hheld : id ∈ s.scheduler.holds := by
    rw [SchedulerPc.holds_eq, hid]
    exact List.mem_cons_self
  have hadmits : s.scheduler.admits id = waiting x := by
    generalize s.scheduler = pc at hid
    cases pc <;> simp_all [SchedulerPc.inHand, SchedulerPc.admits]
  rw [← hadmits]
  exact h.states .scheduler id hheld

/-- The tasks of the scheduler after its step are in states that go with them. -/
theorem SchedulerStep.admitted
    (hstep : SchedulerStep s now s')
    (h : Standing s)
    {a : TaskID}
    (ha : a ∈ s'.scheduler.holds) :
    Among (s'.scheduler.admits a) (s'.engine.stateOf a) := by
  have hnodup : s.scheduler.holds.Nodup := h.custody.exclusive.nodup .scheduler
  have hold : ∀ id ∈ s.scheduler.holds, Among (s.scheduler.admits id) (s.engine.stateOf id) :=
    fun id hid => h.states .scheduler id hid
  cases hstep with
  | promote hpc =>
      have hheap : a ∈ s.engine.heap.inner :=
        (Engine.promoteReady_promoted s.engine now).perm.mem_iff.mp
          (List.mem_append_left _ ha)
      exact ⟨.pending, List.mem_cons_self,
        stateOf_promoteReady ha (h.custody.registered (p := .heap) hheap)⟩
  | skip hpc hstate =>
      have ha' := hold a (by rw [hpc]; exact List.mem_cons_of_mem _ ha)
      rwa [hpc] at ha'
  | findExpired hpc hstate =>
      have ha' := hold a (by rw [hpc]; exact ha)
      rwa [hpc] at ha'
  | findReady hpc hstate =>
      have ha' := hold a (by rw [hpc]; exact ha)
      rwa [hpc] at ha'
  | @expire id ready hpc =>
      have ha' := hold a (by rw [hpc]; exact List.mem_cons_of_mem _ ha)
      rw [hpc] at ha' hnodup
      have hne : a ≠ id := by
        rintro rfl
        exact (List.nodup_cons.mp hnodup).1 ha
      show Among _ ((s.engine.updateTask id (Task.forceSetState · .expired)).stateOf a)
      rw [(s.engine.expire_sets id).of_ne hne]
      exact ha'
  | enqueue hpc henq =>
      have ha' := hold a (by rw [hpc]; exact List.mem_cons_of_mem _ ha)
      rwa [hpc] at ha'
  | findFull hpc =>
      have ha' := hold a (by rw [hpc]; exact ha)
      rwa [hpc] at ha'
  | stop hpc henq =>
      cases ha
  | @postpone id ready hpc =>
      have hheld : a ∈ s.scheduler.holds := by rw [hpc]; exact ha
      show Among (if a = id then waiting .scheduled else waiting .pending)
        ((s.engine.postpone id now).stateOf a)
      split_ifs with hself
      · subst hself
        exact ⟨.scheduled, List.mem_cons_self,
          (s.engine.postpone_sets a now).self (h.custody.registered (p := .scheduler) hheld)⟩
      · rw [(s.engine.postpone_sets id now).of_ne hself]
        have ha' := hold a hheld
        rwa [hpc] at ha'
  | @repush id ready hpc =>
      have ha' := hold a (by rw [hpc]; exact List.mem_cons_of_mem _ ha)
      rw [hpc] at ha' hnodup
      have hne : a ≠ id := by
        rintro rfl
        exact (List.nodup_cons.mp hnodup).1 ha
      simp only [SchedulerPc.admits, if_neg hne] at ha'
      exact ha'

/-- The states that the scheduler writes are not those of a running task or of a retry. -/
theorem SchedulerStep.written
    (hstep : SchedulerStep s now s')
    {j : TaskID} :
    (s'.engine.stateOf j = some .running → s.engine.stateOf j = some .running) ∧
      (s'.engine.stateOf j = some .retrying → s.engine.stateOf j = some .retrying) := by
  rcases hstep.stateOf_cases j with hsame | ⟨x, hw, hx⟩
  · rw [hsame]
    exact ⟨id, id⟩
  · rw [hx]
    cases hw <;> simp

theorem SchedulerStep.admits
    (hstep : SchedulerStep s now s')
    (h : Standing s) :
    Consistent s'.holdings s'.engine.stateOf fun p id => Among (s'.admits p id) := by
  refine h.states.act h.custody.exclusive (schedulerStep_custody h.custody hstep).exclusive
    .scheduler ?_ ?_ ?_ ?_
  · intro p hp
    rw [hstep.acted.admits hp]
  · intro a ha ha'
    rcases hstep.stateOf_cases a with hsame | ⟨x, hw, -⟩
    · exact hsame
    · rcases hw.held hstep with hold | hnew
      · exact absurd hold ha
      · exact absurd hnew ha'
  · intro p hp a ha
    rcases hstep.came hp ha with hold | ⟨rfl, hhand, hsame⟩ | ⟨rfl, hhand, hsame⟩
    · exact Or.inl hold
    · right
      rw [hsame]
      exact h.inHand hhand
    · right
      rw [hsame]
      exact h.inHand hhand
  · intro a ha
    exact hstep.admitted h ha

theorem schedulerStep_standing
    (h : Standing s)
    (hstep : SchedulerStep s now s') :
    Standing s' := by
  have hworkers : s'.workers = s.workers := by
    funext w
    exact hstep.acted.workers w (by simp)
  refine ⟨schedulerStep_custody h.custody hstep, hstep.admits h, ?_, ?_, ?_⟩
  · intro w id hpc
    rw [hworkers] at hpc
    obtain ⟨hissued, hfree, hrun⟩ := h.completed w id hpc
    refine ⟨hstep.history.1 ▸ hissued, ?_, fun hrun' => hrun (hstep.written.1 hrun')⟩
    intro p hp
    obtain ⟨q, hq⟩ := hstep.moves.origin hp
    exact hfree q hq
  · rw [hworkers]
    exact h.unwritten
  · intro w id hid hretry
    rw [hworkers] at hid
    exact h.unretried w id hid (hstep.written.2 hretry)

end Scheduler

section Call

variable {c : Fin m} {env : LogEnv}

theorem CallStep.admitted
    (hstep : CallStep s c env s')
    (h : Standing s)
    {a : TaskID}
    (ha : a ∈ (s'.calls c).holds) :
    Among (s'.calls c).admits (s'.engine.stateOf a) := by
  have hold : ∀ id ∈ (s.calls c).holds, Among (s.calls c).admits (s.engine.stateOf id) :=
    fun id hid => h.states (.call c) id hid
  cases hstep with
  | @toHeap id hpc hstate =>
      simp only [toCall, Function.update_self] at ha ⊢
      rw [List.mem_singleton.mp ha]
      exact ⟨.scheduled, List.mem_cons_self, hstate⟩
  | @toBuffer id hpc hstate =>
      simp only [toCall, Function.update_self] at ha ⊢
      rw [List.mem_singleton.mp ha]
      obtain ⟨x, hx, hst⟩ := hold id (by simp [hpc, CallPc.holds])
      refine ⟨x, ?_, hst⟩
      rw [hst] at hstate
      simp_all [CallPc.admits, waiting]
  | _ =>
      simp_all [toCall, report, CallPc.holds, CallPc.admits]

theorem CallStep.admits
    (hstep : CallStep s c env s')
    (h : Standing s) :
    Consistent s'.holdings s'.engine.stateOf fun p id => Among (s'.admits p id) := by
  refine h.states.act h.custody.exclusive (callStep_custody h.custody hstep).exclusive
    (.call c) ?_ ?_ ?_ ?_
  · intro p hp
    rw [hstep.acted.admits hp]
  · intro a ha _
    rcases hstep.stateOf_cases a with hsame | ⟨hheld, -⟩
    · exact hsame
    · exact absurd hheld ha
  · intro p hp a ha
    rcases hstep.came hp ha with hold | ⟨rfl, hpc, hsame⟩ | ⟨rfl, hpc, hsame⟩
    · exact Or.inl hold
    · right
      have hst := h.states (.call c) a (by simp [holdings, hpc, CallPc.holds])
      simp only [World.admits, hpc] at hst
      rw [hsame]
      exact hst
    · right
      have hst := h.states (.call c) a (by simp [holdings, hpc, CallPc.holds])
      simp only [World.admits, hpc] at hst
      rw [hsame]
      exact hst
  · intro a ha
    exact hstep.admitted h ha

theorem callStep_standing
    (h : Standing s)
    (hstep : CallStep s c env s') :
    Standing s' := by
  have hworkers : s'.workers = s.workers := by
    funext w
    exact hstep.acted.workers w (by simp)
  have hwritten : ∀ id x, s'.engine.stateOf id = some x → s.engine.stateOf id = some x := by
    intro id x hx
    rcases hstep.stateOf_cases id with hsame | ⟨-, hnone⟩
    · exact hsame ▸ hx
    · cases hx.symm.trans hnone
  refine ⟨callStep_custody h.custody hstep, hstep.admits h, ?_, ?_, ?_⟩
  · intro w id hpc
    rw [hworkers] at hpc
    obtain ⟨hissued, hfree, hrun⟩ := h.completed w id hpc
    refine ⟨hstep.issued ▸ hissued, ?_, fun hrun' => hrun (hwritten id _ hrun')⟩
    intro p hp
    obtain ⟨q, hq⟩ := hstep.moves.origin hp
    exact hfree q hq
  · rw [hworkers]
    exact h.unwritten
  · intro w id hid hretry
    rw [hworkers] at hid
    exact h.unretried w id hid (hwritten id _ hretry)

theorem submitStep_standing
    {task : Task} {generatedID : TaskID} {now : Time}
    (h : Standing s)
    (hstep : s.submitStep c task generatedID now = some s') :
    Standing s' := by
  have hcustody := submitStep_custody h.custody hstep
  rcases submitStep_registers hstep with ⟨rfl, -⟩ | hreg
  · exact h
  · have hstate := s.engine.prepare_state task generatedID now
    generalize s.engine.prepare task generatedID now = t at hreg hstate
    have hworkers : s'.workers = s.workers := by
      funext w
      exact hreg.acted.workers w (by simp)
    have hothers : ∀ j, j ≠ t.id → s'.engine.stateOf j = s.engine.stateOf j := by
      intro j hj
      rw [hreg.engine]
      exact s.engine.stateOf_register_of_ne hj
    have hself : s'.engine.stateOf t.id = some t.state := by
      rw [hreg.engine]
      exact s.engine.stateOf_register_self t
    have hnew : ∀ p, p ≠ .call c → t.id ∉ s'.holdings p := by
      intro p hp
      rw [hreg.rest p hp]
      exact (h.custody.fresh hreg.fresh).2 p
    refine ⟨hcustody, ?_, ?_, ?_, ?_⟩
    · intro p a ha
      by_cases hp : p = .call c
      · subst hp
        have ha' : a ∈ (s'.calls c).holds := ha
        rw [hreg.call] at ha'
        rw [List.mem_singleton.mp ha', hself]
        refine ⟨t.state, ?_, rfl⟩
        simp only [World.admits, hreg.call, CallPc.admits]
        rcases hstate with hs | hs <;> simp [hs]
      · have hne : a ≠ t.id := by
          rintro rfl
          exact hnew p hp ha
        rw [hreg.rest p hp] at ha
        rw [hothers a hne, hreg.acted.admits hp]
        exact h.states p a ha
    · intro w id hpc
      rw [hworkers] at hpc
      obtain ⟨hissued, hfree, hrun⟩ := h.completed w id hpc
      have hne : id ≠ t.id := by
        rintro rfl
        exact hreg.fresh hissued
      refine ⟨hreg.issued ▸ List.mem_cons_of_mem _ hissued, ?_, hothers id hne ▸ hrun⟩
      intro p hp
      by_cases hpc' : p = .call c
      · subst hpc'
        have hp' : id ∈ (s'.calls c).holds := hp
        rw [hreg.call] at hp'
        exact hne (List.mem_singleton.mp hp')
      · rw [hreg.rest p hpc'] at hp
        exact hfree p hp
    · rw [hworkers]
      exact h.unwritten
    · intro w id hid hretry
      rw [hworkers] at hid
      by_cases hj : id = t.id
      · subst hj
        rw [hself] at hretry
        rcases hstate with hs | hs <;> rw [hs] at hretry <;> cases hretry
      · exact h.unretried w id hid (hothers id hj ▸ hretry)

theorem cancelStep_standing
    {id : TaskID} {now : Time}
    (h : Standing s)
    (hstep : s.cancelStep c id now = some s') :
    Standing s' := by
  have hcustody := cancelStep_custody h.custody hstep
  rcases cancelStep_cases hstep with rfl | ⟨hpc, t, hget, hcan, rfl⟩
  · exact h
  · have hsets := s.engine.cancelledAt_sets id now
    have hacted : Acted (.call c) s (s.toCall c (.cancelling id)
        (s.engine.updateTask id (Engine.cancelledAt now))) := s.acted_toCall
    have hheld : ∀ p j, j ∈ (s.toCall c (.cancelling id)
        (s.engine.updateTask id (Engine.cancelledAt now))).holdings p →
          p ≠ .call c ∧ j ∈ s.holdings p := by
      intro p j hj
      have hp : p ≠ .call c := by
        rintro rfl
        rw [holdings_toCall_self] at hj
        cases hj
      rw [hacted.holdings hp (Or.inr rfl) (Or.inr rfl)] at hj
      exact ⟨hp, hj⟩
    have hwritten : ∀ j x, x ≠ .cancelled →
        (s.engine.updateTask id (Engine.cancelledAt now)).stateOf j = some x →
          s.engine.stateOf j = some x := by
      intro j x hx hj
      rcases hsets.same_or j with hsame | ⟨-, hst⟩
      · exact hsame ▸ hj
      · cases hj.symm.trans hst
        exact absurd rfl hx
    refine ⟨hcustody, ?_, ?_, h.unwritten, ?_⟩
    · intro p a ha
      obtain ⟨hp, ha⟩ := hheld p a ha
      rw [hacted.admits hp]
      obtain ⟨x, hx, hst⟩ := h.states p a ha
      rcases hsets.same_or a with hsame | ⟨rfl, hcancelled⟩
      · exact ⟨x, hx, hsame.trans hst⟩
      · refine ⟨.cancelled, (s.admits_closed p a x hx).2.1 ?_, hcancelled⟩
        rw [Engine.stateOf, hget] at hst
        cases hst
        exact hcan
    · intro w j hj
      obtain ⟨hissued, hfree, hrun⟩ := h.completed w j hj
      exact ⟨hissued, fun p hp => hfree p (hheld p j hp).2,
        fun hrun' => hrun (hwritten j _ (by simp) hrun')⟩
    · intro w j hj hretry
      exact h.unretried w j hj (hwritten j _ (by simp) hretry)

end Call

theorem checkpointStep_standing
    {order : List TaskID}
    (h : Standing s)
    (hstep : s.checkpointStep order = some s') :
    Standing s' := by
  have hsame := checkpointStep_unmoved hstep
  refine ⟨checkpointStep_custody h.custody hstep, ?_, ?_, ?_, ?_⟩
  · intro p a ha
    rw [hsame.holdings] at ha
    have hold := h.states p a ha
    rw [hsame.stateOf]
    cases p <;>
      simpa only [World.admits, hsame.scheduler, hsame.workers, hsame.calls] using hold
  · intro w id hpc
    rw [hsame.workers] at hpc
    rw [hsame.issued, hsame.holdings, hsame.stateOf]
    exact h.completed w id hpc
  · rw [hsame.workers]
    exact h.unwritten
  · intro w id hid
    rw [hsame.workers] at hid
    rw [hsame.stateOf]
    exact h.unretried w id hid

/-- Every step keeps the tasks among the states that go with their holders. -/
theorem step_standing
    (s : World n m) (ev : Event n m) (s' : World n m)
    (h : Standing s)
    (hstep : s.step ev = some s') :
    Standing s' := by
  cases ev with
  | worker w env result delay =>
      exact workerStep_standing h (workerStep_cases hstep)
  | scheduler now =>
      exact schedulerStep_standing h (schedulerStep_cases hstep)
  | submit c task generatedID now =>
      exact submitStep_standing h hstep
  | cancel c id now =>
      exact cancelStep_standing h hstep
  | call c env =>
      exact callStep_standing h (callStep_cases hstep)
  | checkpoint order =>
      exact checkpointStep_standing h hstep

theorem start_standing
    {cfg : Engine.Config} {d : Engine.Disk} {order : List TaskID} {e : Engine}
    (h : Engine.Recovered cfg d order e) :
    Standing (start e d order : World n m) := by
  obtain ⟨loaded, last, hload, horder, hall⟩ := h.restarted
  refine ⟨start_custody h, ?_, ?_, ?_, ?_⟩
  · intro p id hid
    cases p with
    | buffer =>
        exact ⟨.pending, List.mem_cons_self, hall.pending hid⟩
    | heap =>
        exact ⟨.scheduled, List.mem_cons_self, hall.scheduled hid⟩
    | _ =>
        cases hid
  · intro w id hpc
    cases hpc
  · intro w id hpc
    cases hpc
  · intro w id hid
    cases hid

/-- A worker writes over a state that its task, or the one that it has let go of, can be in. -/
theorem Standing.workerWrites
    (h : Standing s)
    {w : Fin n} {j : TaskID} {a x : TaskState}
    (ha : s.engine.stateOf j = some a)
    (hw : (s.workers w).Writes j x) :
    a = x ∨ x ∈ a.becomes := by
  have hheld : j ∈ (s.workers w).holds → a ∈ (s.workers w).admits :=
    fun hj => h.admitted (p := .worker w) hj ha
  have hunwritten := h.unwritten w
  have hunretried := h.unretried w j
  generalize s.workers w = pc at hw hheld hunwritten hunretried
  cases hw with
  | complete id =>
      exact absurd rfl (hunwritten j)
  | fail id err =>
      have hne : a ≠ .retrying := by
        rintro rfl
        exact hunretried rfl ha
      cases a <;> simp_all [TaskState.becomes]
  | _ =>
      have hmem := hheld List.mem_cons_self
      simp only [WorkerPc.admits, waiting, List.mem_cons, List.not_mem_nil, or_false] at hmem
      rcases hmem with rfl | rfl | rfl <;> simp [TaskState.becomes]

/-- The scheduler writes over a state in which a task can wait. -/
theorem Standing.schedulerWrites
    (h : Standing s)
    {now : Time} {j : TaskID} {a x : TaskState}
    (ha : s.engine.stateOf j = some a)
    (hw : SchedulerWrites s now j x) :
    a = x ∨ x ∈ a.becomes := by
  cases hw with
  | promote hpc hid =>
      have hheap : j ∈ s.engine.heap.inner :=
        (Engine.promoteReady_promoted s.engine now).perm.mem_iff.mp
          (List.mem_append_left _ hid)
      have hmem := h.admitted (p := .heap) hheap ha
      simp only [admits, waiting, List.mem_cons, List.not_mem_nil, or_false] at hmem
      rcases hmem with rfl | rfl | rfl <;> simp [TaskState.becomes]
  | expire hpc =>
      have hmem := h.admitted (p := .scheduler) (by simp [holdings, hpc, SchedulerPc.holds]) ha
      simp only [admits, hpc, SchedulerPc.admits, waiting, List.mem_cons, List.not_mem_nil,
        or_false] at hmem
      rcases hmem with rfl | rfl | rfl <;> simp [TaskState.becomes]
  | postpone hpc =>
      have hmem := h.admitted (p := .scheduler) (by simp [holdings, hpc, SchedulerPc.holds]) ha
      simp only [admits, hpc, SchedulerPc.admits, waiting, List.mem_cons, List.not_mem_nil,
        or_false] at hmem
      rcases hmem with rfl | rfl | rfl <;> simp [TaskState.becomes]

/-- A step leaves the state of a registered task as it is, or makes one of the transitions. -/
theorem Standing.step_becomes
    (h : Standing s)
    {ev : Event n m}
    (hstep : s.step ev = some s')
    {j : TaskID} {a b : TaskState}
    (ha : s.engine.stateOf j = some a)
    (hb : s'.engine.stateOf j = some b) :
    a = b ∨ b ∈ a.becomes := by
  have hsame : s'.engine.stateOf j = s.engine.stateOf j → a = b ∨ b ∈ a.becomes := by
    intro heq
    rw [ha, hb] at heq
    cases heq
    exact Or.inl rfl
  cases ev with
  | worker w env result delay =>
      rcases (workerStep_cases hstep).stateOf_cases j with heq | ⟨x, hw, hx⟩
      · exact hsame heq
      · cases hb.symm.trans hx
        exact h.workerWrites ha hw
  | scheduler now =>
      rcases (schedulerStep_cases hstep).stateOf_cases j with heq | ⟨x, hw, hx⟩
      · exact hsame heq
      · cases hb.symm.trans hx
        exact h.schedulerWrites ha hw
  | submit c task generatedID now =>
      rcases submitStep_registers hstep with ⟨rfl, -⟩ | hreg
      · exact hsame rfl
      · refine hsame ?_
        rw [hreg.engine]
        refine s.engine.stateOf_register_of_ne ?_
        rintro rfl
        rw [Engine.stateOf, (h.custody.fresh hreg.fresh).1] at ha
        cases ha
  | cancel c id now =>
      rcases cancelStep_cases hstep with rfl | ⟨-, t, hget, hcan, rfl⟩
      · exact hsame rfl
      · rcases (s.engine.cancelledAt_sets id now).same_or j with heq | ⟨rfl, hx⟩
        · exact hsame heq
        · cases hb.symm.trans hx
          rw [Engine.stateOf, hget] at ha
          cases ha
          right
          cases hst : t.state <;> simp_all [Engine.cancellable, TaskState.becomes]
  | call c env =>
      rcases (callStep_cases hstep).stateOf_cases j with heq | ⟨-, hnone⟩
      · exact hsame heq
      · cases hb.symm.trans hnone
  | checkpoint order =>
      exact hsame ((checkpointStep_unmoved hstep).stateOf j)

/-- `SetState` would have done the same, or it would have refused one of the listed writes. -/
theorem Standing.step_setState
    (h : Standing s)
    {ev : Event n m}
    (hstep : s.step ev = some s')
    {j : TaskID} {t : Task} {b : TaskState}
    (ht : s.engine.tasks.get j = some t)
    (hb : s'.engine.stateOf j = some b) :
    t.state = b ∨ t.setState b = some (t.forceSetState b) ∨ b ∈ t.state.forced := by
  have ha : s.engine.stateOf j = some t.state := by
    rw [Engine.stateOf, ht, Option.map_some]
  refine (h.step_becomes hstep ha hb).imp_right fun hbecomes => ?_
  cases hallowed : t.state.canTransitionTo b with
  | true =>
      exact Or.inl (Task.setState_of_canTransitionTo hallowed)
  | false =>
      right
      rw [TaskState.forced, List.mem_filter, hallowed]
      exact ⟨hbecomes, rfl⟩

example : TaskState.pending.forced = [.scheduled, .failed] ∧
    TaskState.scheduled.forced = [.failed] ∧ TaskState.running.forced = [.scheduled] := by
  decide

section Tours

/-- A task that is due at 15 and expires at 90. -/
def brief : Task :=
  { Task.zero with scheduledAt := 15, expiresAt := 90 }

/-- The task comes in. -/
def submitted : List (Event 2 1) :=
  wholeSubmit 0 brief "a" 10

/-- `CancelTask` marks the task. -/
def cancelsIt : Event 2 1 :=
  .cancel 0 "a" 25

/-- A step of the first worker, and one of the second, whose handler returns `result`. -/
def byFirst (result : Option HandlerError) : Event 2 1 :=
  .worker 0 (.noError 30 100) result 5

def bySecond (result : Option HandlerError) : Event 2 1 :=
  .worker 1 (.noError 60 100) result 5

/-- An error after which the task is tried again, and one after which it is not. -/
def temporary : Option HandlerError :=
  some ⟨"busy", false⟩

def permanent : Option HandlerError :=
  some ⟨"gone", true⟩

/-- The scheduler has put the task into the buffer. -/
def buffered : List (Event 2 1) :=
  submitted ++ List.replicate 3 (.scheduler 20)

/-- The handler of the first worker has returned. -/
def handled (result : Option HandlerError) : List (Event 2 1) :=
  buffered ++ List.replicate 5 (byFirst result)

/-- The first worker has failed; its write is still to come when the second has the task. -/
def overtaken : List (Event 2 1) :=
  handled temporary ++ List.replicate 3 (byFirst none) ++ List.replicate 3 (.scheduler 50) ++
    List.replicate 2 (bySecond none) ++ [byFirst none]

/-- The handler of the second worker has returned. -/
def handledAgain (result : Option HandlerError) : List (Event 2 1) :=
  overtaken ++ List.replicate 3 (bySecond result)

/-- The second worker has put the task back on the heap. -/
def requeued : List (Event 2 1) :=
  handledAgain temporary ++ List.replicate 3 (bySecond none)

/-- The task meets a full buffer. -/
def refused : List (Event 2 1) :=
  submitted ++ wholeSubmit 0 Task.zero "b" 12 ++ List.replicate 3 (.scheduler 20)

/-- An interleaving for each transition. -/
def tour : TaskState → TaskState → List (Event 2 1)
  | .pending, .running => handled none
  | .pending, .scheduled => refused ++ [.scheduler 30]
  | .pending, .cancelled => buffered ++ [cancelsIt]
  | .pending, .expired => submitted ++ List.replicate 3 (.scheduler 100)
  | .pending, .failed => requeued ++ [.scheduler 80, byFirst none]
  | .scheduled, .pending => buffered
  | .scheduled, .cancelled => submitted ++ [cancelsIt]
  | .scheduled, .failed => requeued ++ [byFirst none]
  | .running, .completed => handled none ++ [byFirst none]
  | .running, .scheduled => handled temporary ++ [byFirst none]
  | .running, .dead => handled permanent ++ [byFirst none]
  | .running, .failed => overtaken ++ [byFirst none]
  | .completed, .failed => handledAgain none ++ [bySecond none, byFirst none]
  | .failed, .pending => requeued ++ [byFirst none, .scheduler 80]
  | .failed, .scheduled => handledAgain temporary ++ [byFirst none, bySecond none]
  | .failed, .running => overtaken ++ [byFirst none, bySecond none]
  | .failed, .completed => handledAgain none ++ [byFirst none, bySecond none]
  | .failed, .dead => handledAgain permanent ++ [byFirst none, bySecond none]
  | .failed, .expired =>
      requeued ++ [.scheduler 100, .scheduler 100, byFirst none, .scheduler 100]
  | .dead, .failed => handledAgain permanent ++ [bySecond none, byFirst none]
  | .cancelled, .pending => submitted ++ [cancelsIt, .scheduler 30]
  | .cancelled, .scheduled => refused ++ [cancelsIt, .scheduler 30]
  | .cancelled, .running => buffered ++ [cancelsIt, byFirst none, byFirst none]
  | .cancelled, .expired =>
      submitted ++ [.scheduler 100, .scheduler 100, cancelsIt, .scheduler 100]
  | .cancelled, .failed => requeued ++ [cancelsIt, byFirst none]
  | .expired, .failed => requeued ++ List.replicate 3 (.scheduler 100) ++ [byFirst none]
  | _, _ => []

/-- The interleaving for a transition makes it. -/
theorem mem_changes_tour
    (a b : TaskState)
    (h : b ∈ a.becomes) :
    (some a, some b) ∈
      Lib.changes step (fun s => s.engine.stateOf "a") (initial Engine.tightConfig) (tour a b) := by
  revert h
  cases a <;> cases b <;> decide +kernel

end Tours

end World
end TaskQueue
