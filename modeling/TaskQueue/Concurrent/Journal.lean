import Mathlib.Tactic
import TaskQueue.Concurrent.Agreement
import TaskQueue.Concurrent.Keys

/-!
# The protocol of the log

Every goroutine calls `Append` for the task it is at.  This module takes down these calls, over
all interleavings and with all I/O errors, and shows that the calls for one task follow a
protocol (`Phase.after`): an `EntryEnqueue` comes first and only once, and nothing follows it if
it fails; then every `EntryStart` is followed by an `EntryRetry`, after which the task is started
again, or by an `EntryComplete` or an `EntryDead`, after which nothing follows.  An `EntryCancel`
can come anywhere.  A start without an outcome is that of a worker which is at the task now.

What is in the log are records of these calls in their order; without a checkpoint all those are
in it whose call returned nil.
-/

namespace TaskQueue

open Lib (Run Consistent Exclusive)
open Queue
open Wal (LogEnv LogRecord EntryType)
open Engine (HandlerError)

/-- How far the calls of `Append` for a task have come. -/
inductive Phase
  /-- There was no call. -/
  | absent
  /-- The task waits to be started. -/
  | waiting
  /-- The last start has no outcome yet. -/
  | started
  /-- No more calls but for cancellations. -/
  | finished
deriving DecidableEq, Repr

/-- The phase after one more call, which returned nil or not. -/
def Phase.after : Phase → EntryType → Bool → Option Phase
  | p, .cancel, _ => some p
  | .absent, .enqueue, ok => some (if ok then .waiting else .finished)
  | .waiting, .start, _ => some .started
  | .started, .retry, _ => some .waiting
  | .started, .complete, _ => some .finished
  | .started, .dead, _ => some .finished
  | _, _, _ => none

/-- A call of `Append`, and whether it returned nil. -/
structure Note where
  id : TaskID
  type : EntryType
  ok : Bool
deriving DecidableEq

/-- The task and the type of the record. -/
def Note.key (x : Note) : TaskID × EntryType :=
  (x.id, x.type)

/-- The task and the type of a record of the log. -/
def recordKey (r : LogRecord Engine.EntryData) : TaskID × EntryType :=
  (r.entry.taskID, r.entry.type)

section Phases

variable {known : List TaskID} {notes : List Note}

/-- The calls for one task. -/
def notesOf (notes : List Note) (id : TaskID) : List Note :=
  notes.filter fun x => x.id = id

/-- The phase of a task; the tasks that were recovered are waiting. -/
def phaseOf (known : List TaskID) (notes : List Note) (id : TaskID) : Option Phase :=
  (notesOf notes id).foldlM (fun p x => p.after x.type x.ok)
    (if id ∈ known then .waiting else .absent)

theorem phaseOf_append_of_ne
    {x : Note} {id : TaskID}
    (h : x.id ≠ id) :
    phaseOf known (notes ++ [x]) id = phaseOf known notes id := by
  have hfilter : notesOf (notes ++ [x]) id = notesOf notes id := by
    simp [notesOf, List.filter_append, h]
  rw [phaseOf, hfilter]
  rfl

theorem phaseOf_append_self
    (known : List TaskID) (notes : List Note) (x : Note) :
    phaseOf known (notes ++ [x]) x.id =
      (phaseOf known notes x.id).bind fun p => p.after x.type x.ok := by
  have hfilter : notesOf (notes ++ [x]) x.id = notesOf notes x.id ++ [x] := by
    simp [notesOf, List.filter_append]
  rw [phaseOf, hfilter, List.foldlM_append]
  simp [phaseOf]

theorem phaseOf_append_cancel
    {x : Note} {id : TaskID}
    (h : x.type = .cancel) :
    phaseOf known (notes ++ [x]) id = phaseOf known notes id := by
  by_cases hid : x.id = id
  · subst hid
    rw [phaseOf_append_self, h]
    simp [Phase.after]
  · exact phaseOf_append_of_ne hid

end Phases

/-- The record that a worker appends next. -/
def WorkerPc.logs : WorkerPc → Option (TaskID × EntryType)
  | .starting id => some (id, .start)
  | .completing id => some (id, .complete)
  | .dying id _ => some (id, .dead)
  | .retrying id _ => some (id, .retry)
  | _ => none

/-- The record that a client appends next. -/
def CallPc.logs : CallPc → Option (TaskID × EntryType)
  | .marshalled task _ => some (task.id, .enqueue)
  | .cancelling id => some (id, .cancel)
  | _ => none

/-- The task that a worker has started and whose outcome it has not logged yet. -/
def WorkerPc.attempting : WorkerPc → List TaskID
  | .executing id => [id]
  | .returned id _ => [id]
  | .completing id => [id]
  | .dying id _ => [id]
  | .retrying id _ => [id]
  | _ => []

/-- The phase of the task of a worker. -/
def WorkerPc.phase : WorkerPc → Phase
  | .executing _ => .started
  | .returned _ _ => .started
  | .completing _ => .started
  | .dying _ _ => .started
  | .retrying _ _ => .started
  | .burying _ _ => .finished
  | _ => .waiting

/-- The phases that the task of a `Submit` can be in. -/
def CallPc.phases : CallPc → List Phase
  | .registered _ => [.absent]
  | .marshalled _ _ => [.absent]
  | .undoing _ => [.absent, .finished]
  | _ => [.waiting]

namespace World

variable {n m : Nat}

/-- The calls of `Append` that a step makes. -/
def notes (s : World n m) : Event n m → List Note
  | .worker w env _ _ =>
      (s.workers w).logs.toList.map fun x =>
        ⟨x.1, x.2, (s.engine.append s.disk x.2 x.1 .nil env).2.2⟩
  | .call c env =>
      (s.calls c).logs.toList.map fun x =>
        ⟨x.1, x.2, (s.engine.append s.disk x.2 x.1 .nil env).2.2⟩
  | _ => []

/-- The phases that a task can be in at a place. -/
def phases (s : World n m) : Place n m → List Phase
  | .worker w => [(s.workers w).phase]
  | .call c => (s.calls c).phases
  | _ => [.waiting]

/-- What every run keeps, with the tasks known at the start and the calls since. -/
structure Journaled (known : List TaskID) (notes : List Note) (s : World n m) : Prop where
  custody : Custody s
  phases : Consistent s.holdings (phaseOf known notes) fun p _ phase =>
    ∃ x ∈ s.phases p, phase = some x
  fresh : ∀ id, id ∉ s.issued → phaseOf known notes id = some .absent
  allowed : ∀ id, (phaseOf known notes id).isSome = true
  attempted : ∀ id, phaseOf known notes id = some .started →
    ∃ w, id ∈ (s.workers w).attempting

variable {s s' : World n m} {known : List TaskID} {notes : List Note}

/-- The phases of a place depend on the thread of that place only. -/
theorem Acted.phases
    {p q : Place n m}
    (h : Acted q s s')
    (hp : p ≠ q) :
    s'.phases p = s.phases p := by
  cases p with
  | worker w =>
      simp only [World.phases, h.workers w (Ne.symm hp)]
  | call c =>
      simp only [World.phases, h.calls c (Ne.symm hp)]
  | _ =>
      rfl

theorem attempting_subset
    (pc : WorkerPc) :
    pc.attempting ⊆ pc.holds := by
  cases pc <;> simp [WorkerPc.attempting, WorkerPc.holds]

/-- A step of one thread, which calls `Append` for tasks of its own only, or to cancel. -/
theorem Journaled.act
    {notes' : List Note}
    (h : Journaled known notes s)
    (q : Place n m)
    (hcustody : Custody s')
    (hacted : Acted q s s')
    (hissued : s.issued ⊆ s'.issued)
    (hlabel : ∀ a, a ∉ s.holdings q → phaseOf known notes' a = phaseOf known notes a)
    (hcame : ∀ p, p ≠ q → ∀ a ∈ s'.holdings p, a ∈ s.holdings p ∨
      (p = .buffer ∨ p = .heap) ∧ phaseOf known notes' a = some .waiting)
    (hactor : ∀ a ∈ s'.holdings q, ∃ x ∈ s'.phases q, phaseOf known notes' a = some x)
    (hallowed : ∀ a ∈ s.holdings q, (phaseOf known notes' a).isSome = true)
    (hattempted : ∀ a ∈ s.holdings q, phaseOf known notes' a = some .started →
      ∃ w, a ∈ (s'.workers w).attempting) :
    Journaled known notes' s' := by
  refine ⟨hcustody, ?_, ?_, ?_, ?_⟩
  · refine h.phases.act h.custody.exclusive hcustody.exclusive q ?_ ?_ ?_ hactor
    · intro p hp
      rw [hacted.phases hp]
    · intro a ha _
      exact hlabel a ha
    · intro p hp a ha
      rcases hcame p hp a ha with hold | ⟨hqueue, hwaiting⟩
      · exact Or.inl hold
      · refine Or.inr ⟨.waiting, ?_, hwaiting⟩
        rcases hqueue with rfl | rfl <;> exact List.mem_singleton_self _
  · intro id hid
    have hnew : id ∉ s.issued := fun hmem => hid (hissued hmem)
    rw [hlabel id ((h.custody.fresh hnew).2 q)]
    exact h.fresh id hnew
  · intro id
    by_cases hheld : id ∈ s.holdings q
    · exact hallowed id hheld
    · rw [hlabel id hheld]
      exact h.allowed id
  · intro id hstarted
    by_cases hheld : id ∈ s.holdings q
    · exact hattempted id hheld hstarted
    · rw [hlabel id hheld] at hstarted
      obtain ⟨w, hw⟩ := h.attempted id hstarted
      refine ⟨w, ?_⟩
      rw [hacted.workers w]
      · exact hw
      · rintro rfl
        exact hheld (attempting_subset _ hw)

section Worker

variable {w : Fin n} {env : LogEnv}

/-- The phase of the task of a worker. -/
theorem Journaled.phase_worker
    (h : Journaled known notes s)
    {id : TaskID}
    (hid : id ∈ (s.workers w).holds) :
    phaseOf known notes id = some (s.workers w).phase := by
  obtain ⟨x, hx, hphase⟩ := h.phases (.worker w) id hid
  rw [hphase, List.mem_singleton.mp hx]

/-- A worker calls `Append` for the task it holds. -/
theorem logs_held
    {pc : WorkerPc} {x : TaskID × EntryType}
    (h : pc.logs = some x) :
    pc.holds = [x.1] ∧ x.2 ≠ .cancel := by
  cases pc <;> simp only [WorkerPc.logs, Option.some.injEq, reduceCtorEq] at h <;> subst h <;>
    exact ⟨rfl, by simp⟩

/-- The phase of the task that a worker holds after a step. -/
theorem WorkerStep.phase
    (h : WorkerStep s w env s')
    {a : TaskID}
    (ha : a ∈ (s'.workers w).holds) :
    ((s.workers w).logs = none ∧
      (a ∈ s.engine.buffer.contents ∧ (s'.workers w).phase = .waiting ∨
        a ∈ (s.workers w).holds ∧ (s'.workers w).phase = (s.workers w).phase)) ∨
    ∃ type, (s.workers w).logs = some (a, type) ∧
      ∀ ok, (s.workers w).phase.after type ok = some (s'.workers w).phase := by
  cases h with
  | @dequeue id rb hpc hdeq =>
      refine Or.inl ⟨by rw [hpc]; rfl, Or.inl ⟨?_, by simp [toWorker, WorkerPc.phase]⟩⟩
      simp only [toWorker, Function.update_self, WorkerPc.holds, List.mem_singleton] at ha
      rw [(RingBuffer.dequeue_done hdeq).1, ha]
      exact List.mem_cons_self
  | _ =>
      simp_all [toWorker, handlerStarts, report, WorkerPc.holds, WorkerPc.logs, WorkerPc.phase,
        Phase.after]

/-- A worker is at an attempt until it logs the outcome. -/
theorem WorkerStep.goes_on
    (h : WorkerStep s w env s')
    (hlogs : (s.workers w).logs = none)
    {a : TaskID}
    (ha : a ∈ (s.workers w).attempting) :
    a ∈ (s'.workers w).attempting := by
  cases h <;> simp_all [toWorker, WorkerPc.attempting, WorkerPc.logs]

/-- The call of `Append` that begins an attempt. -/
theorem WorkerStep.begins
    (h : WorkerStep s w env s')
    {a : TaskID} {type : EntryType} {ok : Bool}
    (hlogs : (s.workers w).logs = some (a, type))
    (hphase : (s.workers w).phase.after type ok = some .started) :
    a ∈ (s'.workers w).attempting := by
  cases h <;>
    simp_all [toWorker, handlerStarts, report, WorkerPc.attempting, WorkerPc.logs,
      WorkerPc.phase, Phase.after]
  all_goals
    obtain ⟨rfl, rfl⟩ := hlogs
    simp at hphase

theorem after_isSome
    {pc : WorkerPc} {x : TaskID × EntryType}
    (h : pc.logs = some x)
    (ok : Bool) :
    (pc.phase.after x.2 ok).isSome = true := by
  cases pc <;> simp only [WorkerPc.logs, Option.some.injEq, reduceCtorEq] at h <;> subst h <;> rfl

/-- A step of a worker that calls `Append`. -/
theorem workerStep_journaled_of_logs
    (h : Journaled known notes s)
    (hstep : WorkerStep s w env s')
    {a : TaskID} {type : EntryType} (ok : Bool)
    (hlogs : (s.workers w).logs = some (a, type)) :
    Journaled known (notes ++ [⟨a, type, ok⟩]) s' := by
  have hholds : (s.workers w).holds = [a] := (logs_held hlogs).1
  have hphase : phaseOf known (notes ++ [⟨a, type, ok⟩]) a =
      (s.workers w).phase.after type ok := by
    have hbefore : phaseOf known notes a = some (s.workers w).phase := by
      refine h.phase_worker ?_
      rw [hholds]
      exact List.mem_singleton_self a
    rw [phaseOf_append_self known notes ⟨a, type, ok⟩]
    show (phaseOf known notes a).bind _ = _
    rw [hbefore]
    rfl
  refine h.act (.worker w) (workerStep_custody h.custody hstep) hstep.acted ?_ ?_ ?_ ?_ ?_ ?_
  · rw [hstep.history.1]
    exact List.Subset.refl _
  · intro j hj
    refine phaseOf_append_of_ne ?_
    rintro rfl
    exact hj (by simp [holdings, hholds])
  · intro p hp j hj
    rcases hstep.came hp hj with hold | ⟨-, err, hpc⟩
    · exact Or.inl hold
    · rw [hpc] at hlogs
      cases hlogs
  · intro j hj
    rcases hstep.phase hj with ⟨hnone, -⟩ | ⟨type', hsome, hnext⟩
    · rw [hlogs] at hnone
      cases hnone
    · rw [hlogs] at hsome
      cases hsome
      exact ⟨(s'.workers w).phase, List.mem_singleton_self _, hphase.trans (hnext ok)⟩
  · intro j hj
    have hself : j = a := by simpa [holdings, hholds] using hj
    rw [hself, hphase]
    exact after_isSome hlogs ok
  · intro j hj hstarted
    have hself : j = a := by simpa [holdings, hholds] using hj
    rw [hself, hphase] at hstarted
    exact ⟨w, hself ▸ hstep.begins hlogs hstarted⟩

/-- A step of a worker that does not. -/
theorem workerStep_journaled_of_none
    (h : Journaled known notes s)
    (hstep : WorkerStep s w env s')
    (hlogs : (s.workers w).logs = none) :
    Journaled known notes s' := by
  refine h.act (.worker w) (workerStep_custody h.custody hstep) hstep.acted ?_ ?_ ?_ ?_ ?_ ?_
  · rw [hstep.history.1]
    exact List.Subset.refl _
  · intro j _
    rfl
  · intro p hp j hj
    rcases hstep.came hp hj with hold | ⟨hheap, err, hpc⟩
    · exact Or.inl hold
    · refine Or.inr ⟨Or.inr hheap, ?_⟩
      rw [h.phase_worker (w := w) (by simp [hpc, WorkerPc.holds]), hpc]
      rfl
  · intro j hj
    rcases hstep.phase hj with ⟨-, ⟨hbuffer, hnext⟩ | ⟨hheld, hnext⟩⟩ | ⟨type, hsome, -⟩
    · obtain ⟨x, hx, hphase⟩ := h.phases .buffer j hbuffer
      rw [List.mem_singleton.mp hx] at hphase
      exact ⟨.waiting, by rw [phases, hnext]; exact List.mem_singleton_self _, hphase⟩
    · exact ⟨(s'.workers w).phase, List.mem_singleton_self _, by
        rw [hnext]
        exact h.phase_worker hheld⟩
    · rw [hlogs] at hsome
      cases hsome
  · intro j _
    exact h.allowed j
  · intro j hj hstarted
    obtain ⟨w₀, hw₀⟩ := h.attempted j hstarted
    have hplace : Place.worker w₀ = Place.worker w :=
      h.custody.exclusive.unique (attempting_subset _ hw₀) hj
    cases hplace
    exact ⟨w, hstep.goes_on hlogs hw₀⟩

end Worker

/-- The tasks of the queues and of the scheduler are waiting. -/
theorem Journaled.phase_waiting
    (h : Journaled known notes s)
    {p : Place n m} {id : TaskID}
    (hp : s.phases p = [.waiting])
    (hid : id ∈ s.holdings p) :
    phaseOf known notes id = some .waiting := by
  obtain ⟨x, hx, hphase⟩ := h.phases p id hid
  rw [hp, List.mem_singleton] at hx
  rw [hphase, hx]

section Scheduler

variable {now : Time}

/-- The scheduler has the tasks that it had, and those from the heap. -/
theorem SchedulerStep.holds_origin
    (h : SchedulerStep s now s')
    {a : TaskID}
    (ha : a ∈ s'.scheduler.holds) :
    a ∈ s.scheduler.holds ∨ a ∈ s.engine.heap.inner := by
  cases h with
  | promote hpc =>
      right
      exact (Engine.promoteReady_promoted s.engine now).perm.mem_iff.mp
        (List.mem_append_left _ ha)
  | _ =>
      left
      simp_all [toScheduler, SchedulerPc.holds]

theorem schedulerStep_journaled
    (h : Journaled known notes s)
    (hstep : SchedulerStep s now s') :
    Journaled known notes s' := by
  have hinHand : ∀ {a x}, s.scheduler.inHand = some (a, x) →
      phaseOf known notes a = some .waiting := by
    intro a x hhand
    refine h.phase_waiting (p := .scheduler) rfl ?_
    show a ∈ s.scheduler.holds
    rw [SchedulerPc.holds_eq, hhand]
    exact List.mem_cons_self
  refine h.act .scheduler (schedulerStep_custody h.custody hstep) hstep.acted ?_ ?_ ?_ ?_ ?_ ?_
  · rw [hstep.history.1]
    exact List.Subset.refl _
  · intro a _
    rfl
  · intro p hp a ha
    rcases hstep.came hp ha with hold | ⟨hbuffer, hhand, -⟩ | ⟨hheap, hhand, -⟩
    · exact Or.inl hold
    · exact Or.inr ⟨Or.inl hbuffer, hinHand hhand⟩
    · exact Or.inr ⟨Or.inr hheap, hinHand hhand⟩
  · intro a ha
    refine ⟨.waiting, List.mem_singleton_self _, ?_⟩
    rcases hstep.holds_origin ha with hold | hheap
    · exact h.phase_waiting (p := .scheduler) rfl hold
    · exact h.phase_waiting (p := .heap) rfl hheap
  · intro a _
    exact h.allowed a
  · intro a ha hstarted
    rw [h.phase_waiting (p := .scheduler) rfl ha] at hstarted
    cases hstarted

end Scheduler

section Call

variable {c : Fin m} {env : LogEnv}

/-- The phases of the task that a client still has after a step without an `EntryEnqueue`. -/
theorem CallStep.phases
    (h : CallStep s c env s')
    (hlogs : ∀ id, (s.calls c).logs ≠ some (id, .enqueue))
    {a : TaskID}
    (ha : a ∈ (s'.calls c).holds) :
    a ∈ (s.calls c).holds ∧ (s.calls c).phases ⊆ (s'.calls c).phases := by
  cases h <;>
    simp_all [toCall, report, CallPc.holds, CallPc.logs, CallPc.phases]

theorem Journaled.not_started
    (h : Journaled known notes s)
    {a : TaskID}
    (ha : a ∈ (s.calls c).holds) :
    phaseOf known notes a ≠ some .started := by
  obtain ⟨x, hx, hphase⟩ := h.phases (.call c) a ha
  intro hstarted
  cases hphase.symm.trans hstarted
  change Phase.started ∈ (s.calls c).phases at hx
  generalize s.calls c = pc at hx
  cases pc <;> simp [CallPc.phases] at hx

/-- A step of a client without an `EntryEnqueue`. -/
theorem callStep_journaled_of_none
    (h : Journaled known notes s)
    (hstep : CallStep s c env s')
    (hlogs : ∀ id, (s.calls c).logs ≠ some (id, .enqueue)) :
    Journaled known notes s' := by
  refine h.act (.call c) (callStep_custody h.custody hstep) hstep.acted ?_ ?_ ?_ ?_ ?_ ?_
  · rw [hstep.issued]
    exact List.Subset.refl _
  · intro a _
    rfl
  · intro p hp a ha
    rcases hstep.came hp ha with hold | ⟨hbuffer, hpc, -⟩ | ⟨hheap, hpc, -⟩
    · exact Or.inl hold
    · refine Or.inr ⟨Or.inl hbuffer, h.phase_waiting (p := .call c) ?_ ?_⟩
      · simp [World.phases, hpc, CallPc.phases]
      · simp [holdings, hpc, CallPc.holds]
    · refine Or.inr ⟨Or.inr hheap, h.phase_waiting (p := .call c) ?_ ?_⟩
      · simp [World.phases, hpc, CallPc.phases]
      · simp [holdings, hpc, CallPc.holds]
  · intro a ha
    obtain ⟨hheld, hsub⟩ := hstep.phases hlogs ha
    obtain ⟨x, hx, hphase⟩ := h.phases (.call c) a hheld
    exact ⟨x, hsub hx, hphase⟩
  · intro a _
    exact h.allowed a
  · intro a ha hstarted
    exact absurd hstarted (h.not_started ha)

/-- The phase of the task of a `Submit` after its `EntryEnqueue`. -/
theorem CallStep.enqueued
    (h : CallStep s c env s')
    {task data : Task} {ok : Bool}
    (hpc : s.calls c = .marshalled task data)
    (hok : (s.engine.append s.disk .enqueue task.id (.ofTask data) env).2.2 = ok) :
    (if ok then .waiting else .finished) ∈ (s'.calls c).phases := by
  cases h <;> simp_all [toCall, CallPc.phases]

/-- The `EntryEnqueue` of a `Submit`. -/
theorem callStep_journaled_of_enqueue
    (h : Journaled known notes s)
    (hstep : CallStep s c env s')
    {task data : Task} {ok : Bool}
    (hpc : s.calls c = .marshalled task data)
    (hok : (s.engine.append s.disk .enqueue task.id (.ofTask data) env).2.2 = ok) :
    Journaled known (notes ++ [⟨task.id, .enqueue, ok⟩]) s' := by
  have hphase : phaseOf known (notes ++ [⟨task.id, .enqueue, ok⟩]) task.id =
      some (if ok then .waiting else .finished) := by
    obtain ⟨x, hx, hbefore⟩ := h.phases (.call c) task.id (by simp [holdings, hpc, CallPc.holds])
    have habsent : x = .absent := by simpa [World.phases, hpc, CallPc.phases] using hx
    rw [phaseOf_append_self known notes ⟨task.id, .enqueue, ok⟩]
    show (phaseOf known notes task.id).bind _ = _
    rw [hbefore, habsent]
    rfl
  refine h.act (.call c) (callStep_custody h.custody hstep) hstep.acted ?_ ?_ ?_ ?_ ?_ ?_
  · rw [hstep.issued]
    exact List.Subset.refl _
  · intro a ha
    refine phaseOf_append_of_ne ?_
    rintro rfl
    exact ha (by simp [holdings, hpc, CallPc.holds])
  · intro p hp a ha
    rcases hstep.came hp ha with hold | ⟨-, hpc', -⟩ | ⟨-, hpc', -⟩
    · exact Or.inl hold
    · rw [hpc] at hpc'
      cases hpc'
    · rw [hpc] at hpc'
      cases hpc'
  · intro a ha
    have hself : a = task.id := by
      have hheld := hstep.holds_subset c ha
      simpa [hpc, CallPc.holds] using hheld
    rw [hself, hphase]
    exact ⟨_, hstep.enqueued hpc hok, rfl⟩
  · intro a ha
    have hself : a = task.id := by simpa [holdings, hpc, CallPc.holds] using ha
    rw [hself, hphase]
    rfl
  · intro a ha hstarted
    have hself : a = task.id := by simpa [holdings, hpc, CallPc.holds] using ha
    rw [hself, hphase] at hstarted
    cases ok <;> cases hstarted

theorem submitStep_journaled
    {task : Task} {generatedID : TaskID} {now : Time}
    (h : Journaled known notes s)
    (hstep : s.submitStep c task generatedID now = some s') :
    Journaled known notes s' := by
  have hcustody := submitStep_custody h.custody hstep
  rcases submitStep_registers hstep with ⟨rfl, -⟩ | hreg
  · exact h
  · refine h.act (.call c) hcustody hreg.acted ?_ ?_ ?_ ?_ ?_ ?_
    · rw [hreg.issued]
      exact List.subset_cons_self _ _
    · intro a _
      rfl
    · intro p hp a ha
      rw [hreg.rest p hp] at ha
      exact Or.inl ha
    · intro a ha
      have hself : a = (s.engine.prepare task generatedID now).id := by
        simpa [holdings, hreg.call, CallPc.holds] using ha
      refine ⟨.absent, by simp [World.phases, hreg.call, CallPc.phases], ?_⟩
      rw [hself]
      exact h.fresh _ hreg.fresh
    · intro a _
      exact h.allowed a
    · intro a ha hstarted
      exact absurd hstarted (h.not_started ha)

theorem cancelStep_journaled
    {id : TaskID} {now : Time}
    (h : Journaled known notes s)
    (hstep : s.cancelStep c id now = some s') :
    Journaled known notes s' := by
  have hcustody := cancelStep_custody h.custody hstep
  rcases cancelStep_cases hstep with rfl | ⟨-, t, -, -, rfl⟩
  · exact h
  · have hacted : Acted (.call c) s (s.toCall c (.cancelling id)
        (s.engine.updateTask id (Engine.cancelledAt now))) := s.acted_toCall
    refine h.act (.call c) hcustody hacted (List.Subset.refl _) (fun _ _ => rfl) ?_ ?_ ?_ ?_
    · intro p hp a ha
      rw [hacted.holdings hp (Or.inr rfl) (Or.inr rfl)] at ha
      exact Or.inl ha
    · intro a ha
      rw [holdings_toCall_self] at ha
      cases ha
    · intro a _
      exact h.allowed a
    · intro a ha hstarted
      exact absurd hstarted (h.not_started ha)

/-- An `EntryCancel` does not count. -/
theorem Journaled.cancelled
    (h : Journaled known notes s)
    (id : TaskID) (ok : Bool) :
    Journaled known (notes ++ [⟨id, .cancel, ok⟩]) s := by
  have hsame : phaseOf known (notes ++ [⟨id, .cancel, ok⟩]) = phaseOf known notes := by
    funext j
    exact phaseOf_append_cancel rfl
  obtain ⟨hcustody, hphases, hfresh, hallowed, hattempted⟩ := h
  rw [← hsame] at hphases hfresh hallowed hattempted
  exact ⟨hcustody, hphases, hfresh, hallowed, hattempted⟩

end Call

theorem checkpointStep_journaled
    {order : List TaskID}
    (h : Journaled known notes s)
    (hstep : s.checkpointStep order = some s') :
    Journaled known notes s' := by
  have hsame := checkpointStep_unmoved hstep
  have hphases : s'.phases = s.phases := by
    funext p
    cases p <;> simp only [World.phases, hsame.workers, hsame.calls]
  refine ⟨checkpointStep_custody h.custody hstep, ?_, ?_, h.allowed, ?_⟩
  · rw [hsame.holdings, hphases]
    exact h.phases
  · rw [hsame.issued]
    exact h.fresh
  · rw [hsame.workers]
    exact h.attempted

/-- Whether `Append` returns nil does not depend on the data. -/
theorem append_ok
    (e : Engine) (d : Engine.Disk) (type : EntryType) (id : TaskID) (data : Engine.EntryData)
    (io : LogEnv) :
    (e.append d type id .nil io).2.2 = (e.append d type id data io).2.2 := by
  unfold Engine.append Wal.Log.append
  dsimp only
  split_ifs
  · rfl
  · cases io.outcome <;> rfl

/-- Every step keeps the protocol. -/
theorem step_journaled
    {ev : Event n m}
    (h : Journaled known notes s)
    (hstep : s.step ev = some s') :
    Journaled known (notes ++ s.notes ev) s' := by
  cases ev with
  | worker w env result delay =>
      have hworker := workerStep_cases hstep
      simp only [World.notes]
      cases hlogs : (s.workers w).logs with
      | none =>
          simpa using workerStep_journaled_of_none h hworker hlogs
      | some x =>
          exact workerStep_journaled_of_logs h hworker _ hlogs
  | scheduler now =>
      simpa [World.notes] using schedulerStep_journaled h (schedulerStep_cases hstep)
  | submit c task generatedID now =>
      simpa [World.notes] using submitStep_journaled h hstep
  | cancel c id now =>
      simpa [World.notes] using cancelStep_journaled h hstep
  | call c env =>
      have hcall := callStep_cases hstep
      simp only [World.notes]
      cases hpc : s.calls c with
      | marshalled task data =>
          exact callStep_journaled_of_enqueue h hcall hpc (append_ok _ _ _ _ _ _).symm
      | cancelling id =>
          exact (callStep_journaled_of_none h hcall (by simp [hpc, CallPc.logs])).cancelled id _
      | _ =>
          simpa [CallPc.logs] using
            callStep_journaled_of_none h hcall (by simp [hpc, CallPc.logs])
  | checkpoint order =>
      simpa [World.notes] using checkpointStep_journaled h hstep

/--
The calls of a step and the log: what is written is a record of a call, and the record of a
call that returned nil is written.
-/
structure NotesLogged (notes : List Note) (d d' : Engine.Disk) : Prop where
  written : ∃ written, d'.walBin.map recordKey = d.walBin.map recordKey ++ written ∧
    written.Sublist (notes.map Note.key) ∧
    ((notes.filter Note.ok).map Note.key).Sublist written

theorem notesLogged_nil
    {d d' : Engine.Disk}
    (h : d' = d) :
    NotesLogged [] d d' :=
  ⟨[], by rw [h, List.append_nil], List.Sublist.slnil, List.Sublist.slnil⟩

theorem notesLogged_append
    (e : Engine) (d : Engine.Disk) (type : EntryType) (id : TaskID) (data : Engine.EntryData)
    (io : LogEnv) :
    NotesLogged [⟨id, type, (e.append d type id .nil io).2.2⟩] d (e.append d type id data io).2.1 := by
  rw [append_ok e d type id data io]
  rcases e.append_cases d type id data io with ⟨hdisk, hfailed, -⟩ | ⟨-, hdisk, -⟩
  · refine ⟨[], ?_, List.nil_sublist _, ?_⟩
    · rw [hdisk, List.append_nil]
    · rw [hfailed]
      exact List.Sublist.refl _
  · refine ⟨[(id, type)], ?_, List.Sublist.refl _, ?_⟩
    · rw [hdisk]
      exact List.map_append
    · cases (e.append d type id data io).2.2
      · exact List.nil_sublist _
      · exact List.Sublist.refl _

theorem WorkerStep.notesLogged
    {w : Fin n} {env : LogEnv}
    (h : WorkerStep s w env s') :
    NotesLogged ((s.workers w).logs.toList.map fun x =>
      ⟨x.1, x.2, (s.engine.append s.disk x.2 x.1 .nil env).2.2⟩) s.disk s'.disk := by
  cases h with
  | logStart hpc | logComplete hpc | logDead hpc | logRetry hpc =>
      rw [hpc]
      exact notesLogged_append s.engine s.disk _ _ _ env
  | dequeue hpc _ | mark hpc | wrap hpc | handle _ hpc | succeed hpc | die hpc _
  | retry _ hpc _ | bury hpc | repush hpc | findRunning hpc _ | findMoved hpc _ | write hpc =>
      rw [hpc]
      exact notesLogged_nil rfl

theorem CallStep.notesLogged
    {c : Fin m} {env : LogEnv}
    (h : CallStep s c env s') :
    NotesLogged ((s.calls c).logs.toList.map fun x =>
      ⟨x.1, x.2, (s.engine.append s.disk x.2 x.1 .nil env).2.2⟩) s.disk s'.disk := by
  cases h with
  | logEnqueue hpc _ | failEnqueue hpc _ | logCancel hpc _ | failCancel hpc _ =>
      rw [hpc]
      exact notesLogged_append s.engine s.disk _ _ _ env
  | marshal hpc _ | refuse hpc | undo hpc | toHeap hpc _ | toBuffer hpc _ | push hpc
  | enqueue hpc _ | turnAway hpc | remove hpc =>
      rw [hpc]
      exact notesLogged_nil rfl

/-- The step is one of a checkpoint. -/
def Event.checkpoints : Event n m → Bool
  | .checkpoint _ => true
  | _ => false

/-- What a step other than one of a checkpoint does to the log. -/
theorem step_notesLogged
    {ev : Event n m}
    (hstep : s.step ev = some s')
    (hev : ev.checkpoints = false) :
    NotesLogged (s.notes ev) s.disk s'.disk := by
  cases ev with
  | worker w env result delay =>
      exact (workerStep_cases hstep).notesLogged
  | scheduler now =>
      refine notesLogged_nil ?_
      cases schedulerStep_cases hstep <;> rfl
  | submit c task generatedID now =>
      refine notesLogged_nil ?_
      rcases submitStep_cases hstep with rfl | ⟨-, -, -, rfl⟩ <;> rfl
  | cancel c id now =>
      refine notesLogged_nil ?_
      rcases cancelStep_cases hstep with rfl | ⟨-, t, -, -, rfl⟩ <;> rfl
  | call c env =>
      exact (callStep_cases hstep).notesLogged
  | checkpoint order =>
      cases hev

/-- A checkpoint leaves the log as it is, or begins a new one. -/
theorem checkpointStep_walBin
    {order : List TaskID}
    (h : s.checkpointStep order = some s') :
    s'.disk.walBin = s.disk.walBin ∨ s'.disk.walBin = [] := by
  cases checkpointStep_cases h with
  | rename hpc =>
      exact Or.inr rfl
  | _ =>
      exact Or.inl rfl

end World

/-- The process, with the calls of `Append` since its start. -/
structure Journal (n m : Nat) where
  world : World n m
  notes : List Note

namespace Journal

variable {n m : Nat} {s s' : Journal n m}

/-- The transitions are those of the process. -/
def step (s : Journal n m) (ev : World.Event n m) : Option (Journal n m) :=
  (s.world.step ev).map fun world => { world := world, notes := s.notes ++ s.world.notes ev }

/-- The process after `Start`. -/
def start (e : Engine) (d : Engine.Disk) (order : List TaskID) : Journal n m where
  world := World.start e d order
  notes := []

theorem start_journaled
    {cfg : Engine.Config} {d : Engine.Disk} {order : List TaskID} {e : Engine}
    (h : Engine.Recovered cfg d order e) :
    World.Journaled order [] (World.start e d order : World n m) := by
  have hcustody : World.Custody (World.start e d order : World n m) := World.start_custody h
  have hphase : ∀ id, phaseOf order [] id = some (if id ∈ order then .waiting else .absent) :=
    fun _ => rfl
  refine ⟨hcustody, ?_, ?_, ?_, ?_⟩
  · intro p id hid
    have hknown : id ∈ order := hcustody.mem_issued hid
    refine ⟨.waiting, ?_, by rw [hphase, if_pos hknown]⟩
    cases p <;> exact List.mem_singleton_self _
  · intro id hid
    have hunknown : id ∉ order := hid
    rw [hphase, if_neg hunknown]
  · intro id
    rw [hphase]
    rfl
  · intro id hstarted
    rw [hphase] at hstarted
    split_ifs at hstarted <;> cases hstarted

/-- The log since the start has records of the calls only. -/
def Within (d : Engine.Disk) (s : Journal n m) : Prop :=
  (s.world.disk.walBin.map recordKey).Sublist
    (d.walBin.map recordKey ++ s.notes.map Note.key)

/-- It has those of all the calls that returned nil. -/
def Covers (d : Engine.Disk) (s : Journal n m) : Prop :=
  (d.walBin.map recordKey ++ (s.notes.filter Note.ok).map Note.key).Sublist
    (s.world.disk.walBin.map recordKey)

variable {d : Engine.Disk}

theorem step_within
    {ev : World.Event n m}
    (h : Within d s)
    (hstep : s.step ev = some s') :
    Within d s' := by
  obtain ⟨world, hworld, rfl⟩ := Option.map_eq_some_iff.mp hstep
  unfold Within
  rw [List.map_append, ← List.append_assoc]
  cases hev : ev.checkpoints with
  | false =>
      obtain ⟨written, hlog, hsub, -⟩ := (World.step_notesLogged hworld hev).written
      rw [hlog]
      exact List.Sublist.append h hsub
  | true =>
      have hold := h.trans (List.sublist_append_left _ ((s.world.notes ev).map Note.key))
      cases ev with
      | checkpoint order =>
          rcases World.checkpointStep_walBin hworld with hsame | hempty
          · rw [hsame]
            exact hold
          · rw [hempty]
            exact List.nil_sublist _
      | _ =>
          cases hev

theorem step_covers
    {ev : World.Event n m}
    (h : Covers d s)
    (hstep : s.step ev = some s')
    (hev : ev.checkpoints = false) :
    Covers d s' := by
  obtain ⟨world, hworld, rfl⟩ := Option.map_eq_some_iff.mp hstep
  obtain ⟨written, hlog, -, hsub⟩ := (World.step_notesLogged hworld hev).written
  unfold Covers
  rw [hlog, List.filter_append, List.map_append, ← List.append_assoc]
  exact List.Sublist.append h hsub

theorem run_covers
    {es : List (World.Event n m)}
    (hrun : Run step (fun _ _ => True) s es s')
    (hes : ∀ ev ∈ es, ev.checkpoints = false)
    (h : Covers d s) :
    Covers d s' := by
  induction hrun with
  | nil =>
      exact h
  | cons _ hstep _ ih =>
      obtain ⟨hev, hrest⟩ := List.forall_mem_cons.mp hes
      exact ih hrest (step_covers h hstep hev)

/--
In all interleavings, with checkpoints and with I/O errors, the calls of `Append` for every task
follow the protocol `Phase.after`, and a task is started without an outcome if and only if a
worker is at it.  The log has nothing but records of these calls, in their order, behind what it
had at the start; and in a run without a checkpoint it has those of all the calls that returned
nil.
-/
theorem appends_follow_protocol
    {cfg : Engine.Config} {d : Engine.Disk} {order : List TaskID} {e : Engine}
    (h : Engine.Recovered cfg d order e)
    (es : List (World.Event n m)) (s : Journal n m)
    (hrun : Run step (fun _ _ => True) (start e d order) es s) :
    (∀ id, ∃ phase,
      (notesOf s.notes id).foldlM (fun p x => p.after x.type x.ok)
        (if id ∈ order then Phase.waiting else .absent) = some phase ∧
      (phase = .started ↔ ∃ w, id ∈ (s.world.workers w).attempting)) ∧
    (s.world.disk.walBin.map recordKey).Sublist
      (d.walBin.map recordKey ++ s.notes.map Note.key) ∧
    ((∀ ev ∈ es, ev.checkpoints = false) →
      (d.walBin.map recordKey ++ (s.notes.filter Note.ok).map Note.key).Sublist
        (s.world.disk.walBin.map recordKey)) := by
  obtain ⟨hjournaled, hwithin⟩ : World.Journaled order s.notes s.world ∧ Within d s := by
    refine hrun.invariant (fun s => World.Journaled order s.notes s.world ∧ Within d s) ?_
      ⟨start_journaled h, by simp [Within, start, World.start]⟩
    rintro s ev s' ⟨hjournaled, hwithin⟩ - hstep
    refine ⟨?_, step_within hwithin hstep⟩
    obtain ⟨world, hworld, rfl⟩ := Option.map_eq_some_iff.mp hstep
    exact World.step_journaled hjournaled hworld
  refine ⟨?_, hwithin, ?_⟩
  · intro id
    obtain ⟨phase, hphase⟩ := Option.isSome_iff_exists.mp (hjournaled.allowed id)
    refine ⟨phase, hphase, ?_⟩
    constructor
    · rintro rfl
      exact hjournaled.attempted id hphase
    · rintro ⟨w, hw⟩
      have hworker := hjournaled.phase_worker (World.attempting_subset _ hw)
      rw [hphase, Option.some.injEq] at hworker
      rw [hworker]
      generalize s.world.workers w = pc at hw
      cases pc <;> simp_all [WorkerPc.attempting, WorkerPc.phase]
  · intro hes
    exact run_covers hrun hes (by simp [Covers, start, World.start])

/-- The first attempt at a task fails. -/
def failsAtFirst : List (World.Event 1 1) :=
  World.wholeSubmit 0 Task.zero "a" 10 ++ World.wholeStart 0 20 ++
    List.replicate 3 (.worker 0 (.noError 30 100) (some ⟨"busy", false⟩) 1000)

theorem appends_follow_protocol_failsAtFirst :
    ∃ s : Journal 1 1,
      Run step (fun _ _ => True)
        (start (System.initial System.roomyConfig).engine Engine.Disk.empty []) failsAtFirst s ∧
      s.notes = [⟨"a", .enqueue, true⟩, ⟨"a", .start, true⟩, ⟨"a", .retry, true⟩] ∧
      s.world.disk.walBin.map recordKey = [("a", .enqueue), ("a", .start), ("a", .retry)] := by
  obtain ⟨s, hrun, hnotes⟩ :=
    Lib.exists_run_of_exec step (fun _ _ => True)
      (fun s => s.notes = [⟨"a", .enqueue, true⟩, ⟨"a", .start, true⟩, ⟨"a", .retry, true⟩])
      (start (System.initial System.roomyConfig).engine Engine.Disk.empty [])
      failsAtFirst (by decide +kernel)
  obtain ⟨-, hwithin, hcovers⟩ :=
    appends_follow_protocol (World.recovered_initial System.roomyConfig) failsAtFirst s hrun
  have hall := hcovers (by decide)
  rw [hnotes] at hwithin hall
  exact ⟨s, hrun, hnotes, hwithin.antisymm hall⟩

end Journal
end TaskQueue
