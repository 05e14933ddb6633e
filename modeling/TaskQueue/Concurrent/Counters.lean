import Mathlib.Tactic
import TaskQueue.Lib.Ledger
import TaskQueue.Concurrent.Holders

/-!
# The counters

The process with the counters of `Stats` and of the metrics collector: those of the engine
(under `metricsMu`), of the pool (under its own lock) and of the collector (atomic).  A
counter is raised in a step of its own, some time after what it counts; in between the other
goroutines go on.  What a goroutine still has to count is a list of `Tick`s in the order of
the source.

The equations between the counters (`Books`) hold for the totals, which take what is still
owed into account, together with the workers that are in the middle of an iteration.  When
nothing is owed and all workers are idle they hold for the counters themselves.  The 64-bit
counters are integers here.  The gauge `BusyWorkers` of the collector is left out: nothing in
the repository writes to it.
-/

namespace TaskQueue

open Lib (Ledger Run)
open Queue
open Wal (Log LogEnv LogRecord Snapshot)
open Engine (HandlerError)

/-- The counters of the engine, of the pool and of the collector. -/
inductive Counter
  | enqueueCount
  | completeCount
  | failCount
  | retryCount
  | deadCount
  | busyWorkers
  | processed
  | failed
  | enqueueTotal
  | dequeueTotal
  | completeTotal
  | failTotal
  | retryTotal
  | deadTotal
  | queueDepth
deriving DecidableEq, Repr

/-- One write to the counters. -/
inductive Tick
  | up (c : Counter)
  | down (c : Counter)
  /-- The last block of a worker: `busyWorkers--`, `processed++`, and `failed++` on an error. -/
  | poolDone (failed : Bool)
deriving DecidableEq, Repr

/-- What a write adds to a counter. -/
@[simp]
def Tick.delta : Tick → Counter → Int
  | .up c, c' => if c' = c then 1 else 0
  | .down c, c' => if c' = c then -1 else 0
  | .poolDone _, .busyWorkers => -1
  | .poolDone _, .processed => 1
  | .poolDone true, .failed => 1
  | .poolDone _, _ => 0

/-- What a worker counts between the step from one place to another and its next step. -/
@[simp]
def WorkerPc.ticks : WorkerPc → WorkerPc → List Tick
  | .idle, _ => [.up .busyWorkers]
  | .starting _, _ => [.up .dequeueTotal, .down .queueDepth]
  | .executing _, .returned _ none => [.up .completeTotal]
  | .executing _, _ => [.up .failTotal, .up .failCount]
  | .completing _, _ => [.up .completeCount, .poolDone false]
  | .burying _ _, _ => [.up .deadCount, .up .deadTotal, .poolDone true]
  | .repushing _ _, _ => [.up .retryCount, .up .retryTotal, .poolDone true]
  | _, _ => []

/-- What a `Submit` counts when it succeeds. -/
def submitTicks : List Tick :=
  [.up .enqueueCount, .up .enqueueTotal, .up .queueDepth]

namespace WorkerPc

/-- The worker has a task, and its last block is still to come. -/
@[simp]
def engaged : WorkerPc → Int
  | .idle => 0
  | .checking _ _ => 0
  | .writing _ _ => 0
  | _ => 1

/-- The worker is in the user handler. -/
@[simp]
def inHandler : WorkerPc → Int
  | .executing _ => 1
  | _ => 0

/-- The handler has returned nil, and `handleSuccess` is still at work. -/
@[simp]
def succeeding : WorkerPc → Int
  | .returned _ none => 1
  | .completing _ => 1
  | _ => 0

/-- The handler has failed, and `handleFailure` is still at work. -/
@[simp]
def failing : WorkerPc → Int
  | .returned _ (some _) => 1
  | .dying _ _ => 1
  | .burying _ _ => 1
  | .retrying _ _ => 1
  | .repushing _ _ => 1
  | _ => 0

end WorkerPc

/-- The process with its counters. -/
structure Counted (n m : Nat) where
  world : World n m
  ledger : Ledger (Fin n ⊕ Fin m) Counter Tick

namespace Counted

variable {n m : Nat}

/-- A step of the process, or the next write of a goroutine to the counters. -/
inductive Event (n m : Nat)
  | world (ev : World.Event n m)
  | count (i : Fin n ⊕ Fin m)

/-- What the goroutine counts after a step. -/
def ticks (before after : World n m) : World.Event n m → List Tick
  | .worker w _ _ _ => (before.workers w).ticks (after.workers w)
  | .call _ _ => if before.accepted.length < after.accepted.length then submitTicks else []
  | _ => []

/-- The counters after a step of the process; a goroutine counts before its next step. -/
def chargeFor (l : Ledger (Fin n ⊕ Fin m) Counter Tick) (before after : World n m)
    (ev : World.Event n m) : Ledger (Fin n ⊕ Fin m) Counter Tick :=
  match ev.actor with
  | some i => l.charge i (ticks before after ev)
  | none => l

/-- The goroutine that makes the step has counted everything. -/
def Free (s : Counted n m) (ev : World.Event n m) : Bool :=
  ev.actor.all fun i => s.ledger.dues i = []

/-- The transitions. -/
def step (s : Counted n m) : Event n m → Option (Counted n m)
  | .world ev =>
      if s.Free ev then
        (s.world.step ev).map fun world => ⟨world, chargeFor s.ledger s.world world ev⟩
      else
        none
  | .count i => (s.ledger.post Tick.delta i).map fun ledger => ⟨s.world, ledger⟩

/-- The process after `Start`: all counters are zero. -/
def start (e : Engine) (d : Engine.Disk) (ids : List TaskID) : Counted n m where
  world := World.start e d ids
  ledger := ⟨fun _ => 0, fun _ => []⟩

/-- A sum over the workers. -/
def overWorkers (s : World n m) (f : WorkerPc → Int) : Int :=
  ∑ w, f (s.workers w)

end Counted

/--
What the equations between the counters are about: the counters, how many workers are in
which part of an iteration, the dead letters and the tasks whose `Submit` has succeeded; or
by how much a step changes each of them.
-/
structure Sheet where
  count : Counter → Int
  engaged : Int
  inHandler : Int
  succeeding : Int
  failing : Int
  deadLetters : Int
  accepted : Int

namespace Sheet

/-- A sheet after a change. -/
def add (a b : Sheet) : Sheet where
  count := fun c => a.count c + b.count c
  engaged := a.engaged + b.engaged
  inHandler := a.inHandler + b.inHandler
  succeeding := a.succeeding + b.succeeding
  failing := a.failing + b.failing
  deadLetters := a.deadLetters + b.deadLetters
  accepted := a.accepted + b.accepted

/-- Nothing is counted. -/
def zero : Sheet := ⟨fun _ => 0, 0, 0, 0, 0, 0, 0⟩

/-- The equations between the counters. -/
structure Closes (a : Sheet) : Prop where
  busy : a.count .busyWorkers = a.engaged
  dequeued : a.count .dequeueTotal = a.count .completeTotal + a.count .failTotal + a.inHandler
  completed : a.count .completeTotal = a.count .completeCount + a.succeeding
  failures : a.count .failCount = a.count .deadCount + a.count .retryCount + a.failing
  processed : a.count .processed =
    a.count .completeCount + a.count .deadCount + a.count .retryCount
  failed : a.count .failed = a.count .deadCount + a.count .retryCount
  failTotal : a.count .failTotal = a.count .failCount
  deadTotal : a.count .deadTotal = a.count .deadCount
  retryTotal : a.count .retryTotal = a.count .retryCount
  dead : a.count .deadCount = a.deadLetters
  enqueued : a.count .enqueueCount = a.accepted
  enqueueTotal : a.count .enqueueTotal = a.count .enqueueCount
  depth : a.count .queueDepth = a.count .enqueueTotal - a.count .dequeueTotal

theorem closes_zero : zero.Closes := by
  constructor <;> rfl

/-- The equations are linear. -/
theorem Closes.add
    {a b : Sheet}
    (ha : a.Closes)
    (hb : b.Closes) :
    (a.add b).Closes := by
  obtain ⟨a1, a2, a3, a4, a5, a6, a7, a8, a9, a10, a11, a12, a13⟩ := ha
  obtain ⟨b1, b2, b3, b4, b5, b6, b7, b8, b9, b10, b11, b12, b13⟩ := hb
  constructor <;> simp only [Sheet.add] <;> omega

end Sheet

namespace Counted

variable {n m : Nat}

/-- The sheet of a state, with what is still owed; `buried` dead letters are from before. -/
def sheet (buried : Nat) (s : Counted n m) : Sheet where
  count := fun c => s.ledger.total Tick.delta c
  engaged := overWorkers s.world WorkerPc.engaged
  inHandler := overWorkers s.world WorkerPc.inHandler
  succeeding := overWorkers s.world WorkerPc.succeeding
  failing := overWorkers s.world WorkerPc.failing
  deadLetters := s.world.engine.dlq.length - buried
  accepted := s.world.accepted.length

theorem sheet_start
    (e : Engine) (d : Engine.Disk) (ids : List TaskID) :
    (start e d ids : Counted n m).sheet e.dlq.length = Sheet.zero := by
  simp [sheet, start, Sheet.zero, Ledger.total, overWorkers, World.start, WorkerPc.engaged,
    WorkerPc.inHandler, WorkerPc.succeeding, WorkerPc.failing]

variable {s s' : Counted n m} {buried : Nat}

/-- A write to the counters does not change the sheet. -/
theorem sheet_count
    {i : Fin n ⊕ Fin m} {ledger : Ledger (Fin n ⊕ Fin m) Counter Tick}
    (h : s.ledger.post Tick.delta i = some ledger) :
    (⟨s.world, ledger⟩ : Counted n m).sheet buried = s.sheet buried := by
  simp only [sheet, Ledger.total_post Tick.delta h]

/-- By how much the step of a worker changes the sheet. -/
def workerSheet (before after : WorkerPc) (deadLetters : Int) : Sheet where
  count := Ledger.due Tick.delta (before.ticks after)
  engaged := after.engaged - before.engaged
  inHandler := after.inHandler - before.inHandler
  succeeding := after.succeeding - before.succeeding
  failing := after.failing - before.failing
  deadLetters := deadLetters
  accepted := 0

/-- What a worker counts after a step balances where it goes. -/
theorem workerSheet_closes
    {world world' : World n m} {w : Fin n} {env : LogEnv}
    (h : World.WorkerStep world w env world') :
    (workerSheet (world.workers w) (world'.workers w)
      (world'.engine.dlq.length - world.engine.dlq.length)).Closes := by
  cases h with
  | @handle id result hpc =>
      cases result <;> constructor <;> simp [workerSheet, hpc, World.toWorker]
  | @write id result hpc =>
      cases result <;> constructor <;>
        simp [workerSheet, hpc, World.toWorker, Engine.poolWrite, Engine.updateTask]
  | @retry id err nextAt hpc hfinal =>
      constructor <;>
        simp [workerSheet, hpc, World.toWorker, Engine.markRetry, Engine.updateTask]
  | _ hpc =>
      constructor <;>
        simp [workerSheet, hpc, World.toWorker, World.report, World.handlerStarts,
          Engine.pushDLQ, Engine.append, Engine.markRunning, Engine.markCompleted,
          Engine.markDead, Engine.updateTask, Engine.pushHeap]

/-- A sum over the workers after a step of one of them. -/
theorem overWorkers_worker
    {world world' : World n m} {w : Fin n} {env : LogEnv}
    (h : World.WorkerStep world w env world')
    (f : WorkerPc → Int) :
    overWorkers world' f =
      overWorkers world f + (f (world'.workers w) - f (world.workers w)) := by
  have hworkers : world'.workers = Function.update world.workers w (world'.workers w) := by
    refine Function.eq_update_iff.mpr ⟨rfl, ?_⟩
    intro v hv
    exact h.acted.workers v (by simp [Ne.symm hv])
  rw [overWorkers, hworkers, Lib.sum_update, Function.update_self]
  rfl

/-- A sum over the workers after a step that is not one of theirs. -/
theorem overWorkers_other
    {world world' : World n m}
    (h : ∀ w, world'.workers w = world.workers w)
    (f : WorkerPc → Int) :
    overWorkers world' f = overWorkers world f := by
  simp only [overWorkers, h]

theorem sheet_worker
    {world : World n m} {w : Fin n} {env : LogEnv} {result : Option HandlerError}
    {delay : Duration}
    (hfree : s.ledger.dues (.inl w) = [])
    (hstep : s.world.step (.worker w env result delay) = some world) :
    (⟨world, chargeFor s.ledger s.world world (.worker w env result delay)⟩ :
        Counted n m).sheet buried =
      (s.sheet buried).add (workerSheet (s.world.workers w) (world.workers w)
        (world.engine.dlq.length - s.world.engine.dlq.length)) := by
  have hworker := World.workerStep_cases hstep
  have haccepted : world.accepted = s.world.accepted := hworker.history.2.1
  simp only [sheet, Sheet.add, workerSheet, chargeFor, World.Event.actor, ticks,
    Ledger.total_charge Tick.delta hfree, overWorkers_worker hworker, haccepted, add_zero,
    Sheet.mk.injEq, true_and, and_true]
  ring

/-- What the equations are about is left alone by all but the workers and the clients. -/
structure SameSheet (world world' : World n m) : Prop where
  workers : ∀ w, world'.workers w = world.workers w
  dlq : world'.engine.dlq = world.engine.dlq
  accepted : world'.accepted = world.accepted

/-- A step after which nothing is counted. -/
theorem sheet_quiet
    {world : World n m} {ev : World.Event n m}
    (hfree : s.Free ev = true)
    (hticks : ticks s.world world ev = [])
    (hsame : SameSheet s.world world) :
    (⟨world, chargeFor s.ledger s.world world ev⟩ : Counted n m).sheet buried =
      s.sheet buried := by
  have htotal : ∀ c, (chargeFor s.ledger s.world world ev).total Tick.delta c =
      s.ledger.total Tick.delta c := by
    intro c
    unfold chargeFor
    cases hactor : ev.actor with
    | none =>
        rfl
    | some i =>
        have hdues : s.ledger.dues i = [] := by
          simpa [Free, hactor] using hfree
        simp only [hticks, Ledger.total_charge Tick.delta hdues, Ledger.due_nil, add_zero]
  simp only [sheet, htotal, overWorkers_other hsame.workers, hsame.dlq, hsame.accepted]

/-- What a client changes, and what the `Submit` that succeeds with the step counts. -/
theorem callStep_frame
    {world world' : World n m} {c : Fin m} {env : LogEnv}
    (h : World.CallStep world c env world') :
    world'.engine.dlq = world.engine.dlq ∧
      (world'.accepted = world.accepted ∨ ∃ id, world'.accepted = id :: world.accepted) := by
  cases h with
  | @push id hpc =>
      exact ⟨rfl, Or.inr ⟨id, rfl⟩⟩
  | @enqueue id rb hpc henq =>
      exact ⟨rfl, Or.inr ⟨id, rfl⟩⟩
  | _ =>
      exact ⟨rfl, Or.inl rfl⟩

/-- By how much a `Submit` that succeeds changes the sheet. -/
def submitSheet : Sheet :=
  { Sheet.zero with count := Ledger.due Tick.delta submitTicks, accepted := 1 }

theorem submitSheet_closes : submitSheet.Closes := by
  constructor <;> decide

theorem sheet_submit
    {world : World n m} {c : Fin m} {env : LogEnv} {id : TaskID}
    (hfree : s.ledger.dues (.inr c) = [])
    (hworkers : ∀ w, world.workers w = s.world.workers w)
    (hdlq : world.engine.dlq = s.world.engine.dlq)
    (haccepted : world.accepted = id :: s.world.accepted) :
    (⟨world, chargeFor s.ledger s.world world (.call c env)⟩ : Counted n m).sheet buried =
      (s.sheet buried).add submitSheet := by
  simp [sheet, Sheet.add, submitSheet, Sheet.zero, chargeFor, World.Event.actor, ticks,
    Ledger.total_charge Tick.delta hfree, overWorkers_other hworkers, hdlq, haccepted]

theorem scheduler_sameSheet
    {world world' : World n m} {now : Time}
    (h : World.SchedulerStep world now world') :
    SameSheet world world' := by
  cases h <;> exact ⟨fun _ => rfl, rfl, rfl⟩

theorem submit_sameSheet
    {world world' : World n m} {c : Fin m} {task : Task} {generatedID : TaskID} {now : Time}
    (h : world.submitStep c task generatedID now = some world') :
    SameSheet world world' := by
  rcases World.submitStep_cases h with rfl | ⟨-, -, -, rfl⟩ <;>
    exact ⟨fun _ => rfl, rfl, rfl⟩

theorem cancel_sameSheet
    {world world' : World n m} {c : Fin m} {id : TaskID} {now : Time}
    (h : world.cancelStep c id now = some world') :
    SameSheet world world' := by
  rcases World.cancelStep_cases h with rfl | ⟨-, t, -, -, rfl⟩ <;>
    exact ⟨fun _ => rfl, rfl, rfl⟩

theorem checkpoint_sameSheet
    {world world' : World n m} {order : List TaskID}
    (h : world.checkpointStep order = some world') :
    SameSheet world world' := by
  cases World.checkpointStep_cases h <;> exact ⟨fun _ => rfl, rfl, rfl⟩

/-- Every step keeps the equations. -/
theorem step_closes
    (s : Counted n m) (ev : Event n m) (s' : Counted n m)
    (h : (s.sheet buried).Closes)
    (hstep : s.step ev = some s') :
    (s'.sheet buried).Closes := by
  cases ev with
  | count i =>
      obtain ⟨ledger, hpost, rfl⟩ := Option.map_eq_some_iff.mp hstep
      rw [sheet_count hpost]
      exact h
  | world ev =>
      simp only [step] at hstep
      split_ifs at hstep with hfree
      obtain ⟨world, hworld, rfl⟩ := Option.map_eq_some_iff.mp hstep
      cases ev with
      | worker w env result delay =>
          have hdues : s.ledger.dues (.inl w) = [] := by
            simpa [Free, World.Event.actor] using hfree
          rw [sheet_worker hdues hworld]
          exact h.add (workerSheet_closes (World.workerStep_cases hworld))
      | scheduler now =>
          rw [sheet_quiet hfree rfl (scheduler_sameSheet (World.schedulerStep_cases hworld))]
          exact h
      | submit c task generatedID now =>
          rw [sheet_quiet hfree rfl (submit_sameSheet hworld)]
          exact h
      | cancel c id now =>
          rw [sheet_quiet hfree rfl (cancel_sameSheet hworld)]
          exact h
      | call c env =>
          have hcall := World.callStep_cases hworld
          have hworkers := fun w => hcall.acted.workers w (by simp)
          obtain ⟨hdlq, hsame | ⟨id, hid⟩⟩ := callStep_frame hcall
          · rw [sheet_quiet hfree (by simp [ticks, hsame]) ⟨hworkers, hdlq, hsame⟩]
            exact h
          · have hdues : s.ledger.dues (.inr c) = [] := by
              simpa [Free, World.Event.actor] using hfree
            rw [sheet_submit hdues hworkers hdlq hid]
            exact h.add submitSheet_closes
      | checkpoint order =>
          rw [sheet_quiet hfree rfl (checkpoint_sameSheet hworld)]
          exact h

/-! ### The number of busy workers -/

/-- However much of the list is still to be counted, it has counted as busy `limit` times at most. -/
def BusyWithin (limit engaged : Int) (entries : List Tick) : Prop :=
  ∀ rest, rest <:+ entries →
    0 ≤ engaged - Ledger.due Tick.delta rest .busyWorkers ∧
      engaged - Ledger.due Tick.delta rest .busyWorkers ≤ limit

theorem BusyWithin.tail
    {limit engaged : Int} {entry : Tick} {entries : List Tick}
    (h : BusyWithin limit engaged (entry :: entries)) :
    BusyWithin limit engaged entries :=
  fun rest hrest => h rest (hrest.trans (List.suffix_cons _ _))

/-- What a goroutine adds to the number of busy workers; a client adds nothing. -/
def engagement (world : World n m) : Fin n ⊕ Fin m → Int
  | .inl w => (world.workers w).engaged
  | .inr _ => 0

/-- A worker counts as busy once at most, a client never. -/
def limit : Fin n ⊕ Fin m → Int
  | .inl _ => 1
  | .inr _ => 0

/-- Every goroutine counts as busy as often as it may. -/
def Within (s : Counted n m) : Prop :=
  ∀ i, BusyWithin (limit i) (engagement s.world i) (s.ledger.dues i)

/-- After its step, a worker that has counted part of what it has to is busy or not. -/
theorem workerStep_busyWithin
    {world world' : World n m} {w : Fin n} {env : LogEnv}
    (h : World.WorkerStep world w env world') :
    BusyWithin 1 (world'.workers w).engaged ((world.workers w).ticks (world'.workers w)) := by
  cases h with
  | @handle id result hpc =>
      cases result <;> simp [BusyWithin, hpc, World.toWorker, List.suffix_cons_iff]
  | @retry id err nextAt hpc hfinal =>
      simp [BusyWithin, hpc, World.toWorker]
  | _ hpc =>
      simp [BusyWithin, hpc, World.toWorker, World.report, World.handlerStarts,
        List.suffix_cons_iff]

/-- A client is never a busy worker. -/
theorem submitTicks_busyWithin : BusyWithin 0 0 submitTicks := by
  simp [BusyWithin, submitTicks, List.suffix_cons_iff]

theorem nil_busyWithin : BusyWithin 0 0 [] := by
  intro rest hrest
  rw [List.suffix_nil.mp hrest]
  decide

theorem engagement_of_workers
    {world world' : World n m}
    (h : ∀ w, world'.workers w = world.workers w) :
    engagement world' = engagement world := by
  funext i
  cases i with
  | inl w =>
      simp only [engagement, h w]
  | inr c =>
      rfl

/-- A step of the process, from what the goroutine that makes it counts. -/
theorem Within.charge
    {world : World n m} {ev : World.Event n m}
    (h : Within s)
    (hself : ∀ i, ev.actor = some i →
      BusyWithin (limit i) (engagement world i) (ticks s.world world ev))
    (hother : ∀ i, ev.actor ≠ some i → engagement world i = engagement s.world i) :
    Within ⟨world, chargeFor s.ledger s.world world ev⟩ := by
  intro i
  unfold chargeFor
  by_cases hi : ev.actor = some i
  · simp only [hi, Ledger.charge, Function.update_self]
    exact hself i hi
  · have hdues : (match ev.actor with
        | some j => s.ledger.charge j (ticks s.world world ev)
        | none => s.ledger).dues i = s.ledger.dues i := by
      cases hactor : ev.actor with
      | none =>
          rfl
      | some j =>
          refine Function.update_of_ne ?_ _ _
          rintro rfl
          exact hi hactor
    simp only [hother i hi, hdues]
    exact h i

/-- A step that is not one of a worker. -/
theorem Within.others
    {world : World n m} {ev : World.Event n m}
    (h : Within s)
    (hactor : ∀ w, ev.actor ≠ some (.inl w))
    (hworkers : ∀ w, world.workers w = s.world.workers w)
    (hticks : BusyWithin 0 0 (ticks s.world world ev)) :
    Within ⟨world, chargeFor s.ledger s.world world ev⟩ := by
  refine h.charge ?_ fun i _ => by rw [engagement_of_workers hworkers]
  intro i hi
  cases i with
  | inl w =>
      exact absurd hi (hactor w)
  | inr c =>
      exact hticks

theorem step_within
    (s : Counted n m) (ev : Event n m) (s' : Counted n m)
    (h : Within s)
    (hstep : s.step ev = some s') :
    Within s' := by
  cases ev with
  | count i =>
      obtain ⟨ledger, hpost, rfl⟩ := Option.map_eq_some_iff.mp hstep
      obtain ⟨entry, entries, hdues, rfl⟩ := Ledger.post_cases Tick.delta hpost
      intro j
      by_cases hj : j = i
      · subst hj
        have hbusy := h j
        rw [hdues] at hbusy
        simp only [Function.update_self]
        exact hbusy.tail
      · simp only [Function.update_of_ne hj]
        exact h j
  | world ev =>
      simp only [step] at hstep
      split_ifs at hstep with hfree
      obtain ⟨world, hworld, rfl⟩ := Option.map_eq_some_iff.mp hstep
      cases ev with
      | worker w env result delay =>
          have hworker := World.workerStep_cases hworld
          refine h.charge ?_ ?_
          · rintro i ⟨rfl⟩
            exact workerStep_busyWithin hworker
          · intro i hi
            cases i with
            | inl v =>
                have hv : v ≠ w := by
                  rintro rfl
                  exact hi rfl
                simp only [engagement, hworker.acted.workers v (by simp [hv.symm])]
            | inr c =>
                rfl
      | scheduler now =>
          exact h.others (by simp [World.Event.actor])
            (scheduler_sameSheet (World.schedulerStep_cases hworld)).workers nil_busyWithin
      | submit c task generatedID now =>
          exact h.others (by simp [World.Event.actor]) (submit_sameSheet hworld).workers
            nil_busyWithin
      | cancel c id now =>
          exact h.others (by simp [World.Event.actor]) (cancel_sameSheet hworld).workers
            nil_busyWithin
      | call c env =>
          have hcall := World.callStep_cases hworld
          refine h.others (by simp [World.Event.actor])
            (fun w => hcall.acted.workers w (by simp)) ?_
          simp only [ticks]
          split_ifs
          · exact submitTicks_busyWithin
          · exact nil_busyWithin
      | checkpoint order =>
          exact h.others (by simp [World.Event.actor]) (checkpoint_sameSheet hworld).workers
            nil_busyWithin

/-- Between none and all of the workers are busy. -/
theorem Within.busyWorkers
    (h : Within s)
    (hcloses : (s.sheet buried).Closes) :
    0 ≤ s.ledger.counters .busyWorkers ∧ s.ledger.counters .busyWorkers ≤ n := by
  have hcounter : s.ledger.counters .busyWorkers =
      ∑ i, (engagement s.world i - Ledger.due Tick.delta (s.ledger.dues i) .busyWorkers) := by
    have hbusy : s.ledger.counters .busyWorkers +
        ∑ i, Ledger.due Tick.delta (s.ledger.dues i) .busyWorkers =
          overWorkers s.world WorkerPc.engaged := hcloses.busy
    have hengaged : ∑ i, engagement s.world i = overWorkers s.world WorkerPc.engaged := by
      simp [Fintype.sum_sum_type, engagement, overWorkers]
    rw [Finset.sum_sub_distrib, hengaged]
    omega
  have hlimit : ∑ i : Fin n ⊕ Fin m, limit i = n := by
    simp [Fintype.sum_sum_type, limit]
  have hone := fun i => h i _ List.suffix_rfl
  rw [hcounter]
  constructor
  · exact Finset.sum_nonneg fun i _ => (hone i).1
  · rw [← hlimit]
    exact Finset.sum_le_sum fun i _ => (hone i).2

theorem within_start
    (e : Engine) (d : Engine.Disk) (ids : List TaskID) :
    Within (start e d ids : Counted n m) := by
  intro i rest hrest
  rw [List.suffix_nil.mp hrest]
  cases i with
  | inl w =>
      simp [engagement, limit, start, World.start]
  | inr c =>
      simp [engagement, limit]

/-- Nothing is owed to the counters, and no worker is in an iteration. -/
def AtRest (s : Counted n m) : Prop :=
  s.ledger.Settled ∧ ∀ w, s.world.workers w = .idle

/-- What the counters say when the process is at rest; `before` dead letters were there. -/
structure Consistent (before : Nat) (s : Counted n m) : Prop where
  idle : s.ledger.counters .busyWorkers = 0
  processed : s.ledger.counters .processed =
    s.ledger.counters .completeCount + s.ledger.counters .failCount
  failures : s.ledger.counters .failCount =
    s.ledger.counters .retryCount + s.ledger.counters .deadCount
  failed : s.ledger.counters .failed = s.ledger.counters .failCount
  completeTotal : s.ledger.counters .completeTotal = s.ledger.counters .completeCount
  failTotal : s.ledger.counters .failTotal = s.ledger.counters .failCount
  retryTotal : s.ledger.counters .retryTotal = s.ledger.counters .retryCount
  deadTotal : s.ledger.counters .deadTotal = s.ledger.counters .deadCount
  dequeueTotal : s.ledger.counters .dequeueTotal = s.ledger.counters .processed
  enqueueCount : s.ledger.counters .enqueueCount = s.world.accepted.length
  enqueueTotal : s.ledger.counters .enqueueTotal = s.world.accepted.length
  queueDepth : s.ledger.counters .queueDepth =
    s.world.accepted.length - s.ledger.counters .processed
  deadLetters : s.world.engine.dlq.length = before + s.ledger.counters .deadCount

theorem AtRest.consistent
    (h : s.AtRest)
    (hcloses : (s.sheet buried).Closes) :
    Consistent buried s := by
  have htotal := Ledger.total_of_settled Tick.delta h.1
  have hsum : ∀ f : WorkerPc → Int, f .idle = 0 → overWorkers s.world f = 0 := by
    intro f hf
    simp [overWorkers, h.2, hf]
  obtain ⟨h1, h2, h3, h4, h5, h6, h7, h8, h9, h10, h11, h12, h13⟩ := hcloses
  simp only [sheet, htotal, hsum WorkerPc.engaged rfl, hsum WorkerPc.inHandler rfl,
    hsum WorkerPc.succeeding rfl, hsum WorkerPc.failing rfl]
    at h1 h2 h3 h4 h5 h6 h7 h8 h9 h10 h11 h12 h13
  constructor <;> omega

/--
In every interleaving the counters of `Stats` and of the collector agree with each other
and with what has happened.  The totals, with what the goroutines still have to count, meet
all equations in every state; the number of busy workers lies between zero and the number
of workers; and when the process is at rest the counters themselves meet the equations.
-/
theorem counters_agree
    (e : Engine) (d : Engine.Disk) (ids : List TaskID)
    (es : List (Event n m)) (s : Counted n m)
    (hrun : Run step (fun _ _ => True) (start e d ids) es s) :
    (s.sheet e.dlq.length).Closes ∧
      (0 ≤ s.ledger.counters .busyWorkers ∧ s.ledger.counters .busyWorkers ≤ n) ∧
      (s.AtRest → Consistent e.dlq.length s) := by
  have hcloses : (s.sheet e.dlq.length).Closes := by
    refine hrun.invariant (fun s => (s.sheet e.dlq.length).Closes)
      (fun s ev s' h _ hstep => step_closes s ev s' h hstep) ?_
    rw [sheet_start]
    exact Sheet.closes_zero
  have hwithin : Within s :=
    hrun.invariant Within (fun s ev s' h _ hstep => step_within s ev s' h hstep)
      (within_start e d ids)
  exact ⟨hcloses, hwithin.busyWorkers hcloses, fun hrest => hrest.consistent hcloses⟩

/-- A task is submitted, fails for good on the first attempt, and everything is counted. -/
def submittedAndBuried : List (Event 1 1) :=
  let work : Event 1 1 :=
    .world (.worker 0 (.noError 20 100) (some ⟨"bad input", true⟩) 0)
  (World.wholeSubmit 0 Task.zero "a" 10).map .world ++ List.replicate 3 (.count (.inr 0)) ++
    [work, .count (.inl 0), work, work, work] ++ List.replicate 2 (.count (.inl 0)) ++
    [work] ++ List.replicate 2 (.count (.inl 0)) ++ [work, work, work] ++
    List.replicate 3 (.count (.inl 0)) ++ [work]

theorem counters_agree_buried :
    ∃ s : Counted 1 1,
      Run step (fun _ _ => True)
        (start (System.initial System.roomyConfig).engine Engine.Disk.empty [])
        submittedAndBuried s ∧
      (s.ledger.counters .processed = 1 ∧ s.ledger.counters .deadCount = 1) ∧
      Consistent 0 s := by
  obtain ⟨s, hrun, hrest, hcounts⟩ :=
    Lib.exists_run_of_exec step (fun _ _ => True)
      (fun s : Counted 1 1 =>
        ((∀ i, s.ledger.dues i = []) ∧ ∀ w, s.world.workers w = .idle) ∧
          s.ledger.counters .processed = 1 ∧ s.ledger.counters .deadCount = 1)
      (start (System.initial System.roomyConfig).engine Engine.Disk.empty [])
      submittedAndBuried (by decide +kernel)
  exact ⟨s, hrun, hcounts,
    (counters_agree (System.initial System.roomyConfig).engine Engine.Disk.empty []
      submittedAndBuried s hrun).2.2 hrest⟩

end Counted
end TaskQueue
