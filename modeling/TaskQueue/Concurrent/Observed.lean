import Mathlib.Tactic
import TaskQueue.Concurrent.Rotation

/-!
# Outcomes that a client has seen

`GetTask` reads the state of a task in memory, which every operation changes before it
appends the record.  A client can therefore see a task completed whose record is not yet
in the log, or never gets there; after a kill the task is pending and runs again
(`seen_rolledBack`).  `seen_kept` shows that an outcome is never taken back, over any
number of kills, if `GetTask` reads it only after its `Append` has returned nil.
-/

namespace TaskQueue

open Queue
open Wal (Log LogEnv LogRecord Snapshot)
open Engine (Disk Loads)

namespace World

variable {n m : Nat}

/-- `New`, `Recover` and `Start` in the next process; the records of outcomes stay known. -/
def restart (s : World n m) (cfg : Engine.Config) (order : List TaskID) :
    Option (World n m) :=
  match Engine.recover cfg s.disk order with
  | .ok e =>
      if Engine.enumeratesLoaded cfg s.disk order = true then
        some { start e s.disk order with reported := s.reported }
      else
        none
  | _ => none

theorem restart_some
    {s s' : World n m} {cfg : Engine.Config} {order : List TaskID}
    (h : s.restart cfg order = some s') :
    ∃ e, Engine.Recovered cfg s.disk order e ∧
      s' = { start e s.disk order with reported := s.reported } := by
  unfold restart at h
  cases hrec : Engine.recover cfg s.disk order with
  | ok e =>
      simp only [hrec] at h
      split_ifs at h with henum
      exact ⟨e, ⟨hrec, henum⟩, (Option.some.inj h).symm⟩
  | replayFailed err =>
      simp [hrec] at h
  | blocked =>
      simp [hrec] at h

/-- The next process finds what the last one has reported, and keeps it. -/
theorem restart_durable
    {s s' : World n m} {cfg : Engine.Config} {order : List TaskID}
    (h : Durable s)
    (hstep : s.restart cfg order = some s')
    (hcounter : CounterAhead s'.engine s'.disk) :
    Durable s' := by
  obtain ⟨e, hrec, rfl⟩ := restart_some hstep
  have hstart : Durable (start e s.disk order : World n m) := start_durable hrec hcounter
  have hagree := hstart.enrolled.agreement
  have hcustody := hagree.custody
  -- Nothing but the last two clauses looks at the reports.
  refine ⟨⟨⟨⟨hcustody.exclusive, hcustody.registered, hcustody.indexed, hcustody.named⟩,
    hagree.states, hagree.checked, hagree.unwritten, hagree.marked, hagree.cancelled,
    hagree.prompt⟩, hstart.enrolled.named, hstart.enrolled.accepted⟩, ?_,
    ⟨hstart.numbered.records, hstart.numbered.snapshots, hstart.numbered.closed⟩, ?_, ?_⟩
  · intro id x hx
    exact ⟨(h.crashSafe.2 cfg order e hrec).2 id x hx, (h.reported id x hx).2⟩
  · intro d hd cfg'
    have hdisk : d = s.disk := List.mem_singleton.mp hd
    obtain ⟨loaded, last, hload, hknown⟩ := hstart.current d hd cfg'
    obtain ⟨loaded', last', hload', hknown'⟩ := h.current s.disk (mem_current_disk s) cfg'
    rw [hdisk] at hload
    rw [hload] at hload'
    cases hload'
    rw [hdisk]
    exact ⟨loaded, last, hload, hknown.tasks, hknown'.states⟩
  · intro d hd
    cases hd

theorem mem_report
    {s : World n m} {o : TaskID × TaskState}
    (ho : o ∈ s.reported)
    (id : TaskID) (state : TaskState) (ok : Bool) :
    o ∈ (s.report id state ok).reported := by
  cases ok with
  | false =>
      exact ho
  | true =>
      exact List.mem_cons_of_mem _ ho

/-- A report is not withdrawn. -/
theorem step_reported
    {s s' : World n m} {e : Event n m} {o : TaskID × TaskState}
    (hstep : s.step e = some s')
    (ho : o ∈ s.reported) :
    o ∈ s'.reported := by
  cases e with
  | worker w env result delay =>
      cases workerStep_cases hstep <;> first
        | exact ho
        | exact mem_report ho _ _ _
  | scheduler now =>
      obtain ⟨-, -, -, -, hreported, -⟩ := (schedulerStep_cases hstep).history
      rw [hreported]
      exact ho
  | submit c task generatedID now =>
      rcases submitStep_cases hstep with rfl | ⟨-, -, -, rfl⟩ <;> exact ho
  | cancel c id now =>
      rcases cancelStep_cases hstep with rfl | ⟨-, t, -, -, rfl⟩ <;> exact ho
  | call c env =>
      cases callStep_cases hstep <;> first
        | exact ho
        | exact mem_report ho _ _ _
  | checkpoint order =>
      rw [(checkpointStep_unmoved hstep).reported]
      exact ho

/-- No worker is between `Dequeue` and the end of the handler with a task at its end. -/
theorem Agreement.not_running
    {s : World n m} {id : TaskID} {x : TaskState}
    (h : Agreement True s)
    (hstate : s.engine.stateOf id = some x)
    (hx : x.isLive = false)
    (w : Fin n) :
    id ∉ (s.workers w).runs := by
  intro hruns
  have hholds := (s.workers w).runs_sublist.subset hruns
  have hexpects : s.engine.stateOf id = (s.workers w).expects := h.states (.worker w) id hholds
  rw [hstate] at hexpects
  cases hpc : s.workers w <;> rw [hpc] at hruns hexpects
  case dequeued =>
    cases hexpects
    cases hx
  case marked =>
    cases hexpects
    cases hx
  case starting =>
    cases hexpects
    cases hx
  case executing =>
    cases hexpects
    cases hx
  all_goals
    cases hruns

end World

/-- The process, over its restarts, with the outcomes that `GetTask` has returned. -/
structure Watched (n m : Nat) where
  world : World n m
  observed : List (TaskID × TaskState)

namespace Watched

open World (Event CounterAhead)

variable {n m : Nat}

/-- A step of a thread, a call of `GetTask`, or a kill with the next start. -/
inductive Action (n m : Nat)
  | act (e : Event n m)
  | getTask (id : TaskID)
  | kill (cfg : Engine.Config) (order : List TaskID)

/-- The states that a client takes for the end of a task. -/
def isOutcome : TaskState → Bool
  | .completed | .dead | .cancelled => true
  | _ => false

/-- The first process, on an empty directory. -/
def initial (cfg : Engine.Config) : Watched n m where
  world := World.initial cfg
  observed := []

/-- `GetTask`. -/
def getTask (s : Watched n m) (id : TaskID) : Watched n m :=
  match s.world.engine.stateOf id with
  | some x => if isOutcome x then { s with observed := (id, x) :: s.observed } else s
  | none => s

/-- The transitions. -/
def step (s : Watched n m) : Action n m → Option (Watched n m)
  | .act e => (s.world.step e).map fun world => { s with world := world }
  | .getTask id => some (s.getTask id)
  | .kill cfg order => (s.world.restart cfg order).map fun world => { s with world := world }

/-- The outcomes that were seen stand, and no worker has taken such a task again. -/
def SeenStands (s : Watched n m) : Prop :=
  ∀ id x, (id, x) ∈ s.observed →
    s.world.engine.stateOf id = some x ∧ ∀ w, id ∉ (s.world.workers w).runs

/--
The condition on a step: the threads are orderly, and a record appended during a
checkpoint says nothing that the snapshot does not have; an outcome is read only after
the `Append` of its record has returned nil; and the log of the next process does not
count from below its snapshot and its records.
-/
def Settled (s : Watched n m) : Action n m → Prop
  | .act e => s.world.Orderly e ∧ s.world.Captures e
  | .getTask id =>
      ∀ x ∈ s.world.engine.stateOf id, isOutcome x = true → (id, x) ∈ s.world.reported
  | .kill cfg order => ∀ t ∈ s.world.restart cfg order, CounterAhead t.engine t.disk

/-- The invariant: what was seen has been reported, and the reports are durable. -/
structure Backed (s : Watched n m) : Prop where
  durable : World.Durable s.world
  reported : ∀ o ∈ s.observed, o ∈ s.world.reported

theorem Backed.seenStands
    {s : Watched n m}
    (h : Backed s) :
    SeenStands s := by
  intro id x hx
  obtain ⟨hstate, hlive⟩ := h.durable.reported id x (h.reported (id, x) hx)
  exact ⟨hstate, h.durable.enrolled.agreement.not_running hstate hlive⟩

theorem step_backed
    (s : Watched n m) (a : Action n m) (s' : Watched n m)
    (h : Backed s)
    (hok : s.Settled a)
    (hstep : s.step a = some s') :
    Backed s' := by
  cases a with
  | act e =>
      obtain ⟨world, hworld, rfl⟩ := Option.map_eq_some_iff.mp hstep
      refine ⟨World.step_durable s.world e world h.durable hok hworld, ?_⟩
      intro o ho
      exact World.step_reported hworld (h.reported o ho)
  | getTask id =>
      cases hstep
      unfold getTask
      cases hstate : s.world.engine.stateOf id with
      | none =>
          exact h
      | some x =>
          dsimp only
          split_ifs with hx
          · refine ⟨h.durable, ?_⟩
            intro o ho
            rcases List.mem_cons.mp ho with rfl | hold
            · exact hok x hstate hx
            · exact h.reported o hold
          · exact h
  | kill cfg order =>
      obtain ⟨world, hworld, rfl⟩ := Option.map_eq_some_iff.mp hstep
      refine ⟨World.restart_durable h.durable hworld (hok world hworld), ?_⟩
      obtain ⟨e, -, rfl⟩ := World.restart_some hworld
      exact h.reported

theorem backed_initial
    (cfg : Engine.Config) :
    Backed (initial cfg : Watched n m) where
  durable := World.start_durable (World.recovered_initial cfg)
    ⟨Nat.zero_le _, fun r hr => by cases hr⟩
  reported := fun o ho => by cases ho

/--
In every run, with any number of kills, whose steps all meet the condition, a task that
`GetTask` has returned as completed, dead or cancelled stays in that state, and no worker
takes it again.
-/
theorem seen_kept
    (cfg : Engine.Config) (as : List (Action n m)) (s : Watched n m)
    (hrun : Lib.Run step Settled (initial cfg) as s) :
    SeenStands s :=
  (hrun.invariant Backed step_backed (backed_initial cfg)).seenStands

instance (s : Watched n m) (a : Action n m) : Decidable (s.Settled a) :=
  match a with
  | .act e => inferInstanceAs (Decidable (s.world.Orderly e ∧ s.world.Captures e))
  | .getTask id =>
      inferInstanceAs (Decidable (∀ x ∈ s.world.engine.stateOf id,
        isOutcome x = true → (id, x) ∈ s.world.reported))
  | .kill cfg order =>
      inferInstanceAs (Decidable (∀ t ∈ s.world.restart cfg order,
        t.disk.snapSeq ≤ t.engine.walLog.seq ∧
          ∀ r ∈ t.disk.walBin, r.entry.seq ≤ t.engine.walLog.seq))

/-- A task is submitted, and the handler returns nil; the state is changed in memory. -/
def completedInMemory : List (Action 1 1) :=
  (World.wholeSubmit 0 Task.zero "a" 10 ++ World.wholeStart 0 20 ++
    List.replicate 2 (Event.worker 0 (.noError 30 100) none 0)).map .act

/-- The record is appended, a client reads the state, and the process is killed. -/
def seenThenKilled : List (Action 1 1) :=
  completedInMemory ++
    [.act (.worker 0 (.noError 40 100) none 0), .getTask "a",
      .kill System.roomyConfig ["a"], .getTask "a"]

theorem seen_kept_seenThenKilled :
    ∃ s : Watched 1 1,
      Lib.Run step Settled (initial System.roomyConfig) seenThenKilled s ∧
      s.observed = [("a", .completed), ("a", .completed)] ∧ SeenStands s := by
  obtain ⟨s, hrun, hseen⟩ := Lib.exists_run_of_exec step Settled
    (fun s : Watched 1 1 => s.observed = [("a", .completed), ("a", .completed)])
    (initial System.roomyConfig) seenThenKilled (by decide +kernel)
  exact ⟨s, hrun, hseen, seen_kept System.roomyConfig seenThenKilled s hrun⟩

/-- A client reads the state before the record is appended; after the kill a worker starts. -/
def seenTooEarly : List (Action 1 1) :=
  completedInMemory ++ [.getTask "a", .kill System.roomyConfig ["a"]] ++
    (World.wholeStart 0 50).map .act

/-- The task that was seen completed is running again. -/
theorem seen_rolledBack :
    ∃ s : Watched 1 1,
      Lib.Run step (fun _ _ => True) (initial System.roomyConfig) seenTooEarly s ∧
      s.observed = [("a", .completed)] ∧ s.world.workers 0 = .executing "a" ∧
      ¬ SeenStands s := by
  obtain ⟨s, hrun, hseen, hpc⟩ := Lib.exists_run_of_exec step (fun _ _ => True)
    (fun s : Watched 1 1 => s.observed = [("a", .completed)] ∧
      s.world.workers 0 = .executing "a")
    (initial System.roomyConfig) seenTooEarly (by decide +kernel)
  refine ⟨s, hrun, hseen, hpc, ?_⟩
  intro hstands
  have hruns := (hstands "a" .completed (by rw [hseen]; exact List.mem_cons_self)).2 0
  rw [hpc] at hruns
  exact hruns List.mem_cons_self

end Watched
end TaskQueue
