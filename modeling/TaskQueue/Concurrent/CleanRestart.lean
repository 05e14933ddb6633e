import Mathlib.Tactic
import TaskQueue.Concurrent.Shutdown
import TaskQueue.Concurrent.Transitions

/-!
# A clean restart forgets nothing

`main` stops the HTTP server before it calls `Shutdown`, so that no `Submit` and no `CancelTask`
is under way.  When `Shutdown` returns nil, after a last checkpoint that went through, the workers
have finished what they had, in any interleaving with the scheduler and the checkpoint goroutine:
no task is running (`Settling.running`), and the snapshot has the registry as it is in memory,
with the outcomes whose records failed to be logged as well.  So the next process finds every
task as this one left it, and counts no attempt that was not made.
-/

namespace TaskQueue

open Lib (Run Consistent)
open Queue
open Wal (Log LogEnv Snapshot)

namespace World

variable {n m : Nat} {s s' : World n m}

/-- What is known of the tasks and their holders depends on these parts of the process. -/
theorem Standing.same
    (h : Standing s)
    (htasks : s'.engine.tasks = s.engine.tasks)
    (hheap : s'.engine.heap = s.engine.heap)
    (hholdings : s'.holdings = s.holdings)
    (hadmits : s'.admits = s.admits)
    (hworkers : s'.workers = s.workers)
    (hissued : s'.issued = s.issued) :
    Standing s' := by
  have hstate : s'.engine.stateOf = s.engine.stateOf := by
    funext id
    simp only [Engine.stateOf, htasks]
  obtain ⟨⟨hexclusive, hregistered, hindexed, hnamed⟩, hstates, hcompleted, hunwritten,
    hunretried⟩ := h
  refine ⟨⟨?_, ?_, ?_, ?_⟩, ?_, ?_, ?_, ?_⟩
  · rwa [hholdings]
  · intro p id hid
    rw [hholdings] at hid
    rw [htasks]
    exact hregistered hid
  · rwa [hheap]
  · intro id t ht
    rw [htasks] at ht
    rw [hissued]
    exact hnamed id t ht
  · rwa [hholdings, hstate, hadmits]
  · rwa [hworkers, hissued, hholdings, hstate]
  · rwa [hworkers]
  · rwa [hworkers, hstate]

/-- A task that is running is in the hands of a worker. -/
def RunningHeld (s : World n m) : Prop :=
  ∀ id, s.engine.stateOf id = some .running → ∃ w, id ∈ (s.workers w).holds

/-- The task that a worker gives out of its hands is not running. -/
theorem WorkerStep.drops
    {w : Fin n} {env : LogEnv}
    (hstep : WorkerStep s w env s')
    (h : Standing s)
    {id : TaskID}
    (hid : id ∈ (s.workers w).holds)
    (hid' : id ∉ (s'.workers w).holds) :
    s'.engine.stateOf id ≠ some .running := by
  have hadmitted : ∀ {x}, s.engine.stateOf id = some x → x ∈ (s.workers w).admits :=
    fun hx => h.admitted (p := .worker w) hid hx
  intro hrun
  cases hstep with
  | logComplete hpc | bury hpc | repush hpc =>
      have hmem := hadmitted hrun
      rw [hpc] at hmem
      simp [WorkerPc.admits, waiting] at hmem
  | _ =>
      simp_all [toWorker, handlerStarts, report, WorkerPc.holds]

theorem workerStep_runningHeld
    {w : Fin n} {env : LogEnv}
    (h : Standing s)
    (hrunning : RunningHeld s)
    (hstep : WorkerStep s w env s') :
    RunningHeld s' := by
  intro id hrun
  by_cases hid' : id ∈ (s'.workers w).holds
  · exact ⟨w, hid'⟩
  · have hid : id ∉ (s.workers w).holds := fun hid => hstep.drops h hid hid' hrun
    obtain ⟨w₀, hw₀⟩ := hrunning id (hstep.written.1 hrun hid)
    have hne : w₀ ≠ w := by
      rintro rfl
      exact hid hw₀
    refine ⟨w₀, ?_⟩
    rwa [hstep.acted.workers w₀ (by simpa using Ne.symm hne)]

/-- No other thread makes a task run. -/
theorem step_runningHeld
    {ev : Event n m}
    (h : Standing s)
    (hrunning : RunningHeld s)
    (hstep : s.step ev = some s') :
    RunningHeld s' := by
  have hothers : s'.workers = s.workers →
      (∀ id, s'.engine.stateOf id = some .running → s.engine.stateOf id = some .running) →
      RunningHeld s' := by
    intro hworkers hwritten id hrun
    rw [hworkers]
    exact hrunning id (hwritten id hrun)
  cases ev with
  | worker w env result delay =>
      exact workerStep_runningHeld h hrunning (workerStep_cases hstep)
  | scheduler now =>
      have hsched := schedulerStep_cases hstep
      refine hothers ?_ fun id hrun => hsched.written.1 hrun
      funext w
      exact hsched.acted.workers w (by simp)
  | submit c task generatedID now =>
      rcases submitStep_registers hstep with ⟨rfl, -⟩ | hreg
      · exact hrunning
      · refine hothers ?_ ?_
        · funext w
          exact hreg.acted.workers w (by simp)
        · intro id hrun
          rw [hreg.engine] at hrun
          by_cases hid : id = (s.engine.prepare task generatedID now).id
          · rw [hid, Engine.stateOf_register_self] at hrun
            rcases s.engine.prepare_state task generatedID now with hs | hs <;>
              rw [hs] at hrun <;> cases hrun
          · rwa [Engine.stateOf_register_of_ne _ hid] at hrun
  | cancel c id now =>
      rcases cancelStep_cases hstep with rfl | ⟨-, t, -, -, rfl⟩
      · exact hrunning
      · refine hothers rfl ?_
        intro j hrun
        rcases (s.engine.cancelledAt_sets id now).same_or j with hsame | ⟨-, hcancelled⟩
        · exact hsame ▸ hrun
        · cases hrun.symm.trans hcancelled
  | call c env =>
      have hcall := callStep_cases hstep
      refine hothers ?_ ?_
      · funext w
        exact hcall.acted.workers w (by simp)
      · intro id hrun
        rcases hcall.stateOf_cases id with hsame | ⟨-, hnone⟩
        · exact hsame ▸ hrun
        · cases hrun.symm.trans hnone
  | checkpoint order =>
      have hsame := checkpointStep_unmoved hstep
      refine hothers hsame.workers ?_
      intro id hrun
      rwa [hsame.stateOf] at hrun

/-- The snapshot has the tasks of the registry. -/
def Snapped (s : World n m) (snap : Snapshot) : Prop :=
  ∃ (e : Engine) (order : List TaskID),
    e.tasks = s.engine.tasks ∧ e.tasks.Enumerates order ∧ snap = e.takeSnapshot order

/-- What the last checkpoint has saved when it is at the given place. -/
def SavedAt (s : World n m) : CheckpointPc → Prop
  | .idle => True
  | .copied snap => s.Snapped snap
  | .written => ∃ snap, s.disk.snapshot = some snap ∧ s.Snapped snap
  | .closed => ∃ snap, s.disk.snapshot = some snap ∧ s.Snapped snap
  | .renamed => ∃ snap, s.disk.snapshot = some snap ∧ s.Snapped snap ∧ s.disk.walBin = []

/-- The directory has the registry, and an empty log. -/
def Saved (s : World n m) : Prop :=
  ∃ snap, s.disk.snapshot = some snap ∧ s.Snapped snap ∧ s.disk.walBin = []

/-- A step of the last checkpoint, with nobody else there. -/
theorem checkpointStep_saved
    {order : List TaskID}
    (hstep : s.checkpointStep order = some s')
    (h : s.SavedAt s.checkpointer) :
    s'.checkpointer = .idle ∧ s'.Saved ∨
      s'.checkpointer ≠ .idle ∧ s'.SavedAt s'.checkpointer := by
  cases checkpointStep_cases hstep with
  | copy hpc horder =>
      exact Or.inr ⟨by simp, s.engine, order, rfl, horder, rfl⟩
  | @write snap hpc =>
      rw [hpc] at h
      exact Or.inr ⟨by simp, snap, rfl, h⟩
  | close hpc =>
      rw [hpc] at h
      exact Or.inr ⟨by simp, h⟩
  | rename hpc =>
      rw [hpc] at h
      obtain ⟨snap, hdisk, hsnap⟩ := h
      exact Or.inr ⟨by simp, snap, hdisk, hsnap, rfl⟩
  | reopen hpc =>
      rw [hpc] at h
      exact Or.inl ⟨rfl, h⟩

/-- What the next process loads. -/
theorem Saved.loadTasks
    (h : s.Saved)
    (hnamed : ∀ id t, s.engine.tasks.get id = some t → t.id = id)
    (cfg : Engine.Config) :
    ∃ loaded, Engine.loadTasks cfg s.disk = .ok (loaded, 0) ∧
      ∀ id, loaded.tasks.get id = (s.engine.tasks.get id).map Wal.throughSnapshot := by
  obtain ⟨snap, hdisk, ⟨e, order, htasks, horder, rfl⟩, hlog⟩ := h
  have hnamed' : ∀ id t, e.tasks.get id = some t → t.id = id := by
    rw [htasks]
    exact hnamed
  obtain ⟨loaded, hload, -, hget⟩ := Engine.loadTasks_checkpoint cfg hnamed' horder s.disk
  refine ⟨loaded, ?_, ?_⟩
  · rw [← hload]
    unfold Engine.loadTasks Engine.Disk.snapSeq
    rw [hdisk, hlog]
    rfl
  · intro id
    rw [hget id, htasks]

end World

namespace ShutdownPc

/-- All goroutines of the engine have returned. -/
def pastWait : ShutdownPc → Bool
  | .waited => true
  | .checkpointed => true
  | .returned => true
  | _ => false

/-- The last checkpoint has returned. -/
def pastCheckpoint : ShutdownPc → Bool
  | .checkpointed => true
  | .returned => true
  | _ => false

end ShutdownPc

namespace Lifecycle

variable {n m : Nat} {s s' : Lifecycle n m}

/-- No client is served after the wait for the goroutines, and the last checkpoint succeeds. -/
def ServerStopped (s : Lifecycle n m) : Event n m → Prop
  | .thread ev => ev.ofClient = true → s.shutdown.pastWait = false
  | .lastCheckpointFails => False
  | _ => True

instance (s : Lifecycle n m) (ev : Event n m) : Decidable (s.ServerStopped ev) :=
  match ev with
  | .thread _ => inferInstanceAs (Decidable (_ → _))
  | .lastCheckpointFails => instDecidableFalse
  | .schedulerReturns | .checkpointerReturns | .cancelContext | .closeBuffer | .stopPool
  | .waitDone | .timeout | .lastCheckpoint _ | .closeLog _ => instDecidableTrue

/-- What every run keeps. -/
structure Settling (s : Lifecycle n m) : Prop where
  draining : Draining s
  standing : World.Standing s.world
  running : World.RunningHeld s.world
  resting : s.checkpointing = false → s.shutdown ≠ .waited → s.world.checkpointer = .idle
  stopped : s.shutdown.pastWait = true →
    s.world.scheduler = .stopped ∧ s.checkpointing = false
  saving : s.shutdown = .waited → s.world.SavedAt s.world.checkpointer
  saved : s.shutdown.pastCheckpoint = true → s.world.Saved

/-- A step after which goroutines of the engine may still be there. -/
theorem settling_of_active
    (hdraining : Draining s')
    (hstanding : World.Standing s'.world)
    (hrunning : World.RunningHeld s'.world)
    (hactive : s'.shutdown.pastWait = false)
    (hresting : s'.checkpointing = false → s'.world.checkpointer = .idle) :
    Settling s' := by
  refine ⟨hdraining, hstanding, hrunning, fun hc _ => hresting hc, ?_, ?_, ?_⟩
  · intro hpast
    rw [hactive] at hpast
    cases hpast
  · intro hpc
    rw [hpc] at hactive
    cases hactive
  · intro hpast
    cases hpc : s'.shutdown <;> rw [hpc] at hpast hactive <;> simp_all [ShutdownPc.pastWait,
      ShutdownPc.pastCheckpoint]

theorem Settling.rests
    (h : Settling s)
    (hactive : s.shutdown.pastWait = false)
    (hc : s.checkpointing = false) :
    s.world.checkpointer = .idle := by
  refine h.resting hc ?_
  intro hpc
  rw [hpc] at hactive
  cases hactive

/-- A step of a worker is a look at the context, or a step of the process. -/
theorem WorkerMove.world
    {w : Fin n}
    (h : WorkerMove s w s') :
    s.life w ≠ .left ∧ s'.shutdown = s.shutdown ∧ s'.checkpointing = s.checkpointing ∧
      (s'.world = s.world ∨ ∃ env, World.WorkerStep s.world w env s'.world) := by
  cases h with
  | leaveByContext hlife hctx =>
      exact ⟨by simp [hlife], rfl, rfl, Or.inl rfl⟩
  | passCheck hlife hctx =>
      exact ⟨by simp [hlife], rfl, rfl, Or.inl rfl⟩
  | leaveByClosed hlife hpc hdeq =>
      exact ⟨by simp [hlife], rfl, rfl, Or.inl rfl⟩
  | take hlife hpc hdeq =>
      exact ⟨by simp [hlife], rfl, rfl, Or.inr ⟨.noError 0 0, .dequeue hpc hdeq⟩⟩
  | @iterate world env hlife hpc hstep =>
      exact ⟨by simp [hlife], rfl, rfl, Or.inr ⟨env, hstep⟩⟩

/-- The pool has stopped when all goroutines have returned. -/
theorem pastStop_of_pastWait
    {pc : ShutdownPc}
    (h : pc.pastWait = true) :
    pc.pastStop = true := by
  cases pc <;> first | rfl | cases h

theorem workerMove_settling
    {w : Fin n}
    (h : Settling s)
    (hmove : WorkerMove s w s') :
    Settling s' := by
  obtain ⟨hhere, hpc, hcheckpointing, hworld⟩ := hmove.world
  have hactive : s.shutdown.pastWait = false := by
    rw [Bool.eq_false_iff]
    intro hpast
    exact hhere (h.draining.left (pastStop_of_pastWait hpast) w)
  have hdraining := draining_workerMove h.draining hmove
  have hresting := h.rests hactive
  rw [← hpc] at hactive
  rw [← hcheckpointing] at hresting
  rcases hworld with hsame | ⟨env, hstep⟩
  · refine settling_of_active hdraining ?_ ?_ hactive ?_ <;> rw [hsame]
    · exact h.standing
    · exact h.running
    · exact hresting
  · refine settling_of_active hdraining (World.workerStep_standing h.standing hstep)
      (World.workerStep_runningHeld h.standing h.running hstep) hactive ?_
    rw [hstep.acted.checkpointer]
    exact hresting

/-- A step of another goroutine of the engine, or of a client. -/
theorem thread_settling
    {ev : World.Event n m} {world : World n m}
    (h : Settling s)
    (hdraining : Draining { s with world := world })
    (hactive : s.shutdown.pastWait = false)
    (hworld : s.world.step ev = some world)
    (hresting : s.checkpointing = false → world.checkpointer = .idle) :
    Settling { s with world := world } :=
  settling_of_active hdraining (World.step_standing s.world ev world h.standing hworld)
    (World.step_runningHeld h.standing h.running hworld) hactive hresting

/-- The steps of the other threads leave the checkpoint goroutine where it is. -/
theorem step_checkpointer
    {world world' : World n m} {ev : World.Event n m}
    (h : world.step ev = some world')
    (hev : ∀ order, ev ≠ .checkpoint order) :
    world'.checkpointer = world.checkpointer := by
  cases ev with
  | worker w env result delay =>
      exact (World.workerStep_cases h).acted.checkpointer
  | scheduler now =>
      exact (World.schedulerStep_cases h).acted.checkpointer
  | submit c task generatedID now =>
      rcases World.submitStep_registers h with ⟨rfl, -⟩ | hreg
      · rfl
      · exact hreg.acted.checkpointer
  | cancel c id now =>
      rcases World.cancelStep_cases h with rfl | ⟨-, t, -, -, rfl⟩ <;> rfl
  | call c env =>
      exact (World.callStep_cases h).acted.checkpointer
  | checkpoint order =>
      exact absurd rfl (hev order)

theorem step_thread_settling
    {ev : World.Event n m}
    (h : Settling s)
    (hok : s.ServerStopped (.thread ev))
    (hdraining : Draining s')
    (hstep : s.step (.thread ev) = some s') :
    Settling s' := by
  cases ev with
  | worker w env result delay =>
      exact workerMove_settling h (workerStep_moves hstep)
  | scheduler now =>
      obtain ⟨world, hworld, rfl⟩ := Option.map_eq_some_iff.mp hstep
      have hactive : s.shutdown.pastWait = false := by
        rw [Bool.eq_false_iff]
        intro hpast
        have hnone : s.world.step (.scheduler now) = none := by
          simp only [World.step, World.schedulerStep, (h.stopped hpast).1]
        rw [hnone] at hworld
        cases hworld
      refine thread_settling h hdraining hactive hworld ?_
      rw [step_checkpointer hworld (by simp)]
      exact h.rests hactive
  | submit c task generatedID now | cancel c id now | call c env =>
      obtain ⟨world, hworld, rfl⟩ := Option.map_eq_some_iff.mp hstep
      refine thread_settling h hdraining (hok rfl) hworld ?_
      rw [step_checkpointer hworld (by simp)]
      exact h.rests (hok rfl)
  | checkpoint order =>
      simp only [step] at hstep
      split_ifs at hstep with hcheckpointing
      obtain ⟨world, hworld, rfl⟩ := Option.map_eq_some_iff.mp hstep
      have hactive : s.shutdown.pastWait = false := by
        rw [Bool.eq_false_iff]
        intro hpast
        have hreturned := (h.stopped hpast).2
        rw [hcheckpointing] at hreturned
        cases hreturned
      refine thread_settling h hdraining hactive hworld ?_
      intro hreturned
      rw [hcheckpointing] at hreturned
      cases hreturned

theorem step_settling
    (s : Lifecycle n m) (ev : Event n m) (s' : Lifecycle n m)
    (h : Settling s)
    (hok : s.ServerStopped ev)
    (hstep : s.step ev = some s') :
    Settling s' := by
  have hdraining := step_draining s ev s' h.draining trivial hstep
  cases ev with
  | thread ev =>
      exact step_thread_settling h hok hdraining hstep
  | schedulerReturns =>
      simp only [step] at hstep
      split_ifs at hstep with hready
      cases hstep
      have hpc := hready.2
      have hactive : s.shutdown.pastWait = false := by
        rw [Bool.eq_false_iff]
        intro hpast
        rw [(h.stopped hpast).1] at hpc
        cases hpc
      refine settling_of_active hdraining (h.standing.same rfl rfl ?_ ?_ rfl rfl) h.running
        hactive (h.rests hactive)
      · funext p
        cases p <;> simp [World.holdings, hpc, SchedulerPc.holds]
      · funext p id
        cases p <;> simp [World.admits, hpc, SchedulerPc.admits]
  | checkpointerReturns =>
      simp only [step] at hstep
      split_ifs at hstep with hidle
      cases hstep
      exact ⟨hdraining, h.standing, h.running, fun _ _ => hidle.2,
        fun hpast => ⟨(h.stopped hpast).1, rfl⟩, h.saving, h.saved⟩
  | cancelContext =>
      simp only [step] at hstep
      split_ifs at hstep with hpc
      cases hstep
      exact settling_of_active hdraining h.standing h.running rfl (h.rests (by rw [hpc]; rfl))
  | closeBuffer =>
      simp only [step] at hstep
      split_ifs at hstep with hpc
      cases hstep
      refine settling_of_active hdraining (h.standing.same rfl rfl ?_ rfl rfl rfl) h.running rfl
        (h.rests (by rw [hpc]; rfl))
      funext p
      cases p <;> rfl
  | stopPool =>
      simp only [step] at hstep
      split_ifs at hstep with hpc
      cases hstep
      exact settling_of_active hdraining h.standing h.running rfl (h.rests (by rw [hpc.1]; rfl))
  | waitDone =>
      simp only [step] at hstep
      split_ifs at hstep with hpc
      cases hstep
      have hidle : s.world.checkpointer = .idle := h.rests (by rw [hpc.1]; rfl) hpc.2.2
      refine ⟨hdraining, h.standing, h.running, fun _ hne => absurd rfl hne,
        fun _ => hpc.2, ?_, ?_⟩
      · intro _
        show s.world.SavedAt s.world.checkpointer
        rw [hidle]
        trivial
      · intro hpast
        cases hpast
  | timeout =>
      simp only [step] at hstep
      split_ifs at hstep with hpc
      cases hstep
      exact settling_of_active hdraining h.standing h.running rfl (h.rests (by rw [hpc]; rfl))
  | lastCheckpoint order =>
      simp only [step] at hstep
      split_ifs at hstep with hpc
      obtain ⟨world, hworld, rfl⟩ := Option.map_eq_some_iff.mp hstep
      have hsame := World.checkpointStep_unmoved hworld
      have hstanding := World.checkpointStep_standing h.standing hworld
      have hrunning : World.RunningHeld world :=
        World.step_runningHeld h.standing h.running
          (show s.world.step (.checkpoint order) = some world from hworld)
      have hstopped : world.scheduler = .stopped ∧ s.checkpointing = false := by
        rw [hsame.scheduler]
        exact h.stopped (by rw [hpc]; rfl)
      rcases World.checkpointStep_saved hworld (h.saving hpc) with ⟨hidle, hsaved⟩ | ⟨hbusy, hat⟩
      · rw [if_pos hidle] at hdraining ⊢
        refine ⟨hdraining, hstanding, hrunning, fun _ _ => hidle, fun _ => hstopped, ?_,
          fun _ => hsaved⟩
        intro hpc'
        cases hpc'
      · rw [if_neg hbusy] at hdraining ⊢
        refine ⟨hdraining, hstanding, hrunning, fun _ hne => absurd rfl hne, fun _ => hstopped,
          fun _ => hat, ?_⟩
        intro hpast
        cases hpast
  | lastCheckpointFails =>
      cases hok
  | closeLog ok =>
      have hstanding : World.Standing
          { s.world with
            engine := { s.world.engine with walLog := s.world.engine.walLog.close } } := by
        refine h.standing.same rfl rfl ?_ rfl rfl rfl
        funext p
        cases p <;> rfl
      have hidle : s.shutdown = .checkpointed → s.world.checkpointer = .idle :=
        fun hpc => h.resting (h.stopped (by rw [hpc]; rfl)).2 (by simp [hpc])
      simp only [step] at hstep
      split_ifs at hstep with hpc hclosed <;> cases hstep
      · refine ⟨hdraining, hstanding, h.running, fun _ _ => hidle hpc,
          fun _ => h.stopped (by rw [hpc]; rfl), ?_, fun _ => h.saved (by rw [hpc]; rfl)⟩
        intro hpc'
        cases hpc'
      · exact settling_of_active hdraining hstanding h.running rfl (fun _ => hidle hpc)

theorem start_settling
    {cfg : Engine.Config} {d : Engine.Disk} {order : List TaskID} {e : Engine}
    (h : Engine.Recovered cfg d order e) :
    Settling (start e d order : Lifecycle n m) := by
  refine settling_of_active (draining_start e d order) (World.start_standing h) ?_ rfl
    (fun _ => rfl)
  intro id hrun
  obtain ⟨loaded, last, -, -, hall⟩ := h.restarted
  have hrun' : e.stateOf id = some .running := hrun
  rw [Engine.stateOf, hall.tasks id, Option.map_map] at hrun'
  obtain ⟨t, -, ht⟩ := Option.map_eq_some_iff.mp hrun'
  simp only [Function.comp_apply, Engine.requeue] at ht
  split_ifs at ht with hstate
  exact absurd ht hstate

/--
A clean restart forgets nothing.  In all interleavings of the goroutines with `Shutdown`, and
whichever calls of `Append` have failed: when `Shutdown` has returned nil, if no client was served
from the end of its wait for the goroutines on and the last checkpoint went through, no task is
running, the directory can be loaded, and every `Recover` of the next process gives exactly the
tasks that were in memory, as they come through a snapshot.
-/
theorem clean_restart_forgets_nothing
    {cfg : Engine.Config} {d : Engine.Disk} {order : List TaskID} {e : Engine}
    (h : Engine.Recovered cfg d order e)
    (es : List (Event n m)) (t : Lifecycle n m)
    (hrun : Run step ServerStopped (start e d order) es t)
    (hret : t.shutdown = .returned) :
    (∀ id, t.world.engine.stateOf id ≠ some .running) ∧
    ∀ cfg', (∃ loaded last, Engine.loadTasks cfg' t.world.disk = .ok (loaded, last)) ∧
      ∀ order' e', Engine.Recovered cfg' t.world.disk order' e' →
        ∀ id, e'.tasks.get id = (t.world.engine.tasks.get id).map Wal.throughSnapshot := by
  have hsettling : Settling t := hrun.invariant Settling step_settling (start_settling h)
  have hnotRunning : ∀ id, t.world.engine.stateOf id ≠ some .running := by
    intro id hrunning
    obtain ⟨w, hw⟩ := hsettling.running id hrunning
    have hleft : t.life w = .left := hsettling.draining.left (by rw [hret]; rfl) w
    rw [hsettling.draining.idle w (by simp [hleft])] at hw
    cases hw
  have hnamed : ∀ id t₀, t.world.engine.tasks.get id = some t₀ → t₀.id = id :=
    fun id t₀ ht₀ => (hsettling.standing.custody.named id t₀ ht₀).1
  refine ⟨hnotRunning, ?_⟩
  intro cfg'
  obtain ⟨loaded, hload, hget⟩ := (hsettling.saved (by rw [hret]; rfl)).loadTasks hnamed cfg'
  refine ⟨⟨loaded, 0, hload⟩, ?_⟩
  intro order' e' hrecovered id
  obtain ⟨loaded', last, hload', -, hall⟩ := hrecovered.restarted
  rw [hload] at hload'
  cases hload'
  rw [hall.tasks id, hget id]
  cases ht : t.world.engine.tasks.get id with
  | none =>
      rfl
  | some t₀ =>
      have hstate : (Wal.throughSnapshot t₀).state ≠ .running := by
        intro hs
        refine hnotRunning id ?_
        rw [Engine.stateOf, ht]
        exact congrArg some hs
      rw [Option.map_some, Option.map_some, Engine.requeue, if_neg hstate]

/-- The worker is at a task when the context is cancelled, and its last record is not written. -/
def completedUnlogged : List (Event 1 1) :=
  (World.wholeSubmit 0 Task.zero "a" 10).map .thread ++ List.replicate 7 (workerEvent 20) ++
    [.cancelContext, .closeBuffer,
      .thread (.worker 0 { LogEnv.noError 30 100 with outcome := .unwritten } none 0),
      workerEvent 30, workerEvent 30] ++
    wholeReturn ["a"]

theorem clean_restart_forgets_nothing_completedUnlogged :
    ∃ t : Lifecycle 1 1,
      Run step ServerStopped
        (start (System.initial System.roomyConfig).engine Engine.Disk.empty [])
        completedUnlogged t ∧
      t.world.reported = [] ∧
      ∀ cfg' order' e', Engine.Recovered cfg' t.world.disk order' e' →
        e'.stateOf "a" = some .completed := by
  obtain ⟨t, hrun, hret, hreported, hstate⟩ := Lib.exists_run_of_exec step ServerStopped
    (fun t : Lifecycle 1 1 => t.shutdown = .returned ∧ t.world.reported = [] ∧
      t.world.engine.stateOf "a" = some .completed)
    (start (System.initial System.roomyConfig).engine Engine.Disk.empty [])
    completedUnlogged (by decide +kernel)
  obtain ⟨-, hnext⟩ := clean_restart_forgets_nothing
    (World.recovered_initial System.roomyConfig) completedUnlogged t hrun hret
  refine ⟨t, hrun, hreported, ?_⟩
  intro cfg' order' e' hrecovered
  rw [Engine.stateOf, (hnext cfg').2 order' e' hrecovered "a", Option.map_map]
  exact hstate

end Lifecycle
end TaskQueue
