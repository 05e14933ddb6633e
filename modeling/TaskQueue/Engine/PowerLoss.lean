import Mathlib.Tactic
import TaskQueue.Engine.Acknowledged
import TaskQueue.Engine.Files

/-!
# Power loss around a checkpoint

A power cut leaves of a file what has been fsynced; of the rest any part may be missing at
its end, also after a rename.  With `sync_policy` "every" the records of the log have been
fsynced, but `WriteSnapshot` never calls `Sync`, and the log is moved away as soon as
`snapshot.json` has its name.  A snapshot that comes back cut short stops `Recover`
(`powerCut_losesTasks`).  `recoverable_iff` shows that this is all that can go wrong.
-/

namespace TaskQueue

open Lib (GoMap)
open Queue
open Wal (Log LogEnv LogRecord Snapshot)

namespace Engine

/-- A file that was never fsynced, after a power cut. -/
def CutShort (file file' : Option SnapshotFile) : Prop :=
  file' = file ∨ (file.isSome = true ∧ file' = some .torn)

/-- What a power cut leaves: the records of the logs have been fsynced, the snapshots not. -/
structure PowerCut (dir dir' : Directory) : Prop where
  snapshotTmp : CutShort dir.snapshotTmp dir'.snapshotTmp
  snapshotJson : CutShort dir.snapshotJson dir'.snapshotJson
  walBin : dir'.walBin = dir.walBin
  walOld : dir'.walOld = dir.walOld

/-- `Recover` can read the directory and finds the tasks in it. -/
def Recoverable (dir : Directory) (ids : List TaskID) : Prop :=
  ∃ d, dir.read = .ok d ∧ Loads d (HasTasks (· ∈ ids))

/-- A snapshot that is whole comes from the directory before the cut. -/
theorem PowerCut.read
    {dir dir' : Directory}
    (h : PowerCut dir dir')
    (hwhole : dir'.snapshotJson ≠ some .torn) :
    dir'.read = dir.read := by
  have hjson : dir'.snapshotJson = dir.snapshotJson :=
    h.snapshotJson.resolve_right fun htorn => hwhole htorn.2
  unfold Directory.read Directory.readSnapshot
  rw [hjson, h.walBin, h.walOld]

theorem not_recoverable_of_torn
    {dir : Directory} {ids : List TaskID}
    (h : dir.snapshotJson = some .torn) :
    ¬ Recoverable dir ids := by
  rintro ⟨d, hread, -⟩
  simp [Directory.read, Directory.readSnapshot, h] at hread

end Engine

namespace System

open Engine (Directory HasTasks Loads PowerCut Recoverable)

/--
The accepted tasks can be read back from the directory as it was, and from the new snapshot
with the old log or an empty one.
-/
theorem Kept.recoverable_of_read
    {s : System}
    (h : Kept s)
    {order : List TaskID}
    (horder : s.engine.tasks.Enumerates order)
    {dir : Directory}
    (hread : dir.read = .ok s.disk ∨
      (∃ old, dir.read = .ok ⟨some (s.engine.takeSnapshot order), s.disk.walBin, old⟩) ∨
      (∃ old, dir.read = .ok ⟨some (s.engine.takeSnapshot order), [], old⟩)) :
    Recoverable dir s.acked := by
  have hacked : Loads s.disk (HasTasks (· ∈ s.acked)) :=
    h.loadable.mono fun _ he => he.mono fun _ => Or.inl
  have hsnapshot : ∀ cfg, ∀ id ∈ s.acked, (((Engine.new cfg).loadSnapshot
      (some (s.engine.takeSnapshot order))).tasks.get id).isSome = true := by
    intro cfg id hid
    have hsome := h.live id (Or.inl hid)
    rw [Engine.get_loadSnapshot (fun id t ht => (h.sound.named id t ht).1),
      if_pos ⟨horder.mem.mpr hsome, hsome⟩, Option.isSome_map]
    exact hsome
  obtain ⟨loaded, last, hload, -⟩ := h.loadable s.engine.cfg
  have hacceptable : ∀ r ∈ s.disk.walBin, Engine.Acceptable r.entry := by
    intro r hr htype
    exact Engine.loadTasks_acceptable hload r hr (h.numbered r hr htype) htype
  rcases hread with hread | ⟨old, hread⟩ | ⟨old, hread⟩
  · exact ⟨s.disk, hread, hacked⟩
  · refine ⟨_, hread, Engine.Loads.of_records (Wal.replayRecords_readable hload)
      hacceptable hsnapshot ?_ old⟩
    intro e entry e' he happly id hid
    exact Engine.applyEntry_isSome happly (he id hid)
  · exact ⟨_, hread, fun cfg => ⟨_, 0, rfl, hsnapshot cfg⟩⟩

/-- Whatever files a checkpoint has got to, the accepted tasks can be read back. -/
theorem Kept.crashPoint
    {s : System}
    (h : Kept s)
    {order : List TaskID}
    (horder : s.engine.tasks.Enumerates order)
    {dir dir' : Directory}
    (hdir : dir.read = .ok s.disk)
    (hcrash : dir' ∈ Engine.crashPoints dir (s.engine.checkpointOps order)) :
    Recoverable dir' s.acked := by
  apply h.recoverable_of_read horder
  rcases Engine.crashPoint_read hdir hcrash with hread | hread | hread
  · exact Or.inl hread
  · exact Or.inr (Or.inl hread)
  · exact Or.inr (Or.inr ⟨s.disk.walBin, hread⟩)

/--
The tasks that were accepted before a checkpoint survive a power cut at any point of it,
or after it, exactly if `snapshot.json` comes back whole.
-/
theorem recoverable_iff
    (cfg : Engine.Config) (es : List Event) (s : System)
    (hrun : Lib.Run step Numbered (initial cfg) es s)
    (order : List TaskID)
    (horder : s.engine.tasks.Enumerates order)
    (dir : Directory)
    (hdir : dir.read = .ok s.disk)
    (dir₁ : Directory)
    (hcrash : dir₁ ∈ Engine.crashPoints dir (s.engine.checkpointOps order))
    (dir₂ : Directory)
    (hcut : PowerCut dir₁ dir₂) :
    Recoverable dir₂ s.acked ↔ dir₂.snapshotJson ≠ some .torn := by
  have hkept := hrun.invariant Kept step_kept (kept_initial cfg)
  constructor
  · intro hrecoverable htorn
    exact Engine.not_recoverable_of_torn htorn hrecoverable
  · intro hwhole
    obtain ⟨d, hread, hloadable⟩ := hkept.crashPoint horder hdir hcrash
    exact ⟨d, (hcut.read hwhole).trans hread, hloadable⟩

/-- One task is accepted. -/
def oneAccepted : List Event :=
  [.submit Task.zero "a" 10 300]

/-- The directory after all operations of a checkpoint. -/
def afterCheckpoint (s : System) (order : List TaskID) : Directory :=
  (s.engine.checkpointOps order).foldl Engine.FileOp.apply s.disk.directory

theorem afterCheckpoint_mem
    (s : System) (order : List TaskID) :
    s.afterCheckpoint order ∈
      Engine.crashPoints s.disk.directory (s.engine.checkpointOps order) := by
  simp [afterCheckpoint, Engine.crashPoints, Engine.checkpointOps, Engine.writeSnapshotOps,
    Engine.rotateOps]

theorem recoverable_iff_oneAccepted :
    ∃ s, Lib.Run step Numbered (initial roomyConfig) oneAccepted s ∧ s.acked = ["a"] ∧
      Recoverable (s.afterCheckpoint ["a"]) s.acked := by
  obtain ⟨s, hrun, hacked, horder, hwhole⟩ :=
    Lib.exists_run_of_exec step Numbered
      (fun s => s.acked = ["a"] ∧ s.engine.tasks.Enumerates ["a"] ∧
        (s.afterCheckpoint ["a"]).snapshotJson ≠ some .torn)
      (initial roomyConfig) oneAccepted (by decide +kernel)
  refine ⟨s, hrun, hacked, ?_⟩
  exact (recoverable_iff roomyConfig oneAccepted s hrun ["a"] horder s.disk.directory
    (Engine.read_directory s.disk) _ (s.afterCheckpoint_mem ["a"]) _
    ⟨Or.inl rfl, Or.inl rfl, rfl, rfl⟩).mpr hwhole

/-- The accepted tasks survive every power cut during a checkpoint or after it. -/
def SurvivesPowerCut (s : System) : Prop :=
  ∀ order, s.engine.tasks.Enumerates order → ∀ dir, Directory.read dir = .ok s.disk →
    ∀ dir₁ ∈ Engine.crashPoints dir (s.engine.checkpointOps order),
      ∀ dir₂, PowerCut dir₁ dir₂ → Recoverable dir₂ s.acked

/-- The power fails after the checkpoint, before the snapshot has reached the disk. -/
theorem powerCut_losesTasks :
    ∃ s, Lib.Run step (fun _ _ => True) (initial roomyConfig) oneAccepted s ∧
      s.acked = ["a"] ∧ ¬ s.SurvivesPowerCut := by
  obtain ⟨s, hrun, hacked, horder, hjson⟩ :=
    Lib.exists_run_of_exec step (fun _ _ => True)
      (fun s => s.acked = ["a"] ∧ s.engine.tasks.Enumerates ["a"] ∧
        (s.afterCheckpoint ["a"]).snapshotJson.isSome = true)
      (initial roomyConfig) oneAccepted (by decide +kernel)
  refine ⟨s, hrun, hacked, ?_⟩
  intro hsurvives
  have hcut : PowerCut (s.afterCheckpoint ["a"])
      { s.afterCheckpoint ["a"] with snapshotJson := some .torn } :=
    ⟨Or.inl rfl, Or.inr ⟨hjson, rfl⟩, rfl, rfl⟩
  exact Engine.not_recoverable_of_torn rfl
    (hsurvives ["a"] horder s.disk.directory (Engine.read_directory s.disk) _
      (s.afterCheckpoint_mem ["a"]) _ hcut)

end System
end TaskQueue
