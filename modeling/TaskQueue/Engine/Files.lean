import Mathlib.Tactic
import TaskQueue.Engine.Requeue

/-!
# The files of a checkpoint

`Disk` is what `Recover` reads.  Here the directory is taken file by file, with
`snapshot.tmp` and with files that are missing or cut short, and `checkpoint` is the
sequence of the file operations of `WriteSnapshot` and `rotateWAL`.  A process that is
killed in a checkpoint leaves the directory as it is after some of the operations
(`crashPoints`); `crashPoint_read` says what `Recover` reads then, and
`checkpointOps_read` that all of the operations together are `checkpoint`.
-/

namespace TaskQueue

open Lib (GoMap)
open Queue
open Wal (Log LogEnv LogRecord Snapshot)

namespace Engine

/--
A file with a snapshot: its whole JSON text, or a proper prefix of it, which
`json.Unmarshal` refuses.
-/
inductive SnapshotFile
  | whole (snap : Snapshot)
  | torn
deriving DecidableEq

/-- The directory, file by file. -/
structure Directory where
  snapshotTmp : Option SnapshotFile
  snapshotJson : Option SnapshotFile
  walBin : Option (List (LogRecord EntryData))
  walOld : Option (List (LogRecord EntryData))
deriving DecidableEq

/-- `ReadSnapshot`. -/
def Directory.readSnapshot (dir : Directory) : Except String (Option Snapshot) :=
  match dir.snapshotJson with
  | none => .ok none
  | some (.whole snap) => .ok (some snap)
  | some .torn => .error "wal: unmarshal snapshot: unexpected end of JSON input"

/-- What `Recover` reads; a log that is missing is an empty one. -/
def Directory.read (dir : Directory) : Except String Disk :=
  match dir.readSnapshot with
  | .ok snapshot => .ok ⟨snapshot, dir.walBin.getD [], dir.walOld.getD []⟩
  | .error msg => .error msg

/-- `New` and `Recover` on a directory; the error is the one of `ReadSnapshot`. -/
def Directory.recover (dir : Directory) (cfg : Config) (order : List TaskID) :
    Except String RecoverResult :=
  match dir.read with
  | .ok d => .ok (Engine.recover cfg d order)
  | .error msg => .error ("engine: read snapshot: " ++ msg)

/-- A directory with the given contents and no file left over. -/
def Disk.directory (d : Disk) : Directory where
  snapshotTmp := none
  snapshotJson := d.snapshot.map .whole
  walBin := some d.walBin
  walOld := some d.walOld

theorem read_directory
    (d : Disk) :
    d.directory.read = .ok d := by
  obtain ⟨snapshot, walBin, walOld⟩ := d
  cases snapshot <;> rfl

/-- The file operations of a checkpoint; `os.WriteFile` is two of them. -/
inductive FileOp
  | createTmp
  | writeTmp (snap : Snapshot)
  | renameTmp
  | closeLog
  | removeOld
  | renameLog
  | openLog

/-- What an operation does to the files. -/
def FileOp.apply (dir : Directory) : FileOp → Directory
  | .createTmp => { dir with snapshotTmp := some .torn }
  | .writeTmp snap => { dir with snapshotTmp := some (.whole snap) }
  | .renameTmp =>
      match dir.snapshotTmp with
      | some file => { dir with snapshotTmp := none, snapshotJson := some file }
      | none => dir
  | .closeLog => dir
  | .removeOld => { dir with walOld := none }
  | .renameLog =>
      match dir.walBin with
      | some log => { dir with walBin := none, walOld := some log }
      | none => dir
  | .openLog => { dir with walBin := some (dir.walBin.getD []) }

/-- `WriteSnapshot`. -/
def writeSnapshotOps (snap : Snapshot) : List FileOp :=
  [.createTmp, .writeTmp snap, .renameTmp]

/-- `rotateWAL`. -/
def rotateOps : List FileOp :=
  [.closeLog, .removeOld, .renameLog, .openLog]

/-- The operations of `checkpoint`. -/
def checkpointOps (e : Engine) (order : List TaskID) : List FileOp :=
  writeSnapshotOps (e.takeSnapshot order) ++ rotateOps

/-- The directories that a process can leave if it is killed during the operations. -/
def crashPoints (dir : Directory) (ops : List FileOp) : List Directory :=
  ops.scanl FileOp.apply dir

theorem read_ok
    {dir : Directory} {d : Disk}
    (h : dir.read = .ok d) :
    dir.readSnapshot = .ok d.snapshot ∧ d.walBin = dir.walBin.getD [] ∧
      d.walOld = dir.walOld.getD [] := by
  unfold Directory.read at h
  cases hsnap : dir.readSnapshot with
  | error msg =>
      simp [hsnap] at h
  | ok snapshot =>
      simp only [hsnap, Except.ok.injEq] at h
      subst h
      exact ⟨rfl, rfl, rfl⟩

/--
What `Recover` reads after a kill during a checkpoint: the directory as it was, the new
snapshot with the old log, or the new snapshot with an empty log.
-/
theorem crashPoint_read
    {dir dir' : Directory} {d : Disk} {e : Engine} {order : List TaskID}
    (hdir : dir.read = .ok d)
    (h : dir' ∈ crashPoints dir (e.checkpointOps order)) :
    dir'.read = .ok d ∨
      (∃ old, dir'.read = .ok ⟨some (e.takeSnapshot order), d.walBin, old⟩) ∨
      dir'.read = .ok (e.checkpoint d order).2 := by
  obtain ⟨hsnap, hbin, hold⟩ := read_ok hdir
  have hsame : ∀ tmp, Directory.read { dir with snapshotTmp := tmp } = .ok d := by
    intro tmp
    rw [← hdir]
    rfl
  obtain ⟨tmp, json, bin, old⟩ := dir
  simp only at hbin hold
  simp only [crashPoints, checkpointOps, writeSnapshotOps, rotateOps, FileOp.apply,
    List.cons_append, List.nil_append, List.scanl_cons, List.scanl_nil, List.mem_cons,
    List.not_mem_nil, or_false] at h
  cases bin with
  | none =>
      rcases h with rfl | rfl | rfl | rfl | rfl | rfl | rfl | rfl
      · exact Or.inl (hsame tmp)
      · exact Or.inl (hsame (some .torn))
      · exact Or.inl (hsame (some (.whole (e.takeSnapshot order))))
      all_goals
        rw [hbin]
        exact Or.inr (Or.inl ⟨_, rfl⟩)
  | some log =>
      rcases h with rfl | rfl | rfl | rfl | rfl | rfl | rfl | rfl
      · exact Or.inl (hsame tmp)
      · exact Or.inl (hsame (some .torn))
      · exact Or.inl (hsame (some (.whole (e.takeSnapshot order))))
      · exact Or.inr (Or.inl ⟨_, by rw [hbin]; rfl⟩)
      · exact Or.inr (Or.inl ⟨_, by rw [hbin]; rfl⟩)
      · exact Or.inr (Or.inl ⟨_, by rw [hbin]; rfl⟩)
      all_goals
        refine Or.inr (Or.inr ?_)
        simp only [checkpoint, rotateWAL, hbin]
        rfl

/-- All operations together are `checkpoint`. -/
theorem checkpointOps_read
    {dir : Directory} {d : Disk}
    (hdir : dir.read = .ok d)
    (e : Engine) (order : List TaskID) :
    ((e.checkpointOps order).foldl FileOp.apply dir).read = .ok (e.checkpoint d order).2 := by
  obtain ⟨-, hbin, -⟩ := read_ok hdir
  obtain ⟨tmp, json, bin, old⟩ := dir
  simp only at hbin
  simp only [checkpoint, rotateWAL, hbin]
  cases bin <;> rfl

end Engine
end TaskQueue
