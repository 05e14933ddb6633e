import TaskQueue.Engine.System

/-!
# What a snapshot keeps of a task

`taskToSnapshotTask` and `snapshotTaskToTask` of `internal/engine/engine.go`, one after the
other.  Four instants pass through `UnixNano`, an `int64`, and `ExpiresAt` does not pass at
all.  `throughSnapshot_eq_iff` says which tasks come back as they were: those whose four
instants lie between the years 1677 and 2262 and that have no `ExpiresAt`.

The zero time lies outside of that range.  No task that has not been started yet comes back
as it was (`throughSnapshot_ne_of_not_started`), and neither does one that has not ended.
-/

namespace TaskQueue
namespace Wal

open Queue (Task Time zeroTime)

/-- An instant that `UnixNano` can tell. -/
def InUnixNanoRange (t : Time) : Prop :=
  -2 ^ 63 ≤ t ∧ t < 2 ^ 63

instance (t : Time) : Decidable (InUnixNanoRange t) :=
  inferInstanceAs (Decidable (-2 ^ 63 ≤ t ∧ t < 2 ^ 63))

theorem unixNano_eq_iff
    (t : Time) :
    unixNano t = t ↔ InUnixNanoRange t := by
  unfold unixNano InUnixNanoRange
  constructor
  · intro h
    have hlow := Int.le_bmod (x := t) (m := 2 ^ 64) (by norm_num)
    have hhigh := Int.bmod_lt (x := t) (m := 2 ^ 64) (by norm_num)
    rw [h] at hlow hhigh
    norm_num at hlow hhigh
    constructor
    · linarith
    · linarith
  · rintro ⟨hlow, hhigh⟩
    exact Int.bmod_eq_of_le (by norm_num; linarith) (by norm_num; linarith)

/-- The zero time is not an instant that `UnixNano` can tell. -/
theorem zeroTime_out_of_range : ¬ InUnixNanoRange zeroTime := by
  decide

/-- The instants of a task that a snapshot holds. -/
def snapshotInstants (t : Task) : List Time :=
  [t.createdAt, t.scheduledAt, t.startedAt, t.completedAt]

/--
A task comes back from a snapshot as it was, in all fields, if and only if its instants are in
the range of `UnixNano` and it has no `ExpiresAt`.
-/
theorem throughSnapshot_eq_iff
    (t : Task) :
    throughSnapshot t = t ↔
      (∀ instant ∈ snapshotInstants t, InUnixNanoRange instant) ∧ t.expiresAt = zeroTime := by
  simp only [snapshotInstants, List.forall_mem_cons, ← unixNano_eq_iff]
  constructor
  · intro h
    have hcreated := congrArg Task.createdAt h
    have hscheduled := congrArg Task.scheduledAt h
    have hstarted := congrArg Task.startedAt h
    have hcompleted := congrArg Task.completedAt h
    have hexpires := congrArg Task.expiresAt h
    exact ⟨⟨hcreated, hscheduled, hstarted, hcompleted, by simp⟩, hexpires.symm⟩
  · rintro ⟨⟨hcreated, hscheduled, hstarted, hcompleted, -⟩, hexpires⟩
    simp only [throughSnapshot, snapshotTaskToTask, taskToSnapshotTask, hcreated, hscheduled,
      hstarted, hcompleted, ← hexpires]

/-- A task that was never started is changed. -/
theorem throughSnapshot_ne_of_not_started
    {t : Task}
    (h : t.startedAt = zeroTime) :
    throughSnapshot t ≠ t := by
  intro heq
  have hrange := (unixNano_eq_iff t.startedAt).mp (congrArg Task.startedAt heq)
  rw [h] at hrange
  exact zeroTime_out_of_range hrange

end Wal

namespace System

open Queue

/-- In November 2023 a task comes in for now, and one for a time 292 years later. -/
def nowAndFar : List Event :=
  [.submit Task.zero "now" 1700000000000000000 300,
    .submit { Task.zero with scheduledAt := 10923372036000000000 } "far"
      1700000000000000000 300]

/--
A pending task that has not been started comes back with a `StartedAt` in 1754, and the far
task comes back as one that has been due since 1731.
-/
theorem snapshot_changes_submitted :
    ∃ s, Lib.Run step (fun _ _ => True) (initial roomyConfig) nowAndFar s ∧
      ∃ now far, s.engine.tasks.get "now" = some now ∧ s.engine.tasks.get "far" = some far ∧
        now.startedAt = zeroTime ∧ Wal.throughSnapshot now ≠ now ∧
        (Wal.throughSnapshot now).startedAt = -6795364578871345152 ∧
        far.scheduledAt = 10923372036000000000 ∧
        (Wal.throughSnapshot far).scheduledAt = -7523372037709551616 := by
  obtain ⟨s, hrun, htasks⟩ :=
    Lib.exists_run_of_exec step (fun _ _ => True)
      (fun s =>
        ((s.engine.tasks.get "now").map fun t =>
          (t.startedAt, (Wal.throughSnapshot t).startedAt)) =
            some (zeroTime, -6795364578871345152) ∧
        ((s.engine.tasks.get "far").map fun t =>
          (t.scheduledAt, (Wal.throughSnapshot t).scheduledAt)) =
            some (10923372036000000000, -7523372037709551616))
      (initial roomyConfig) nowAndFar (by decide +kernel)
  simp only [Option.map_eq_some_iff, Prod.mk.injEq] at htasks
  obtain ⟨⟨now, hnow, hstarted, hback⟩, far, hfar, hscheduled, hback'⟩ := htasks
  exact ⟨s, hrun, now, far, hnow, hfar, hstarted,
    Wal.throughSnapshot_ne_of_not_started hstarted, hback, hscheduled, hback'⟩

end System
end TaskQueue
