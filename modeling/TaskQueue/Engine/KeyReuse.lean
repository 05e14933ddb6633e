import Mathlib.Tactic
import TaskQueue.Engine.Requeue

/-!
# One task per idempotency key after a restart

`Submit` calls one after the other, on one log without checkpoints, each with any outcome
of its `Append`.  When the fsync fails the record is in the file and stays there, while
`Submit` takes the task and its key back; a second `Submit` with the key is then accepted,
and the next process finds both tasks (`fsyncError_keyTwice`).  `one_task_per_key` shows
that this is the only way: a key has one task after `Recover` if no `Submit` is made with
a key that the log, but not the engine, has already.
-/

namespace TaskQueue

open Lib (GoMap)
open Queue
open Wal (Log LogEnv LogRecord Snapshot)

namespace Engine

/-- No two tasks have the same key. -/
def OnePerKey (e : Engine) : Prop :=
  ∀ id id' t t', e.tasks.get id = some t → e.tasks.get id' = some t' →
    t.idempotencyKey ≠ "" → t'.idempotencyKey = t.idempotencyKey → id' = id

/-- What `Submit` does to the files: nothing, or one more record, if it is no duplicate. -/
theorem submit_disk
    (e : Engine) (d : Disk) (task : Task) (generatedID : TaskID) (now : Time) (io : LogEnv) :
    (e.submit d task generatedID now io).2.1 = d ∨
    (e.duplicateOf task = none ∧
      (e.submit d task generatedID now io).2.1 =
        d.extend (e.walLog.record .enqueue (e.prepare task generatedID now).id
          (.ofTask (e.prepare task generatedID now)) io)) := by
  cases hdup : e.duplicateOf task with
  | some existing =>
      left
      rw [submit, hdup]
  | none =>
      rcases submit_ends d generatedID now io hdup with
        ⟨w, disk, err, -, hdisk, hsubmit⟩ | ⟨w, hsubmit⟩
      · rw [hsubmit]
        exact hdisk.imp_right fun h => ⟨rfl, h⟩
      · rw [hsubmit]
        exact Or.inr ⟨rfl, rfl⟩

/-- The tasks of the `EntryEnqueue` records of a log. -/
def Disk.enqueued (d : Disk) : List Task :=
  d.walBin.filterMap fun r => r.entry.data.task

/-- The tasks of the registry come from records, with their keys. -/
def FromRecords (d : Disk) (e : Engine) : Prop :=
  ∀ id t, e.tasks.get id = some t →
    ∃ t₀ ∈ d.enqueued, t₀.id = id ∧ t₀.idempotencyKey = t.idempotencyKey

end Engine

/-- The engine with its directory, under `Submit` calls alone. -/
structure Intake where
  engine : Engine
  disk : Engine.Disk
  issued : List TaskID

namespace Intake

open Engine (Disk Durably FromRecords OnePerKey Recovered)

/-- One `Submit`, with the outcome of its `Append`. -/
structure Call where
  task : Task
  generatedID : TaskID
  now : Time
  io : LogEnv

/-- The engine that `New` and `Recover` give on an empty directory. -/
def initial (cfg : Engine.Config) : Intake where
  engine := (System.initial cfg).engine
  disk := Disk.empty
  issued := []

/-- `Submit`; new tasks have new IDs. -/
def step (s : Intake) (call : Call) : Option Intake :=
  let id := (s.engine.prepare call.task call.generatedID call.now).id
  if id ∈ s.issued then
    none
  else
    let r := s.engine.submit s.disk call.task call.generatedID call.now call.io
    some ⟨r.1, r.2.1, id :: s.issued⟩

/--
The condition on a call: its key is not the key of a record in the log, unless the engine
refuses the call as a duplicate.
-/
def KeyUnused (s : Intake) (call : Call) : Prop :=
  call.task.idempotencyKey ≠ "" → s.engine.duplicateOf call.task = none →
    ∀ t ∈ s.disk.enqueued, t.idempotencyKey ≠ call.task.idempotencyKey

instance (s : Intake) (call : Call) : Decidable (s.KeyUnused call) :=
  inferInstanceAs (Decidable (_ → _ → _))

/-- The invariant: no two records have the same key, and the registry comes from them. -/
structure Distinct (s : Intake) : Prop where
  noSnapshot : s.disk.snapshot = none
  keys : ∀ t ∈ s.disk.enqueued, ∀ t' ∈ s.disk.enqueued, t.idempotencyKey ≠ "" →
    t'.idempotencyKey = t.idempotencyKey → t'.id = t.id
  loaded : Durably s.disk (FromRecords s.disk)

theorem distinct_initial
    (cfg : Engine.Config) :
    Distinct (initial cfg) := by
  refine ⟨rfl, ?_, ?_⟩
  · intro t ht
    cases ht
  · intro cfg' loaded last hload id t ht
    cases hload
    have hnone : ((Engine.new cfg').loadSnapshot none).tasks.get id = none :=
      GoMap.get_empty id
    rw [show (initial cfg).disk.snapshot = none from rfl, hnone] at ht
    cases ht

theorem step_distinct
    (s : Intake) (call : Call) (s' : Intake)
    (h : Distinct s)
    (hok : s.KeyUnused call)
    (hstep : s.step call = some s') :
    Distinct s' := by
  unfold step at hstep
  dsimp only at hstep
  split_ifs at hstep
  cases hstep
  rcases Engine.submit_disk s.engine s.disk call.task call.generatedID call.now call.io with
    hd | ⟨hdup, hd⟩
  · rw [hd]
    exact ⟨h.noSnapshot, h.keys, h.loaded⟩
  · rw [hd]
    have hkey := Engine.prepare_idempotencyKey s.engine call.task call.generatedID call.now
    generalize s.engine.prepare call.task call.generatedID call.now = t at hkey
    have hmem : ∀ t', t' ∈ (s.disk.extend
        (s.engine.walLog.record .enqueue t.id (.ofTask t) call.io)).enqueued ↔
        t' ∈ s.disk.enqueued ∨ t' = t := by
      intro t'
      simp [Disk.enqueued, Disk.extend, Log.record, Engine.EntryData.ofTask, eq_comm]
    have hnew : t.idempotencyKey ≠ "" →
        ∀ t' ∈ s.disk.enqueued, t'.idempotencyKey ≠ t.idempotencyKey := by
      intro hne
      rw [hkey] at hne ⊢
      exact hok hne hdup
    refine ⟨h.noSnapshot, ?_, ?_⟩
    · intro t₁ h₁ t₂ h₂ hne hsame
      rcases (hmem t₁).mp h₁ with hold₁ | rfl
      · rcases (hmem t₂).mp h₂ with hold₂ | rfl
        · exact h.keys t₁ hold₁ t₂ hold₂ hne hsame
        · exact absurd hsame.symm (hnew (hsame ▸ hne) t₁ hold₁)
      · rcases (hmem t₂).mp h₂ with hold₂ | rfl
        · exact absurd hsame (hnew hne t₂ hold₂)
        · rfl
    · have hold : ∀ e, FromRecords s.disk e → FromRecords (s.disk.extend
          (s.engine.walLog.record .enqueue t.id (.ofTask t) call.io)) e := by
        intro e he id t' ht'
        obtain ⟨t₀, ht₀, hid, hkey₀⟩ := he id t' ht'
        exact ⟨t₀, (hmem t₀).mpr (Or.inl ht₀), hid, hkey₀⟩
      refine h.loaded.extend _ (fun _ => hold) ?_
      intro e e' he happly
      cases happly
      intro id t' ht'
      rw [Engine.get_register] at ht'
      split_ifs at ht' with hid
      · cases ht'
        exact ⟨t, (hmem t).mpr (Or.inr rfl), hid.symm, rfl⟩
      · exact hold e he id t' ht'

/-- A registry that comes from records with different keys. -/
theorem Distinct.onePerKey
    {s : Intake}
    (h : Distinct s)
    {e : Engine}
    (he : FromRecords s.disk e) :
    OnePerKey e := by
  intro id id' t t' ht ht' hne hsame
  obtain ⟨t₀, ht₀, rfl, hkey⟩ := he id t ht
  obtain ⟨t₁, ht₁, rfl, hkey'⟩ := he id' t' ht'
  refine h.keys t₀ ht₀ t₁ ht₁ (hkey ▸ hne) ?_
  rw [hkey, hkey', hsame]

/-- After a kill and `Recover`, in any order of the registry, no two tasks have the same key. -/
def OneTaskPerKey (s : Intake) : Prop :=
  ∀ cfg order e, Recovered cfg s.disk order e → OnePerKey e

/--
In every run of `Submit` calls, with any outcome of each `Append`, none of which is made
with a key that is in the log but not in the engine, `Recover` finds one task per key.
-/
theorem one_task_per_key
    (cfg : Engine.Config) (calls : List Call) (s : Intake)
    (hrun : Lib.Run step KeyUnused (initial cfg) calls s) :
    OneTaskPerKey s := by
  have h := hrun.invariant Distinct step_distinct (distinct_initial cfg)
  intro cfg' order e hrec
  obtain ⟨loaded, last, hload, -, hall⟩ := hrec.restarted
  have hone := h.onePerKey (h.loaded cfg' loaded last hload)
  intro id id' t t' ht ht' hne hsame
  rw [hall.tasks] at ht ht'
  obtain ⟨t₀, ht₀, rfl⟩ := Option.map_eq_some_iff.mp ht
  obtain ⟨t₁, ht₁, rfl⟩ := Option.map_eq_some_iff.mp ht'
  rw [Engine.requeue_idempotencyKey] at hne hsame
  rw [Engine.requeue_idempotencyKey] at hsame
  exact hone id id' t₀ t₁ ht₀ ht₁ hne hsame

/-- A task with a key. -/
def keyed : Task :=
  { Task.zero with idempotencyKey := "k" }

/-- The first `Append` fails before anything is written; the key is used again, twice. -/
def writeErrorThenRetry : List Call :=
  [⟨keyed, "a", 10, .diskFull 10 300⟩, ⟨keyed, "b", 20, .noError 20 300⟩,
    ⟨keyed, "c", 30, .noError 30 300⟩]

theorem one_task_per_key_writeErrorThenRetry :
    ∃ s, Lib.Run step KeyUnused (initial System.roomyConfig) writeErrorThenRetry s ∧
      s.disk.walBin.length = 1 ∧ OneTaskPerKey s := by
  obtain ⟨s, hrun, hlen⟩ :=
    Lib.exists_run_of_exec step KeyUnused (fun s => s.disk.walBin.length = 1)
      (initial System.roomyConfig) writeErrorThenRetry (by decide +kernel)
  exact ⟨s, hrun, hlen, one_task_per_key System.roomyConfig writeErrorThenRetry s hrun⟩

/-- The fsync of the first `Append` fails; the key is used again. -/
def fsyncErrorThenRetry : List Call :=
  [⟨keyed, "a", 10, .fsyncFails 10 300⟩, ⟨keyed, "b", 20, .noError 20 300⟩]

/-- The next process has two tasks with the key. -/
theorem fsyncError_keyTwice :
    ∃ s, Lib.Run step (fun _ _ => True) (initial System.roomyConfig) fsyncErrorThenRetry s ∧
      ¬ OneTaskPerKey s := by
  obtain ⟨s, hrun, hrec⟩ :=
    Lib.exists_run_of_exec step (fun _ _ => True)
      (fun s => Engine.recoversTo System.roomyConfig s.disk ["a", "b"]
        (fun e => (e.tasks.get "a").map Task.idempotencyKey = some "k" ∧
          (e.tasks.get "b").map Task.idempotencyKey = some "k") = true)
      (initial System.roomyConfig) fsyncErrorThenRetry (by decide +kernel)
  obtain ⟨e, hrec, ha, hb⟩ := Engine.recovered_of_recoversTo hrec
  refine ⟨s, hrun, ?_⟩
  intro hone
  obtain ⟨t, ht, hkey⟩ := Option.map_eq_some_iff.mp ha
  obtain ⟨t', ht', hkey'⟩ := Option.map_eq_some_iff.mp hb
  have hsame := hone System.roomyConfig ["a", "b"] e hrec "a" "b" t t' ht ht'
    (by rw [hkey]; decide) (by rw [hkey, hkey'])
  exact absurd hsame (by decide)

end Intake
end TaskQueue
