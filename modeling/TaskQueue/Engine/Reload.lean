import Mathlib.Tactic
import TaskQueue.Engine.Effects

/-!
# What a directory gives back

The registry that `Recover` would build from a directory (`loadTasks`), and how it
changes when the log grows by a record (`loadTasks_extend`) and when a checkpoint
replaces the directory (`loadTasks_checkpoint`).
-/

namespace TaskQueue

open Lib (GoMap)
open Queue
open Wal (Log LogEnv LogRecord Snapshot)

namespace Engine

/-- An entry does not change what was submitted. -/
theorem submissionOf_entryUpdate
    (entry : Entry) (t : Task) :
    submissionOf (entryUpdate entry t) = submissionOf t := by
  unfold entryUpdate
  split
  case h_4 =>
    split <;> rfl
  all_goals
    rfl

theorem entryUpdate_id
    (entry : Entry) (t : Task) :
    (entryUpdate entry t).id = t.id :=
  congrArg Submission.id (submissionOf_entryUpdate entry t)

/-- Only an `EntryDead` makes a task dead. -/
theorem entryUpdate_dead
    {entry : Entry} {t : Task}
    (h : (entryUpdate entry t).state = .dead) :
    entry.type = .dead ∨ t.state = .dead := by
  unfold entryUpdate at h
  split at h
  case h_4 =>
    split at h <;> cases h
  case h_5 htype =>
    exact Or.inl htype
  case h_7 =>
    exact Or.inr h
  all_goals
    cases h

theorem entryUpdate_of_dead
    {entry : Entry}
    (h : entry.type = .dead)
    (t : Task) :
    (entryUpdate entry t).state = .dead := by
  simp only [entryUpdate, h]
  rfl

/-- The state that an entry of this type sets. -/
def writtenState : Wal.EntryType → Option TaskState
  | .start => some .running
  | .complete => some .completed
  | .fail => some .failed
  | .retry => some .scheduled
  | .dead => some .dead
  | .cancel => some .cancelled
  | _ => none

theorem entryUpdate_state
    {entry : Entry} {x : TaskState}
    (h : writtenState entry.type = some x)
    (t : Task) :
    (entryUpdate entry t).state = x := by
  unfold entryUpdate
  split
  case h_4 htype =>
    rw [htype] at h
    cases h
    split <;> rfl
  case h_7 hs hc hf hr hd hca =>
    cases htype : entry.type <;> simp_all [writtenState]
  all_goals
    rename_i htype
    rw [htype] at h
    cases h
    rfl

/-- An entry that registers no task updates the task that it names, if there is one. -/
theorem applyEntry_update
    {e e' : Engine} {entry : Entry}
    (h : e.applyEntry entry = .ok e')
    (htype : entry.type ≠ .enqueue) :
    e'.idempKeys = e.idempKeys ∧
      e'.tasks = (e.updateTask entry.taskID (entryUpdate entry)).tasks := by
  have hkeep : entryUpdate entry = (fun t => t) →
      e.tasks = (e.updateTask entry.taskID (entryUpdate entry)).tasks := by
    intro hnone
    rw [hnone, updateTask_id]
  unfold applyEntry at h
  cases hentry : entry.type <;> simp only [hentry] at h
  case enqueue =>
    exact absurd hentry htype
  case dead =>
    split_ifs at h with hreg
    · cases h
      exact ⟨rfl, rfl⟩
    · cases h
      have hnone : e.tasks.get entry.taskID = none := by
        simpa using hreg
      refine ⟨rfl, ?_⟩
      simp only [updateTask, GoMap.modify, hnone]
  case snapshot =>
    cases h
    exact ⟨rfl, hkeep (funext fun t => by simp [entryUpdate, hentry])⟩
  case unknown =>
    cases h
    exact ⟨rfl, hkeep (funext fun t => by simp [entryUpdate, hentry])⟩
  all_goals
    cases h
    exact ⟨rfl, rfl⟩

/-- Replaying an entry of an outcome sets the state of its task, if there is one. -/
theorem applyEntry_sets
    {e e' : Engine} {entry : Entry} {x : TaskState}
    (h : e.applyEntry entry = .ok e')
    (hx : writtenState entry.type = some x) :
    SetsState e entry.taskID x e' := by
  have htype : entry.type ≠ .enqueue := by
    intro henq
    rw [henq] at hx
    cases hx
  intro j
  rw [stateOf, (applyEntry_update h htype).2]
  exact setsState_updateTask e entry.taskID (entryUpdate_state hx) j

/-- What replaying an entry can do to the engine. -/
theorem applyEntry_cases
    {e e' : Engine} {entry : Entry}
    (h : e.applyEntry entry = .ok e') :
    (∃ t, entry.type = .enqueue ∧ entry.data.task = some t ∧ e' = e.register t) ∨
    (entry.type ≠ .enqueue ∧ entry.type ≠ .dead ∧
      e' = e.updateTask entry.taskID (entryUpdate entry)) ∨
    (entry.type = .dead ∧ (e.tasks.get entry.taskID).isSome = true ∧
      e' = (e.updateTask entry.taskID (entryUpdate entry)).pushDLQ entry.taskID) ∨
    e' = e := by
  unfold applyEntry at h
  cases htype : entry.type <;> simp only [htype] at h
  case enqueue =>
    cases htask : entry.data.task with
    | none =>
        simp [htask] at h
    | some t =>
        simp only [htask, Except.ok.injEq] at h
        exact Or.inl ⟨t, rfl, rfl, h.symm⟩
  case dead =>
    split_ifs at h with hsome
    · exact Or.inr (Or.inr (Or.inl ⟨rfl, hsome, (Except.ok.inj h).symm⟩))
    · exact Or.inr (Or.inr (Or.inr (Except.ok.inj h).symm))
  case snapshot =>
    exact Or.inr (Or.inr (Or.inr (Except.ok.inj h).symm))
  case unknown =>
    exact Or.inr (Or.inr (Or.inr (Except.ok.inj h).symm))
  all_goals
    exact Or.inr (Or.inl ⟨by simp, by simp, (Except.ok.inj h).symm⟩)

/-- Replaying an entry touches the registry only. -/
theorem applyEntry_frame
    {e e' : Engine} {entry : Entry}
    (h : e.applyEntry entry = .ok e') :
    e'.buffer = e.buffer ∧ e'.heap = e.heap ∧ e'.cfg = e.cfg := by
  rcases applyEntry_cases h with ⟨t, -, -, rfl⟩ | ⟨-, -, rfl⟩ | ⟨-, -, rfl⟩ | rfl
  all_goals
    exact ⟨rfl, rfl, rfl⟩

/-- What the snapshot establishes and every entry preserves, `Recover` establishes. -/
theorem loadTasks_induction
    (P : Engine → Prop)
    {cfg : Config} {d : Disk} {loaded : Engine} {last : Nat}
    (hload : loadTasks cfg d = .ok (loaded, last))
    (hsnap : P ((new cfg).loadSnapshot d.snapshot))
    (hentry : ∀ e entry e', P e → d.snapSeq < entry.seq →
      e.applyEntry entry = .ok e' → P e') :
    P loaded := by
  obtain ⟨hfold, -⟩ := Wal.replayRecords_ok hload
  generalize (new cfg).loadSnapshot d.snapshot = e₀ at hfold hsnap
  generalize Wal.entriesOf d.walBin = entries at hfold
  induction entries generalizing e₀ with
  | nil =>
      cases hfold
      exact hsnap
  | cons entry entries ih =>
      rw [List.foldlM_cons] at hfold
      cases hfn : replayHandler d.snapSeq e₀ entry with
      | error msg =>
          rw [hfn] at hfold
          cases hfold
      | ok e₁ =>
          rw [hfn] at hfold
          refine ih e₁ ?_ hfold
          unfold replayHandler at hfn
          split_ifs at hfn with hseq
          · cases hfn
            exact hsnap
          · exact hentry e₀ entry e₁ hsnap (by omega) hfn

/-- What `New` establishes and every registration preserves, a snapshot establishes. -/
theorem loadSnapshot_induction
    (P : Engine → Prop)
    {e : Engine}
    (he : P e)
    (hregister : ∀ e st, P e → P (e.register (Wal.snapshotTaskToTask st)))
    (snap : Option Wal.Snapshot) :
    P (e.loadSnapshot snap) := by
  cases snap with
  | none =>
      exact he
  | some snap =>
      unfold loadSnapshot
      dsimp only
      generalize snap.tasks = tasks
      induction tasks generalizing e with
      | nil =>
          exact he
      | cons st tasks ih =>
          exact ih (hregister e st he)

/-- The queues are still empty when the registry has been loaded. -/
theorem loadTasks_frame
    {cfg : Config} {d : Disk} {loaded : Engine} {last : Nat}
    (hload : loadTasks cfg d = .ok (loaded, last)) :
    loaded.buffer = (new cfg).buffer ∧ loaded.heap = (new cfg).heap ∧
      loaded.cfg = cfg := by
  let P : Engine → Prop := fun e =>
    e.buffer = (new cfg).buffer ∧ e.heap = (new cfg).heap ∧ e.cfg = cfg
  refine loadTasks_induction P hload ?_ ?_
  · exact loadSnapshot_induction P ⟨rfl, rfl, rfl⟩ (fun e st he => he) d.snapshot
  · intro e entry e' he _ happly
    obtain ⟨hbuf, hheap, hcfg⟩ := applyEntry_frame happly
    exact ⟨hbuf.trans he.1, hheap.trans he.2.1, hcfg.trans he.2.2⟩

/-- Replaying an entry, the registry depends on the registry only. -/
theorem applyEntry_tasks
    {e₁ e₂ e₁' e₂' : Engine} {entry : Entry}
    (h : e₁.tasks = e₂.tasks)
    (h₁ : e₁.applyEntry entry = .ok e₁')
    (h₂ : e₂.applyEntry entry = .ok e₂') :
    e₁'.tasks = e₂'.tasks := by
  unfold applyEntry at h₁ h₂
  cases htype : entry.type <;> simp only [htype] at h₁ h₂
  case enqueue =>
    cases htask : entry.data.task with
    | none =>
        simp [htask] at h₁
    | some t =>
        simp only [htask, Except.ok.injEq] at h₁ h₂
        rw [← h₁, ← h₂]
        simp only [register, h]
  case dead =>
    rw [h] at h₁
    split_ifs at h₁ h₂
    · cases h₁
      cases h₂
      simp only [pushDLQ, updateTask, h]
    · cases h₁
      cases h₂
      exact h
  all_goals
    cases h₁
    cases h₂
    simp only [updateTask, h]

theorem loadSnapshot_tasks
    {e₁ e₂ : Engine}
    (h : e₁.tasks = e₂.tasks)
    (snap : Option Wal.Snapshot) :
    (e₁.loadSnapshot snap).tasks = (e₂.loadSnapshot snap).tasks := by
  cases snap with
  | none =>
      exact h
  | some snap =>
      unfold loadSnapshot
      dsimp only
      generalize snap.tasks = tasks
      induction tasks generalizing e₁ e₂ with
      | nil =>
          exact h
      | cons st tasks ih =>
          refine ih ?_
          simp only [register, h]

/-- The registry that a directory gives back does not depend on the settings. -/
theorem loadTasks_tasks
    {cfg₁ cfg₂ : Config} {d : Disk} {loaded₁ loaded₂ : Engine} {last₁ last₂ : Nat}
    (h₁ : loadTasks cfg₁ d = .ok (loaded₁, last₁))
    (h₂ : loadTasks cfg₂ d = .ok (loaded₂, last₂)) :
    loaded₁.tasks = loaded₂.tasks := by
  obtain ⟨hfold₁, -⟩ := Wal.replayRecords_ok h₁
  obtain ⟨hfold₂, -⟩ := Wal.replayRecords_ok h₂
  have hsnap : ((new cfg₁).loadSnapshot d.snapshot).tasks =
      ((new cfg₂).loadSnapshot d.snapshot).tasks :=
    @loadSnapshot_tasks (new cfg₁) (new cfg₂) rfl d.snapshot
  generalize (new cfg₁).loadSnapshot d.snapshot = e₁ at hfold₁ hsnap
  generalize (new cfg₂).loadSnapshot d.snapshot = e₂ at hfold₂ hsnap
  generalize Wal.entriesOf d.walBin = entries at hfold₁ hfold₂
  induction entries generalizing e₁ e₂ with
  | nil =>
      cases hfold₁
      cases hfold₂
      exact hsnap
  | cons entry entries ih =>
      rw [List.foldlM_cons] at hfold₁ hfold₂
      cases hfn₁ : replayHandler d.snapSeq e₁ entry with
      | error msg =>
          rw [hfn₁] at hfold₁
          cases hfold₁
      | ok e₁' =>
          cases hfn₂ : replayHandler d.snapSeq e₂ entry with
          | error msg =>
              rw [hfn₂] at hfold₂
              cases hfold₂
          | ok e₂' =>
              rw [hfn₁] at hfold₁
              rw [hfn₂] at hfold₂
              refine ih e₁' e₂' ?_ hfold₁ hfold₂
              unfold replayHandler at hfn₁ hfn₂
              split_ifs at hfn₁ hfn₂
              · cases hfn₁
                cases hfn₂
                exact hsnap
              · exact applyEntry_tasks hsnap hfn₁ hfn₂

/-- The registry of a directory whose log has one more record. -/
theorem loadTasks_extend
    (cfg : Config) (d : Disk) (r : LogRecord EntryData)
    (loaded' : Engine) (last : Nat) :
    loadTasks cfg (d.extend r) = .ok (loaded', last) ↔
      ∃ loaded last₁,
        loadTasks cfg d = .ok (loaded, last₁) ∧ r.bodyLen ≤ Wal.maxBody ∧
          replayHandler d.snapSeq loaded r.entry = .ok loaded' ∧ last = r.entry.seq := by
  exact Wal.replayRecords_append d.walBin r last _ loaded'

/-- `P` holds of every registry that the directory gives back. -/
def Durably (d : Disk) (P : Engine → Prop) : Prop :=
  ∀ cfg loaded last, loadTasks cfg d = .ok (loaded, last) → P loaded

/-- `Recover` does not skip a record whose log counts on from the snapshot. -/
theorem record_not_skipped
    {log : Log} {d : Disk}
    (hseq : d.snapSeq ≤ log.seq)
    (type : Wal.EntryType) (id : TaskID) (data : EntryData) (io : LogEnv) :
    ¬(log.record type id data io).entry.seq ≤ d.snapSeq :=
  Nat.not_le.mpr (Nat.lt_succ_of_le hseq)

/-- What the new entry preserves holds of the longer log. -/
theorem Durably.extend
    {d : Disk} {P Q : Engine → Prop}
    (h : Durably d P)
    (r : LogRecord EntryData)
    (hskip : r.entry.seq ≤ d.snapSeq → ∀ e, P e → Q e)
    (hentry : ∀ e e', P e → e.applyEntry r.entry = .ok e' → Q e') :
    Durably (d.extend r) Q := by
  intro cfg loaded' last hload
  obtain ⟨loaded, last₁, hbefore, -, hfn, -⟩ := (loadTasks_extend cfg d r loaded' last).mp hload
  have hP := h cfg loaded last₁ hbefore
  unfold replayHandler at hfn
  split_ifs at hfn with hseq
  · cases hfn
    exact hskip hseq _ hP
  · exact hentry loaded loaded' hP hfn

/-- No entry removes a task. -/
theorem applyEntry_isSome
    {e e' : Engine} {entry : Entry}
    (h : e.applyEntry entry = .ok e')
    {id : TaskID}
    (hid : (e.tasks.get id).isSome = true) :
    (e'.tasks.get id).isSome = true := by
  rcases applyEntry_cases h with ⟨t, -, -, rfl⟩ | ⟨-, -, rfl⟩ | ⟨-, -, rfl⟩ | rfl
  · rw [get_register]
    split_ifs
    · rfl
    · exact hid
  · rw [updateTask, GoMap.get_modify_isSome]
    exact hid
  · rw [pushDLQ, updateTask, GoMap.get_modify_isSome]
    exact hid
  · exact hid

/-- An entry that `applyEntry` accepts: an `EntryEnqueue` has a task. -/
def Acceptable (entry : Entry) : Prop :=
  entry.type = .enqueue → entry.data.task.isSome = true

/-- Only an `EntryEnqueue` without a task is an error. -/
theorem applyEntry_isOk
    (e : Engine) {entry : Entry}
    (h : Acceptable entry) :
    ∃ e', e.applyEntry entry = .ok e' := by
  unfold applyEntry
  split
  case h_1 htype =>
    obtain ⟨t, ht⟩ := Option.isSome_iff_exists.mp (h htype)
    rw [ht]
    exact ⟨_, rfl⟩
  case h_2 =>
    split_ifs <;> exact ⟨_, rfl⟩
  all_goals
    exact ⟨_, rfl⟩

theorem acceptable_of_applyEntry
    {e e' : Engine} {entry : Entry}
    (h : e.applyEntry entry = .ok e') :
    Acceptable entry := by
  intro htype
  simp only [applyEntry, htype] at h
  cases htask : entry.data.task with
  | none =>
      simp [htask] at h
  | some t =>
      rfl

/-- Whether an entry can be replayed does not depend on the registry. -/
theorem replayHandler_isOk
    {snapSeq : Nat} {e e' : Engine} {entry : Entry}
    (h : replayHandler snapSeq e entry = .ok e')
    (e₂ : Engine) :
    ∃ e₂', replayHandler snapSeq e₂ entry = .ok e₂' := by
  unfold replayHandler at h ⊢
  split_ifs at h ⊢
  · exact ⟨e₂, rfl⟩
  · exact applyEntry_isOk e₂ (acceptable_of_applyEntry h)

/-- Whether a directory can be read does not depend on the settings. -/
theorem loadTasks_settings
    {cfg : Config} {d : Disk} {loaded : Engine} {last : Nat}
    (h : loadTasks cfg d = .ok (loaded, last))
    (cfg' : Config) :
    ∃ loaded', loadTasks cfg' d = .ok (loaded', last) ∧ loaded'.tasks = loaded.tasks := by
  have hread := Wal.replayRecords_readable h
  obtain ⟨hfold, hlast⟩ := Wal.replayRecords_ok h
  have hfold' : ∀ e₂, ∃ e₂',
      (Wal.entriesOf d.walBin).foldlM (replayHandler d.snapSeq) e₂ = .ok e₂' := by
    generalize (new cfg).loadSnapshot d.snapshot = e₁ at hfold
    generalize Wal.entriesOf d.walBin = entries at hfold
    induction entries generalizing e₁ with
    | nil =>
        exact fun e₂ => ⟨e₂, rfl⟩
    | cons entry entries ih =>
        intro e₂
        rw [List.foldlM_cons] at hfold ⊢
        cases hfn : replayHandler d.snapSeq e₁ entry with
        | error msg =>
            rw [hfn] at hfold
            cases hfold
        | ok e₁' =>
            rw [hfn] at hfold
            obtain ⟨e₂', hfn'⟩ := replayHandler_isOk hfn e₂
            rw [hfn']
            exact ih e₁' hfold e₂'
  obtain ⟨loaded', hloaded'⟩ := hfold' ((new cfg').loadSnapshot d.snapshot)
  have hload' : loadTasks cfg' d = .ok (loaded', last) := by
    rw [hlast]
    exact Wal.replayRecords_of_readable hread hloaded'
  exact ⟨loaded', hload', loadTasks_tasks hload' h⟩

/-- `Recover` can read the directory, and `P` holds of what it finds. -/
def Loads (d : Disk) (P : Engine → Prop) : Prop :=
  ∀ cfg, ∃ loaded last, loadTasks cfg d = .ok (loaded, last) ∧ P loaded

theorem Loads.mono
    {d : Disk} {P Q : Engine → Prop}
    (h : Loads d P)
    (hPQ : ∀ e, P e → Q e) :
    Loads d Q := by
  intro cfg
  obtain ⟨loaded, last, hload, hP⟩ := h cfg
  exact ⟨loaded, last, hload, hPQ loaded hP⟩

/-- A readable record more. -/
theorem Loads.extend
    {d : Disk} {P Q : Engine → Prop}
    (h : Loads d P)
    {r : LogRecord EntryData}
    (hlen : r.bodyLen ≤ Wal.maxBody)
    (hdata : r.entry.type = .enqueue → r.entry.data.task.isSome = true)
    (hskip : r.entry.seq ≤ d.snapSeq → ∀ e, P e → Q e)
    (hentry : ∀ e e', P e → e.applyEntry r.entry = .ok e' → Q e') :
    Loads (d.extend r) Q := by
  intro cfg
  obtain ⟨loaded, last, hload, hP⟩ := h cfg
  by_cases hseq : r.entry.seq ≤ d.snapSeq
  · refine ⟨loaded, r.entry.seq, ?_, hskip hseq loaded hP⟩
    rw [loadTasks_extend]
    exact ⟨loaded, last, hload, hlen, by rw [replayHandler, if_pos hseq], rfl⟩
  · obtain ⟨loaded', happly⟩ := applyEntry_isOk loaded hdata
    refine ⟨loaded', r.entry.seq, ?_, hentry loaded loaded' hP happly⟩
    rw [loadTasks_extend]
    exact ⟨loaded, last, hload, hlen, by rw [replayHandler, if_neg hseq, happly], rfl⟩

/-- A snapshot with a number that no record of the log exceeds stands for the whole log. -/
theorem Loads.snapshot
    {d : Disk} {P Q : Engine → Prop} {snap : Snapshot}
    (h : Loads d P)
    (hseq : ∀ r ∈ d.walBin, r.entry.seq ≤ snap.lastSeq)
    (hQ : ∀ cfg, Q ((new cfg).loadSnapshot (some snap))) :
    Loads { d with snapshot := some snap } Q := by
  intro cfg
  obtain ⟨loaded, last, hload, -⟩ := h cfg
  have hread := Wal.replayRecords_readable hload
  have hskip : ∀ entry ∈ Wal.entriesOf d.walBin, entry.seq ≤ snap.lastSeq := by
    intro entry hentry
    obtain ⟨r, hr, rfl⟩ := List.mem_map.mp hentry
    exact hseq r hr
  have hfold : (Wal.entriesOf d.walBin).foldlM (replayHandler snap.lastSeq)
      ((new cfg).loadSnapshot (some snap)) = .ok ((new cfg).loadSnapshot (some snap)) := by
    generalize Wal.entriesOf d.walBin = entries at hskip
    induction entries with
    | nil =>
        rfl
    | cons entry entries ih =>
        rw [List.foldlM_cons, replayHandler, if_pos (hskip entry List.mem_cons_self)]
        exact ih (fun entry' h' => hskip entry' (List.mem_cons_of_mem _ h'))
  exact ⟨_, _, Wal.replayRecords_of_readable hread hfold, hQ cfg⟩

/-- The entries that `Recover` has applied were acceptable. -/
theorem loadTasks_acceptable
    {cfg : Config} {d : Disk} {loaded : Engine} {last : Nat}
    (hload : loadTasks cfg d = .ok (loaded, last)) :
    ∀ r ∈ d.walBin, d.snapSeq < r.entry.seq → Acceptable r.entry := by
  obtain ⟨hfold, -⟩ := Wal.replayRecords_ok hload
  generalize (new cfg).loadSnapshot d.snapshot = e at hfold
  generalize d.walBin = file at hfold
  induction file generalizing e with
  | nil =>
      intro r hr
      cases hr
  | cons r₀ file ih =>
      rw [Wal.entriesOf, List.map_cons, List.foldlM_cons] at hfold
      cases hfn : replayHandler d.snapSeq e r₀.entry with
      | error msg =>
          rw [hfn] at hfold
          cases hfold
      | ok e₁ =>
          rw [hfn] at hfold
          intro r hr hseq
          rcases List.mem_cons.mp hr with rfl | hrest
          · rw [replayHandler, if_neg (by omega)] at hfn
            exact acceptable_of_applyEntry hfn
          · exact ih e₁ hfold r hrest hseq

/-- A log of acceptable records can be read over any snapshot. -/
theorem Loads.of_records
    {snapshot : Option Snapshot} {file : List (LogRecord EntryData)} {Q : Engine → Prop}
    (hread : Wal.Readable file)
    (hacceptable : ∀ r ∈ file, Acceptable r.entry)
    (hsnap : ∀ cfg, Q ((new cfg).loadSnapshot snapshot))
    (hentry : ∀ e entry e', Q e → e.applyEntry entry = .ok e' → Q e')
    (walOld : List (LogRecord EntryData)) :
    Loads ⟨snapshot, file, walOld⟩ Q := by
  intro cfg
  have hfold : ∃ loaded, (Wal.entriesOf file).foldlM
      (replayHandler (Disk.snapSeq ⟨snapshot, file, walOld⟩))
      ((new cfg).loadSnapshot snapshot) = .ok loaded ∧ Q loaded := by
    have hstart := hsnap cfg
    generalize Disk.snapSeq ⟨snapshot, file, walOld⟩ = snapSeq
    generalize (new cfg).loadSnapshot snapshot = e at hstart
    clear hread
    induction file generalizing e with
    | nil =>
        exact ⟨e, rfl, hstart⟩
    | cons r file ih =>
        obtain ⟨e₁, hfn, hQ⟩ : ∃ e₁, replayHandler snapSeq e r.entry = .ok e₁ ∧ Q e₁ := by
          unfold replayHandler
          split_ifs
          · exact ⟨e, rfl, hstart⟩
          · obtain ⟨e₁, happly⟩ := applyEntry_isOk e (hacceptable r List.mem_cons_self)
            exact ⟨e₁, happly, hentry e r.entry e₁ hstart happly⟩
        rw [Wal.entriesOf, List.map_cons, List.foldlM_cons, hfn]
        exact ih (fun r' hr' => hacceptable r' (List.mem_cons_of_mem _ hr')) e₁ hQ
  obtain ⟨loaded, hloaded, hQ⟩ := hfold
  exact ⟨loaded, _, Wal.replayRecords_of_readable hread hloaded, hQ⟩

/-- The state that the snapshot of a directory has for a task. -/
def Disk.snapshotState (d : Disk) (id : TaskID) : Option TaskState :=
  d.snapshot.bind fun snap => (snap.find id).map Wal.SnapshotTask.state

theorem stateOf_foldl_register
    (tasks : List Wal.SnapshotTask) (id : TaskID)
    {e : Engine} {found : Option Wal.SnapshotTask}
    (h : e.stateOf id = found.map Wal.SnapshotTask.state) :
    (tasks.foldl (fun e st => e.register (Wal.snapshotTaskToTask st)) e).stateOf id =
      (tasks.foldl (fun found st => if st.id = id then some st else found) found).map
        Wal.SnapshotTask.state := by
  induction tasks generalizing e found with
  | nil =>
      exact h
  | cons st tasks ih =>
      refine ih ?_
      dsimp only
      rw [stateOf, get_register]
      by_cases hid : st.id = id
      · rw [if_pos hid, if_pos (show id = (Wal.snapshotTaskToTask st).id from hid.symm)]
        rfl
      · rw [if_neg hid, if_neg (show ¬ id = (Wal.snapshotTaskToTask st).id from
          fun heq => hid heq.symm)]
        exact h

/-- Loading a snapshot into an empty registry gives its entries. -/
theorem stateOf_loadSnapshot
    (cfg : Config) (d : Disk) (id : TaskID) :
    ((new cfg).loadSnapshot d.snapshot).stateOf id = d.snapshotState id := by
  unfold Disk.snapshotState
  cases d.snapshot with
  | none =>
      rfl
  | some snap =>
      exact stateOf_foldl_register snap.tasks id rfl

/-- A directory without a log gives back its snapshot. -/
theorem Loads.of_snapshotState
    {d : Disk} {P : Engine → Prop}
    (h : Loads d P)
    (hlog : d.walBin = []) :
    Loads d (fun e => P e ∧ ∀ id, e.stateOf id = d.snapshotState id) := by
  intro cfg
  obtain ⟨loaded, last, hload, hP⟩ := h cfg
  have hempty : loadTasks cfg d = .ok ((new cfg).loadSnapshot d.snapshot, 0) := by
    rw [loadTasks, hlog]
    rfl
  rw [hempty] at hload
  cases hload
  exact ⟨_, 0, hempty, hP, fun id => stateOf_loadSnapshot cfg d id⟩

/-- A snapshot has every task that it is taken over. -/
theorem mem_takeSnapshot
    {e : Engine} {order : List TaskID} {id : TaskID} {t : Task}
    (hget : e.tasks.get id = some t)
    (hid : id ∈ order) :
    Wal.taskToSnapshotTask t ∈ (e.takeSnapshot order).tasks := by
  refine List.mem_filterMap.mpr ⟨id, hid, ?_⟩
  rw [hget]
  rfl

/-- Loading a snapshot registers what it was taken from. -/
theorem get_loadSnapshot
    {source : Engine}
    (hnamed : ∀ id t, source.tasks.get id = some t → t.id = id)
    (order : List TaskID) (e : Engine) (j : TaskID) :
    (e.loadSnapshot (some (source.takeSnapshot order))).tasks.get j =
      if j ∈ order ∧ (source.tasks.get j).isSome then
        (source.tasks.get j).map Wal.throughSnapshot
      else
        e.tasks.get j := by
  unfold loadSnapshot takeSnapshot
  dsimp only
  induction order generalizing e with
  | nil =>
      simp
  | cons id order ih =>
      cases hget : source.tasks.get id with
      | none =>
          rw [List.filterMap_cons, hget, Option.map_none, ih]
          by_cases hj : j = id
          · subst hj
            simp [hget]
          · simp [hj]
      | some t =>
          have hid : (Wal.snapshotTaskToTask (Wal.taskToSnapshotTask t)).id = id :=
            hnamed id t hget
          rw [List.filterMap_cons, hget, Option.map_some, List.foldl_cons, ih,
            get_register, hid]
          by_cases hj : j = id
          · subst hj
            simp [hget, Wal.throughSnapshot]
          · simp [hj]

/-- The registry of the directory that a checkpoint leaves: the tasks, as in a snapshot. -/
theorem loadTasks_checkpoint
    (cfg : Config) {e : Engine} {order : List TaskID}
    (hnamed : ∀ id t, e.tasks.get id = some t → t.id = id)
    (horder : e.tasks.Enumerates order)
    (d : Disk) :
    ∃ loaded, loadTasks cfg (e.checkpoint d order).2 = .ok (loaded, 0) ∧
      loaded.dlq = [] ∧
      ∀ j, loaded.tasks.get j = (e.tasks.get j).map Wal.throughSnapshot := by
  refine ⟨(new cfg).loadSnapshot (some (e.takeSnapshot order)), rfl, ?_, ?_⟩
  · exact loadSnapshot_induction (fun e => e.dlq = []) rfl (fun e st he => he) _
  · intro j
    rw [get_loadSnapshot hnamed]
    split_ifs with hj
    · rfl
    · have hnone : e.tasks.get j = none := by
        rw [horder.mem, and_self] at hj
        simpa using hj
      rw [hnone]
      exact GoMap.get_empty j

end Engine
end TaskQueue
