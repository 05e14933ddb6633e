import Mathlib.Tactic
import TaskQueue.Lib.Overwrite
import TaskQueue.Engine.Reload
import TaskQueue.Engine.System

/-!
# Replay over a state that is ahead of the log

The engine changes memory before it appends, so that a snapshot can have the effects of
entries above its `LastSeq`, which `Recover` then applies once more.  Every entry writes
constants: it puts a task in place, or sets fields of the task that is there
(`slotWrite`), and it sets a key (`keyWrite`).  Such writes overwrite, and
`replay_overlap` follows: a part of a log that is replayed twice has no further effect on
the registry and the idempotency keys.
-/

namespace TaskQueue

open Lib (GoMap Overwriting)
open Queue
open Wal (Log LogEnv LogRecord Snapshot)

namespace Engine

/-- The fields of a task that an entry sets. -/
structure Patch where
  state : Option TaskState
  scheduledAt : Option Time
  startedAt : Option Time
  completedAt : Option Time
  retryCount : Option Int
  lastError : Option String

/-- Nothing is set. -/
def Patch.none : Patch :=
  ⟨Option.none, Option.none, Option.none, Option.none, Option.none, Option.none⟩

/-- Set the fields. -/
def Patch.apply (p : Patch) (t : Task) : Task :=
  { t with
    state := p.state.getD t.state
    scheduledAt := p.scheduledAt.getD t.scheduledAt
    startedAt := p.startedAt.getD t.startedAt
    completedAt := p.completedAt.getD t.completedAt
    retryCount := p.retryCount.getD t.retryCount
    lastError := p.lastError.getD t.lastError }

/-- A text that is not empty. -/
def textOf (text : String) : Option String :=
  if text = "" then Option.none else some text

/-- The fields that an entry sets in the task that it names. -/
def patchOf (entry : Entry) : Patch :=
  match entry.type with
  | .start => { Patch.none with state := some .running, startedAt := some entry.timestamp }
  | .complete =>
      { Patch.none with state := some .completed, completedAt := some entry.timestamp }
  | .fail => { Patch.none with state := some .failed, lastError := textOf entry.data.text }
  | .retry =>
      { Patch.none with
        state := some .scheduled
        scheduledAt := entry.data.retry.bind RetryData.nextAt
        retryCount := entry.data.retry.bind RetryData.retryCount
        lastError := entry.data.retry.bind RetryData.error }
  | .dead =>
      { Patch.none with
        state := some .dead
        completedAt := some entry.timestamp
        lastError := textOf entry.data.text }
  | .cancel =>
      { Patch.none with state := some .cancelled, completedAt := some entry.timestamp }
  | _ => Patch.none

theorem errorOr_eq
    (text before : String) :
    errorOr text before = (textOf text).getD before := by
  unfold errorOr textOf
  split_ifs <;> rfl

/-- What an entry writes does not depend on the task. -/
theorem entryUpdate_eq_apply
    (entry : Entry) (t : Task) :
    entryUpdate entry t = (patchOf entry).apply t := by
  unfold entryUpdate patchOf
  cases entry.type
  case fail =>
    simp only [errorOr_eq]
    rfl
  case dead =>
    simp only [errorOr_eq]
    rfl
  case retry =>
    cases entry.data.retry <;> rfl
  all_goals
    rfl

theorem Patch.apply_again
    (p : Patch) (t : Task) :
    p.apply (p.apply t) = p.apply t := by
  simp only [Patch.apply, Lib.getD_again]

theorem Patch.apply_hides
    (p q : Patch) (t : Task) :
    p.apply (q.apply (p.apply t)) = p.apply (q.apply t) := by
  simp only [Patch.apply, Lib.getD_over]

/-- What an entry does to the place of one task in the registry. -/
inductive SlotWrite
  | keep
  | put (task : Task)
  | patch (p : Patch)

/-- The place after the write. -/
def SlotWrite.apply : SlotWrite → Option Task → Option Task
  | .keep, slot => slot
  | .put task, _ => some task
  | .patch p, slot => slot.map p.apply

theorem slotWrite_overwriting :
    Overwriting (fun slot (x : SlotWrite) => x.apply slot) where
  again := by
    intro slot x
    cases x with
    | keep =>
        rfl
    | put task =>
        rfl
    | patch p =>
        cases slot with
        | none =>
            rfl
        | some t =>
            exact congrArg some (p.apply_again t)
  hides := by
    intro slot x y
    cases x with
    | keep =>
        rfl
    | put task =>
        rfl
    | patch p =>
        cases y with
        | put task =>
            rfl
        | keep =>
            cases slot with
            | none =>
                rfl
            | some t =>
                exact congrArg some (p.apply_again t)
        | patch q =>
            cases slot with
            | none =>
                rfl
            | some t =>
                exact congrArg some (p.apply_hides q t)

/-- What an entry does to the place of `id` in the registry. -/
def slotWrite (entry : Entry) (id : TaskID) : SlotWrite :=
  if entry.type = .enqueue then
    match entry.data.task with
    | some task => if id = task.id then .put task else .keep
    | none => .keep
  else if id = entry.taskID then
    .patch (patchOf entry)
  else
    .keep

/-- The ID to which an entry sets a key. -/
def keyWrite (entry : Entry) (key : String) : Option TaskID :=
  if entry.type = .enqueue then
    match entry.data.task with
    | some task =>
        if task.idempotencyKey ≠ "" ∧ key = task.idempotencyKey then some task.id else none
    | none => none
  else
    none

theorem keyWrite_overwriting :
    Overwriting (fun (slot : Option TaskID) (x : Option TaskID) => x.or slot) where
  again := by
    intro slot x
    cases x <;> rfl
  hides := by
    intro slot x y
    cases x <;> rfl

/-- The registry and the keys, read place by place. -/
def view (e : Engine) : (TaskID → Option Task) × (String → Option TaskID) :=
  (e.tasks.get, e.idempKeys.get)

/-- What an entry does to all places. -/
def viewWrite (v : (TaskID → Option Task) × (String → Option TaskID)) (entry : Entry) :
    (TaskID → Option Task) × (String → Option TaskID) :=
  (fun id => (slotWrite entry id).apply (v.1 id), fun key => (keyWrite entry key).or (v.2 key))

theorem viewWrite_overwriting :
    Overwriting viewWrite := by
  have htasks : Overwriting (fun (tasks : TaskID → Option Task) (entry : Entry) id =>
      (slotWrite entry id).apply (tasks id)) := by
    refine Overwriting.pointwise (g := fun id entry slot => (slotWrite entry id).apply slot) ?_
    intro id
    exact slotWrite_overwriting.comap (fun entry => slotWrite entry id)
  have hkeys : Overwriting (fun (keys : String → Option TaskID) (entry : Entry) key =>
      (keyWrite entry key).or (keys key)) := by
    refine Overwriting.pointwise (g := fun key entry slot => (keyWrite entry key).or slot) ?_
    intro key
    exact keyWrite_overwriting.comap (fun entry => keyWrite entry key)
  exact htasks.prod hkeys

/-- `applyEntry` does to the engine what the entry says place by place. -/
theorem view_applyEntry
    {e e' : Engine} {entry : Entry}
    (h : e.applyEntry entry = .ok e') :
    e'.view = viewWrite e.view entry := by
  by_cases htype : entry.type = .enqueue
  · obtain ⟨t, htask, rfl⟩ : ∃ t, entry.data.task = some t ∧ e' = e.register t := by
      cases htask : entry.data.task with
      | none =>
          simp [applyEntry, htype, htask] at h
      | some t =>
          simp only [applyEntry, htype, htask, Except.ok.injEq] at h
          exact ⟨t, rfl, h.symm⟩
    refine Prod.ext (funext fun id => ?_) (funext fun key => ?_)
    · show (e.register t).tasks.get id = (slotWrite entry id).apply (e.tasks.get id)
      rw [get_register, slotWrite, if_pos htype, htask]
      dsimp only
      split_ifs <;> rfl
    · show (e.register t).idempKeys.get key = (keyWrite entry key).or (e.idempKeys.get key)
      rw [idempKeys_register, keyWrite, if_pos htype, htask]
      dsimp only
      split_ifs <;> rfl
  · obtain ⟨hkeys, htasks⟩ := applyEntry_update h htype
    refine Prod.ext (funext fun id => ?_) (funext fun key => ?_)
    · show e'.tasks.get id = (slotWrite entry id).apply (e.tasks.get id)
      rw [htasks, get_updateTask, slotWrite, if_neg htype]
      split_ifs with hid
      · rw [hid, funext (entryUpdate_eq_apply entry)]
        rfl
      · rfl
    · show e'.idempKeys.get key = (keyWrite entry key).or (e.idempKeys.get key)
      rw [hkeys, keyWrite, if_neg htype]
      rfl

/-- The view after a replay. -/
theorem view_replay
    {l : List Entry} {e e' : Engine}
    (h : l.foldlM applyEntry e = .ok e') :
    e'.view = l.foldl viewWrite e.view := by
  induction l generalizing e with
  | nil =>
      cases h
      rfl
  | cons entry l ih =>
      rw [List.foldlM_cons] at h
      cases happly : e.applyEntry entry with
      | error msg =>
          rw [happly] at h
          cases h
      | ok e₁ =>
          rw [happly] at h
          rw [ih h, view_applyEntry happly, List.foldl_cons]

/-- The registry and the keys can be told from the view. -/
theorem eq_of_view_eq
    {e e' : Engine}
    (h : e.view = e'.view) :
    e.tasks = e'.tasks ∧ e.idempKeys = e'.idempKeys := by
  constructor
  · exact GoMap.ext fun id => congrFun (congrArg Prod.fst h) id
  · exact GoMap.ext fun key => congrFun (congrArg Prod.snd h) key

/-- A replay fails at an entry that is not acceptable, and nowhere else. -/
theorem replay_fails_iff
    (l : List Entry) (e : Engine) :
    (∃ msg, l.foldlM applyEntry e = .error msg) ↔ ∃ entry ∈ l, ¬ Acceptable entry := by
  induction l generalizing e with
  | nil =>
      constructor
      · rintro ⟨msg, h⟩
        cases h
      · rintro ⟨entry, hentry, -⟩
        cases hentry
  | cons entry l ih =>
      rw [List.foldlM_cons]
      by_cases hok : Acceptable entry
      · obtain ⟨e₁, happly⟩ := applyEntry_isOk e hok
        rw [happly]
        refine (ih e₁).trans ?_
        simp [hok]
      · have htype : entry.type = .enqueue := by
          by_contra hne
          exact hok fun h => absurd h hne
        have htask : entry.data.task = none := by
          by_contra hsome
          exact hok fun _ => Option.isSome_iff_ne_none.mpr hsome
        constructor
        · intro _
          exact ⟨entry, List.mem_cons_self, hok⟩
        · intro _
          refine ⟨"unmarshal enqueue: invalid JSON", ?_⟩
          have happly : e.applyEntry entry = .error "unmarshal enqueue: invalid JSON" := by
            simp only [applyEntry, htype, htask]
          rw [happly]
          rfl

/-- Replay the first `j` entries, and then the entries from `i` on. -/
def replayOverlapping (e : Engine) (l : List Entry) (i j : Nat) : Except String Engine :=
  (l.take j).foldlM applyEntry e >>= fun ahead => (l.drop i).foldlM applyEntry ahead

/--
Replaying the first `j` entries and then those from `i ≤ j` on fails if and only if
replaying all of them once does, and otherwise gives the same registry and the same
idempotency keys.
-/
theorem replay_overlap
    (e : Engine) (l : List Entry) (i j : Nat)
    (hij : i ≤ j) :
    ((∃ msg, e.replayOverlapping l i j = .error msg) ↔
      ∃ msg, l.foldlM applyEntry e = .error msg) ∧
    ∀ twice once, e.replayOverlapping l i j = .ok twice → l.foldlM applyEntry e = .ok once →
      twice.tasks = once.tasks ∧ twice.idempKeys = once.idempKeys := by
  have hjoin : e.replayOverlapping l i j = (l.take j ++ l.drop i).foldlM applyEntry e :=
    (List.foldlM_append).symm
  constructor
  · rw [hjoin, replay_fails_iff, replay_fails_iff]
    constructor
    · rintro ⟨entry, hentry, hbad⟩
      rcases List.mem_append.mp hentry with hmem | hmem
      · exact ⟨entry, List.mem_of_mem_take hmem, hbad⟩
      · exact ⟨entry, List.mem_of_mem_drop hmem, hbad⟩
    · rintro ⟨entry, hentry, hbad⟩
      rw [← List.take_append_drop j l] at hentry
      refine ⟨entry, ?_, hbad⟩
      rcases List.mem_append.mp hentry with hmem | hmem
      · exact List.mem_append_left _ hmem
      · exact List.mem_append_right _ ((List.drop_subset_drop_left l hij) hmem)
  · intro twice once htwice honce
    rw [hjoin] at htwice
    apply eq_of_view_eq
    rw [view_replay htwice, view_replay honce, List.foldl_append]
    exact viewWrite_overwriting.foldl_overlap l hij e.view

/-- The log of a task that is retried once and then completes. -/
def retriedLog : List Entry :=
  [⟨1, .enqueue, "a", 10, .ofTask { Task.zero with id := "a", idempotencyKey := "k" }⟩,
    ⟨2, .start, "a", 20, .nil⟩, ⟨3, .retry, "a", 30, .ofRetry "boom" 1 40⟩,
    ⟨4, .start, "a", 50, .nil⟩, ⟨5, .complete, "a", 60, .nil⟩]

theorem replay_overlap_retried :
    1 ≤ 4 ∧
    ((new System.roomyConfig).replayOverlapping retriedLog 1 4).isOk = true ∧
    ((∃ msg, (new System.roomyConfig).replayOverlapping retriedLog 1 4 = .error msg) ↔
      ∃ msg, retriedLog.foldlM applyEntry (new System.roomyConfig) = .error msg) ∧
    ∀ twice once, (new System.roomyConfig).replayOverlapping retriedLog 1 4 = .ok twice →
      retriedLog.foldlM applyEntry (new System.roomyConfig) = .ok once →
      twice.tasks = once.tasks ∧ twice.idempKeys = once.idempKeys :=
  ⟨by decide, by decide +kernel, replay_overlap _ retriedLog 1 4 (by decide)⟩

end Engine
end TaskQueue
