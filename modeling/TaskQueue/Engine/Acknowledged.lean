import Mathlib.Tactic
import TaskQueue.Engine.Placement

/-!
# Acknowledged tasks over restarts

A task whose `Submit` returned nil should be in the registry of every later
process.  `Recover` skips the entries of the log up to the number `LastSeq` of the
snapshot, but it takes the counter of the new log from the log alone: after a
restart on an empty log the counter starts again at zero, below `LastSeq`, and
the tasks submitted then are skipped by the next `Recover` (`restart_losesTask`).
`acknowledged_survive` shows that nothing else loses a task: if every `Submit` is
made with the counter at or above `LastSeq`, all of them survive.
-/

namespace TaskQueue

open Lib (GoMap)
open Queue
open Wal (Log LogEnv LogRecord Snapshot)

namespace Engine

/-- These tasks are registered. -/
def HasTasks (ids : TaskID → Prop) (e : Engine) : Prop :=
  ∀ id, ids id → (e.tasks.get id).isSome = true

theorem HasTasks.mono
    {ids ids' : TaskID → Prop} {e : Engine}
    (h : HasTasks ids e)
    (hless : ∀ id, ids' id → ids id) :
    HasTasks ids' e :=
  fun id hid => h id (hless id hid)

/-- The record of a new task brings it back, if its number is above the snapshot's. -/
theorem Loads.enqueue
    {d : Disk} {ids : TaskID → Prop}
    (h : Loads d (HasTasks ids))
    {r : LogRecord EntryData} {t : Task}
    (hlen : r.bodyLen ≤ Wal.maxBody)
    (htype : r.entry.type = .enqueue)
    (htask : r.entry.data.task = some t)
    (hseq : d.snapSeq < r.entry.seq) :
    Loads (d.extend r) (HasTasks fun id => id = t.id ∨ ids id) := by
  refine h.extend hlen (fun _ => by rw [htask]; rfl) (fun hle => by omega) ?_
  intro e e' he happly id hid
  simp only [applyEntry, htype, htask, Except.ok.injEq] at happly
  rw [← happly, get_register]
  split_ifs with hself
  · rfl
  · rcases hid with hid | hid
    · exact absurd hid hself
    · exact he id hid

end Engine

namespace System

open Engine (HandlerError HasTasks Loads SameTasks sameTasks_updateTask sameTasks_promoteReady)

/-- The tasks that have been accepted, or will be if the process lives. -/
def Pledged (s : System) (id : TaskID) : Prop :=
  id ∈ s.acked ∨ id ∈ s.blocked

/--
All accepted tasks are registered; `Recover` would succeed in reading the directory
and find all of them; and it skips no record of a new task that the snapshot does
not have.
-/
def Survives (s : System) : Prop :=
  HasTasks (· ∈ s.acked) s.engine ∧
  Loads s.disk (HasTasks (· ∈ s.acked)) ∧
  ∀ r ∈ s.disk.walBin, r.entry.type = .enqueue → r.entry.seq ≤ s.disk.snapSeq →
    ∃ snap ∈ s.disk.snapshot, ∃ st ∈ snap.tasks, st.id = r.entry.taskID

/--
The condition on a step: a `Submit` is made with the counter of the log at or above
`LastSeq` of the snapshot, and no record is longer than `Replay` accepts.
-/
def Numbered (s : System) : Event → Prop
  | .submit _ _ _ len => s.disk.snapSeq ≤ s.engine.walLog.seq ∧ len ≤ Wal.maxBody
  | .cancel _ _ len => len ≤ Wal.maxBody
  | .start _ len => len ≤ Wal.maxBody
  | .finish _ _ _ _ len => len ≤ Wal.maxBody
  | _ => True

instance (s : System) (e : Event) : Decidable (s.Numbered e) :=
  Event.decidable (fun _ _ _ _ => inferInstanceAs (Decidable (_ ∧ _)))
    (fun _ => instDecidableTrue) (fun _ _ _ => inferInstanceAs (Decidable (_ ≤ _)))
    (fun _ => instDecidableTrue) (fun _ _ => instDecidableTrue)
    (fun _ _ => inferInstanceAs (Decidable (_ ≤ _)))
    (fun _ _ _ _ _ => inferInstanceAs (Decidable (_ ≤ _))) (fun _ => instDecidableTrue)
    (fun _ _ _ => instDecidableTrue) (fun _ _ => instDecidableTrue) e

/-- The invariant behind `Survives`. -/
structure Kept (s : System) : Prop where
  sound : Sound s
  live : HasTasks s.Pledged s.engine
  loadable : Loads s.disk (HasTasks s.Pledged)
  numbered : ∀ r ∈ s.disk.walBin, r.entry.type = .enqueue → s.disk.snapSeq < r.entry.seq

theorem Kept.survives
    {s : System}
    (h : Kept s) :
    Survives s := by
  refine ⟨h.live.mono fun _ => Or.inl,
    h.loadable.mono fun _ he => he.mono fun _ => Or.inl, ?_⟩
  · intro r hr htype hseq
    have := h.numbered r hr htype
    omega

/-- The log has at most one more record: readable, and not of a new task. -/
def LogsSmall (d d' : Engine.Disk) : Prop :=
  Engine.Disk.Grows (fun r => r.entry.type ≠ .enqueue ∧ r.bodyLen ≤ Wal.maxBody) d d'

theorem logsSmall_append
    (e : Engine) (d : Engine.Disk) (type : Wal.EntryType) (id : TaskID)
    (data : Engine.EntryData) (now : Time) {len : Nat}
    (htype : type ≠ .enqueue)
    (hlen : len ≤ Wal.maxBody) :
    LogsSmall d (e.append d type id data (LogEnv.noError now len)).2.1 :=
  Engine.grows_append ⟨htype, hlen⟩ d

/-- A step that accepts no task and logs none keeps the invariant. -/
theorem Kept.moved
    {s s' : System}
    (h : Kept s)
    (hsound : Sound s')
    (htasks : SameTasks s.engine s'.engine)
    (hpledged : ∀ id, s'.Pledged id → s.Pledged id)
    (hdisk : LogsSmall s.disk s'.disk) :
    Kept s' := by
  refine ⟨hsound, ?_, ?_, ?_⟩
  · intro id hid
    rw [htasks.isSome]
    exact h.live id (hpledged id hid)
  · have hsame : Loads s'.disk (HasTasks s.Pledged) := by
      rcases hdisk with hd | ⟨r, ⟨htype, hlen⟩, hd⟩
      · rw [hd]
        exact h.loadable
      · rw [hd]
        exact h.loadable.extend hlen (fun henq => absurd henq htype) (fun _ _ he => he)
          fun _ _ he happly id hid => Engine.applyEntry_isSome happly (he id hid)
    exact hsame.mono fun _ he => he.mono hpledged
  · rcases hdisk with hd | ⟨r, ⟨htype, -⟩, hd⟩
    · rw [hd]
      exact h.numbered
    · rw [hd]
      intro r' hr' henq
      rcases List.mem_append.mp hr' with hold | hnew
      · exact h.numbered r' hold henq
      · rw [List.mem_singleton] at hnew
        rw [hnew] at henq
        exact absurd henq htype

/-- A task that is registered and logged with a number above the snapshot's is kept. -/
theorem Kept.logged
    {s s' : System} {t : Task} {now : Time} {len : Nat}
    (h : Kept s)
    (hsound : Sound s')
    (hlen : len ≤ Wal.maxBody)
    (hseq : s.disk.snapSeq ≤ s.engine.walLog.seq)
    (htasks : s'.engine.tasks = (s.engine.register t).tasks)
    (hpledged : ∀ id, s'.Pledged id → id = t.id ∨ s.Pledged id)
    (hdisk : s'.disk = s.disk.extend (s.enqueueRecord t now len)) :
    Kept s' := by
  have habove : s.disk.snapSeq < (s.enqueueRecord t now len).entry.seq := by
    show s.disk.snapSeq < s.engine.walLog.seq + 1
    omega
  refine ⟨hsound, ?_, ?_, ?_⟩
  · intro id hid
    rw [htasks, Engine.get_register]
    split_ifs with hself
    · rfl
    · rcases hpledged id hid with hid | hid
      · exact absurd hid hself
      · exact h.live id hid
  · rw [hdisk]
    have hload := h.loadable.enqueue (r := s.enqueueRecord t now len) (t := t)
      hlen rfl rfl habove
    exact hload.mono fun _ he => he.mono hpledged
  · rw [hdisk]
    intro r hr henq
    rcases List.mem_append.mp hr with hold | hnew
    · exact h.numbered r hold henq
    · rw [List.mem_singleton] at hnew
      rw [hnew]
      exact habove

theorem submit_kept
    {s s' : System} {task : Task} {generatedID : TaskID} {now : Time} {len : Nat}
    (h : Kept s)
    (hok : s.Numbered (.submit task generatedID now len))
    (hstep : s.submit task generatedID now len = some s') :
    Kept s' := by
  have hsound := submit_sound h.sound hstep
  obtain ⟨hseq, hlen⟩ := hok
  obtain ⟨-, hcases⟩ := submit_cases h.sound hstep
  have hacked : ∀ j id, id ∈ j :: s.acked ∨ id ∈ s.blocked → id = j ∨ s.Pledged id := by
    intro j id hid
    rcases hid with hid | hid
    · rcases List.mem_cons.mp hid with hid | hid
      · exact Or.inl hid
      · exact Or.inr (Or.inl hid)
    · exact Or.inr (Or.inr hid)
  rcases hcases with hs | ⟨-, ⟨-, hs⟩ | ⟨-, rb, -, hs⟩ | ⟨-, hs⟩ | ⟨-, hs⟩⟩
  · subst hs
    exact h.moved hsound (SameTasks.refl _) (fun id hid => hid) (Or.inl rfl)
  · subst hs
    exact h.logged hsound hlen hseq rfl (hacked _) rfl
  · subst hs
    exact h.logged hsound hlen hseq rfl (hacked _) rfl
  · subst hs
    exact h.logged hsound hlen hseq rfl (fun id hid => Or.inr hid) rfl
  · subst hs
    refine h.logged hsound hlen hseq rfl ?_ rfl
    intro id hid
    rcases hid with hid | hid
    · exact Or.inr (Or.inl hid)
    · rcases List.mem_cons.mp hid with hid | hid
      · exact Or.inl hid
      · exact Or.inr (Or.inr hid)

theorem unblock_kept
    {s s' : System} {id : TaskID}
    (h : Kept s)
    (hstep : s.unblock id = some s') :
    Kept s' := by
  have hsound := unblock_sound h.sound hstep
  obtain ⟨hid, ⟨rb, -, hs⟩ | hs⟩ := unblock_cases hstep
  · subst hs
    refine h.moved hsound (SameTasks.refl _) ?_ (Or.inl rfl)
    intro j hj
    rcases hj with hj | hj
    · rcases List.mem_cons.mp hj with hj | hj
      · rw [hj]
        exact Or.inr hid
      · exact Or.inl hj
    · exact Or.inr (List.mem_of_mem_erase hj)
  · subst hs
    refine h.moved hsound (SameTasks.refl _) ?_ (Or.inl rfl)
    intro j hj
    rcases hj with hj | hj
    · exact Or.inl hj
    · exact Or.inr (List.mem_of_mem_erase hj)

theorem cancel_kept
    {s : System} {id : TaskID} {now : Time} {len : Nat}
    (h : Kept s)
    (hlen : len ≤ Wal.maxBody) :
    Kept (s.cancel id now len) := by
  have hsound := cancel_sound h.sound id now len
  have htasks : SameTasks s.engine (s.cancelLogged id now len).1 :=
    sameTasks_updateTask s.engine id _ (fun _ => rfl)
  have hlogs : LogsSmall s.disk (s.cancelLogged id now len).2.1 :=
    logsSmall_append _ _ _ _ _ _ (by simp) hlen
  rcases cancel_cases s id now len with hs | ⟨t, -, -, ⟨-, hs⟩ | ⟨-, hs⟩⟩
  · rw [hs]
    exact h
  · rw [hs] at hsound ⊢
    exact h.moved hsound htasks (fun _ hid => hid) hlogs
  · rw [hs] at hsound ⊢
    exact h.moved hsound htasks (fun _ hid => hid) hlogs

theorem schedule_kept
    {s s' : System} {now later : Time}
    (h : Kept s)
    (hstep : s.schedule now later = some s') :
    Kept s' := by
  have hsound := schedule_sound h.sound hstep
  obtain ⟨id, rest, t, -, -, hcases⟩ := schedule_cases h.sound hstep
  rcases hcases with ⟨-, hs⟩ | ⟨-, -, hs⟩ | ⟨-, rb, -, hs⟩ | ⟨-, hs⟩
  · subst hs
    exact h.moved hsound (SameTasks.refl _) (fun _ hid => hid) (Or.inl rfl)
  · subst hs
    exact h.moved hsound (sameTasks_updateTask _ _ _ (fun _ => rfl)) (fun _ hid => hid)
      (Or.inl rfl)
  · subst hs
    exact h.moved hsound (SameTasks.refl _) (fun _ hid => hid) (Or.inl rfl)
  · subst hs
    exact h.moved hsound (sameTasks_updateTask _ _ _ (fun _ => rfl)) (fun _ hid => hid)
      (Or.inl rfl)

theorem finish_kept
    {s s' : System} {id : TaskID} {result : Option HandlerError} {now : Time}
    {delay : Duration} {len : Nat}
    (h : Kept s)
    (hlen : len ≤ Wal.maxBody)
    (hstep : s.finish id result now delay len = some s') :
    Kept s' := by
  have hsound := finish_sound h.sound hstep
  obtain ⟨-, t, -, hcases⟩ := finish_cases h.sound hstep
  rcases hcases with ⟨-, hs⟩ | ⟨err, -, -, hs⟩ | ⟨err, -, -, hs⟩
  all_goals
    subst hs
    exact h.moved hsound (sameTasks_updateTask s.engine id _ (fun _ => rfl))
      (fun _ hid => hid) (logsSmall_append _ _ _ _ _ _ (by simp) hlen)

theorem checkpoint_kept
    {s s' : System} {order : List TaskID}
    (h : Kept s)
    (hstep : s.checkpoint order = some s') :
    Kept s' := by
  have hsound := checkpoint_sound h.sound hstep
  obtain ⟨horder, rfl⟩ := checkpoint_cases hstep
  refine ⟨hsound, h.live, ?_, ?_⟩
  · intro cfg
    obtain ⟨loaded, hload, -, hget⟩ := Engine.loadTasks_checkpoint cfg
      (fun id t ht => (h.sound.named id t ht).1) horder s.disk
    refine ⟨loaded, 0, hload, ?_⟩
    intro id hid
    rw [hget id, Option.isSome_map]
    exact h.live id hid
  · intro r hr
    cases hr

theorem boot_kept
    {s s' : System} {cfg : Engine.Config} {order : List TaskID}
    (h : Kept s)
    (hstep : s.boot cfg order = some s') :
    Kept s' := by
  have hsound := boot_sound h.sound hstep
  obtain ⟨loaded, last, e, hload, horder, hreb, rfl⟩ := boot_cases hstep
  have hless : ∀ id, Pledged { s with engine := e, ready := [], hands := [], blocked := [] }
      id → s.Pledged id := by
    intro id hid
    rcases hid with hid | hid
    · exact Or.inl hid
    · cases hid
  refine ⟨hsound, ?_, ?_, h.numbered⟩
  · intro id hid
    obtain ⟨loaded', last', hload', hids⟩ := h.loadable cfg
    rw [hload] at hload'
    cases hload'
    show (e.tasks.get id).isSome = true
    rw [(Engine.rebuildQueues_restarted hload horder hreb).tasks id, Option.isSome_map]
    exact hids id (hless id hid)
  · exact h.loadable.mono fun _ he => he.mono hless

theorem step_kept
    (s : System) (e : Event) (s' : System)
    (h : Kept s)
    (hok : s.Numbered e)
    (hstep : s.step e = some s') :
    Kept s' := by
  cases e with
  | submit task generatedID now len =>
      exact submit_kept h hok hstep
  | unblock id =>
      exact unblock_kept h hstep
  | cancel id now len =>
      cases hstep
      exact cancel_kept h hok
  | promote now =>
      have hsound := promote_sound h.sound hstep
      obtain ⟨-, rfl⟩ := promote_cases hstep
      exact h.moved hsound (sameTasks_promoteReady _ _) (fun _ hid => hid) (Or.inl rfl)
  | schedule now later =>
      exact schedule_kept h hstep
  | start now len =>
      have hsound := start_sound h.sound hstep
      obtain ⟨id, rb, -, rfl⟩ := start_cases hstep
      exact h.moved hsound
        (sameTasks_updateTask { s.engine with buffer := rb } id _ (fun _ => rfl))
        (fun _ hid => hid) (logsSmall_append _ _ _ _ _ _ (by simp) hok)
  | finish id result now delay len =>
      exact finish_kept h hok hstep
  | checkpoint order =>
      exact checkpoint_kept h hstep
  | shutdown order cfg recoverOrder =>
      simp only [step] at hstep
      split_ifs at hstep
      obtain ⟨t, hcheck, hboot⟩ := Option.bind_eq_some_iff.mp hstep
      exact boot_kept (checkpoint_kept h hcheck) hboot
  | kill cfg recoverOrder =>
      exact boot_kept h hstep

theorem kept_initial
    (cfg : Engine.Config) :
    Kept (initial cfg) := by
  refine ⟨sound_initial cfg, ?_, ?_, ?_⟩
  · intro id hid
    rcases hid with hid | hid <;> cases hid
  · intro cfg'
    refine ⟨_, _, rfl, ?_⟩
    intro id hid
    rcases hid with hid | hid <;> cases hid
  · intro r hr
    cases hr

/--
In every run all of whose `Submit` calls are made with the counter of the log at or
above `LastSeq` of the snapshot, over any number of checkpoints, shutdowns and kills,
the accepted tasks survive.
-/
theorem acknowledged_survive
    (cfg : Engine.Config) (es : List Event) (s : System)
    (hrun : Lib.Run step Numbered (initial cfg) es s) :
    Survives s :=
  (hrun.invariant Kept step_kept (kept_initial cfg)).survives

/-- A checkpoint in a running process, more traffic, and a kill. -/
def checkpointThenKill : List Event :=
  [.submit Task.zero "a" 10 300, .start 20 100, .checkpoint ["a"],
    .submit Task.zero "b" 30 300, .kill roomyConfig ["b", "a"]]

theorem acknowledged_survive_checkpointThenKill :
    ∃ s, Lib.Run step Numbered (initial roomyConfig) checkpointThenKill s ∧
      s.acked = ["b", "a"] ∧ Survives s := by
  obtain ⟨s, hrun, hacked⟩ :=
    Lib.exists_run_of_exec step Numbered (fun s => s.acked = ["b", "a"])
      (initial roomyConfig) checkpointThenKill (by decide +kernel)
  exact ⟨s, hrun, hacked, acknowledged_survive roomyConfig checkpointThenKill s hrun⟩

/-- A clean shutdown, a task submitted in the next process, and a kill. -/
def restartThenKill : List Event :=
  [.submit Task.zero "a" 10 300, .shutdown ["a"] roomyConfig ["a"],
    .submit Task.zero "b" 30 300, .kill roomyConfig ["a"]]

/-- The second process counts from zero, and the third skips its records. -/
theorem restart_losesTask :
    ∃ s, Lib.Run step (fun _ _ => True) (initial roomyConfig) restartThenKill s ∧
      ¬ Survives s := by
  obtain ⟨s, hrun, hacked, hlost⟩ :=
    Lib.exists_run_of_exec step (fun _ _ => True)
      (fun s => "b" ∈ s.acked ∧ (s.engine.tasks.get "b").isSome = false)
      (initial roomyConfig) restartThenKill (by decide +kernel)
  refine ⟨s, hrun, ?_⟩
  intro hsurvives
  have hkept := hsurvives.1 "b" hacked
  rw [hlost] at hkept
  cases hkept

end System
end TaskQueue
