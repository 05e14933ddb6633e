import Mathlib.Tactic
import TaskQueue.Engine.Files
import TaskQueue.Engine.Places

/-!
# A checkpoint that is killed

One process on an empty directory, with any operations and checkpoints, is killed at some
point of a further checkpoint.  `checkpoint_interrupted` shows that the next `Recover`
brings every task back as it was submitted and with its outcome, whichever files the
checkpoint has got to: a snapshot stands for all records up to its number, and the log is
moved away only when the snapshot is in place.  Two limits of `Recover` itself show here as
well: a buffer that blocks when the tasks do not fit, and the largest record that `Replay`
accepts (`interrupted_blocks`).
-/

namespace TaskQueue

open Lib (GoMap)
open Queue
open Wal (Log LogEnv LogRecord Snapshot)

namespace Engine

/-- What has become of a task. -/
inductive OutcomeClass
  | completed
  | dead
  | cancelled
  | toRun
  | other
deriving DecidableEq, Repr

/-- The outcome that a state stands for. -/
def outcomeClass : TaskState → OutcomeClass
  | .completed => .completed
  | .dead => .dead
  | .cancelled => .cancelled
  | .pending | .scheduled | .running => .toRun
  | .failed | .retrying | .expired => .other

theorem outcomeClass_of_toBuffer
    {x : TaskState}
    (h : toBuffer x = true) :
    outcomeClass x = .toRun := by
  cases x <;> first | rfl | cases h

theorem toBuffer_or_scheduled
    {x : TaskState}
    (h : outcomeClass x = .toRun) :
    toBuffer x = true ∨ x = .scheduled := by
  cases x <;> first | exact Or.inl rfl | exact Or.inr rfl | cases h

/-- A task and what a later process has of it. -/
structure Restored (t t' : Task) : Prop where
  submission : submissionOf t' = submissionOf t
  outcome : t.expiresAt = zeroTime → outcomeClass t'.state = outcomeClass t.state

/-- The same between a live task and the directory, where an expiry is not noted. -/
structure Tracked (t t' : Task) : Prop where
  submission : submissionOf t' = submissionOf t
  outcome : outcomeClass t'.state = outcomeClass t.state ∨
    (t.state = .expired ∧ t.expiresAt ≠ zeroTime)

theorem Tracked.refl
    (t : Task) :
    Tracked t t :=
  ⟨rfl, Or.inl rfl⟩

theorem Tracked.throughSnapshot
    (t : Task) :
    Tracked t (Wal.throughSnapshot t) :=
  ⟨rfl, Or.inl rfl⟩

theorem outcomeClass_requeue
    (t : Task) :
    outcomeClass (requeue t).state = outcomeClass t.state := by
  unfold requeue
  split_ifs with h
  · rw [h]
    rfl
  · rfl

/-- What `Recover` makes of the task in the directory. -/
theorem Tracked.requeued
    {t t' : Task}
    (h : Tracked t t') :
    Restored t (requeue t') := by
  constructor
  · rw [submissionOf_requeue, h.submission]
  · intro hexpires
    rw [outcomeClass_requeue]
    exact h.outcome.resolve_right fun hexpired => hexpired.2 hexpires

/-- The snapshot has the task as pending, and the log has no record of it since. -/
def Disk.lastSeenPending (d : Disk) (id : TaskID) : Bool :=
  decide (d.snapshotState id = some .pending) &&
    d.walBin.all fun r => decide (r.entry.taskID ≠ id)

theorem Disk.lastSeenPending_extend
    {r : LogRecord EntryData} {id : TaskID}
    (hother : r.entry.taskID ≠ id)
    (d : Disk) :
    (d.extend r).lastSeenPending id = d.lastSeenPending id := by
  have hsnap : (d.extend r).snapshotState id = d.snapshotState id := rfl
  have hlog : (d.extend r).walBin = d.walBin ++ [r] := rfl
  rw [lastSeenPending, lastSeenPending, hsnap, hlog, List.all_append, List.all_cons,
    List.all_nil, decide_eq_true hother, Bool.and_true, Bool.and_true]

theorem runnable_of_stateOf
    {e : Engine} {id : TaskID} {x : TaskState}
    (h : e.stateOf id = some x) :
    e.runnable id = toBuffer x := by
  rw [runnable, h]
  rfl

end Engine

namespace System

open Engine (HandlerError Related Tracked Restored Loads Directory submissionOf toBuffer)

/--
What the directory has as pending or running is so in memory, or was last seen pending in the
snapshot.
-/
def Owed (s : System) (loaded : Engine) : Prop :=
  ∀ id, loaded.runnable id = true →
    s.disk.lastSeenPending id = true ∨ (s.engine.runnable id = true ∧ id ∉ s.ready)

/-- The directory has the live tasks, and a snapshot now would stand for the whole log. -/
structure Covered (s : System) : Prop where
  sound : Sound s
  placed : Placed s
  loads : Loads s.disk (fun loaded => Related Tracked s.engine loaded ∧ s.Owed loaded)
  counter : s.disk.snapSeq ≤ s.engine.walLog.seq
  numbers : ∀ r ∈ s.disk.walBin, r.entry.seq ≤ s.engine.walLog.seq

/-- The event belongs to one process. -/
def Event.oneLifetime : Event → Bool
  | .shutdown _ _ _ => false
  | .kill _ _ => false
  | _ => true

/-- The condition on a step: no record is longer than `Replay` accepts. -/
def Event.readable : Event → Bool
  | .submit _ _ _ len => decide (len ≤ Wal.maxBody)
  | .cancel _ _ len => decide (len ≤ Wal.maxBody)
  | .start _ len => decide (len ≤ Wal.maxBody)
  | .finish _ _ _ _ len => decide (len ≤ Wal.maxBody)
  | _ => true

/-- One more record in the log. -/
theorem Covered.numbered
    {s : System}
    (h : Covered s)
    {r : LogRecord Engine.EntryData}
    (hr : r.entry.seq = s.engine.walLog.seq + 1) :
    ∀ r' ∈ (s.disk.extend r).walBin, r'.entry.seq ≤ s.engine.walLog.seq + 1 := by
  intro r' hr'
  rcases List.mem_append.mp hr' with hold | hnew
  · exact (h.numbers r' hold).trans (Nat.le_succ _)
  · rw [List.mem_singleton] at hnew
    rw [hnew, hr]

/-- The state of one task is set, and a record says so. -/
theorem Covered.logged
    {s s' : System} {id : TaskID} {f : Task → Task} {x : TaskState} {type : Wal.EntryType}
    {data : Engine.EntryData} {now : Time} {len : Nat}
    (h : Covered s)
    (hsound : Sound s')
    (hplaced : Placed s')
    (hlen : len ≤ Wal.maxBody)
    (htasks : s'.engine.tasks = (s.engine.updateTask id f).tasks)
    (hseq : s'.engine.walLog.seq = s.engine.walLog.seq + 1)
    (hdisk : s'.disk =
      s.disk.extend (s.engine.walLog.record type id data (LogEnv.noError now len)))
    (hx : Engine.writtenState type = some x)
    (hf : ∀ t, (f t).state = x ∧ submissionOf (f t) = submissionOf t)
    (hready : ∀ j ∈ s'.ready, j ∈ s.ready)
    (hself : toBuffer x = true → id ∉ s'.ready) :
    Covered s' := by
  have htype : type ≠ .enqueue := by
    intro henq
    rw [henq] at hx
    cases hx
  have hlive : Engine.SetsState s.engine id x s'.engine := by
    intro j
    rw [Engine.stateOf, htasks]
    exact Engine.setsState_updateTask s.engine id (fun t => (hf t).1) j
  refine ⟨hsound, hplaced, ?_, ?_, ?_⟩
  · rw [hdisk]
    refine h.loads.extend hlen (fun henq => absurd henq htype) ?_ ?_
    · intro hskip
      exact absurd hskip (Engine.record_not_skipped h.counter _ _ _ _)
    · rintro e e' ⟨hrel, howed⟩ happly
      have hload : Engine.SetsState e id x e' := Engine.applyEntry_sets happly hx
      constructor
      · intro j
        rw [htasks, (Engine.applyEntry_update happly htype).2]
        refine hrel.update ?_ j
        intro t t' _ _ htt
        constructor
        · rw [Engine.submissionOf_entryUpdate, htt.submission, (hf t).2]
        · rw [(hf t).1, Engine.entryUpdate_state hx]
          exact Or.inl rfl
      · intro j hj
        rw [hdisk]
        by_cases hji : j = id
        · subst hji
          right
          obtain ⟨y, hy, hrun⟩ := Engine.stateOf_of_runnable hj
          obtain ⟨hsome, rfl⟩ := hload.of_some hy
          rw [hrel.isSome] at hsome
          rw [Engine.runnable_of_stateOf (hlive.self hsome)]
          exact ⟨hrun, hself hrun⟩
        · rw [Engine.runnable, hload.of_ne hji] at hj
          rcases howed j hj with hsnap | ⟨hrun, hnot⟩
          · left
            rw [Engine.Disk.lastSeenPending_extend (Ne.symm hji)]
            exact hsnap
          · right
            rw [Engine.runnable, hlive.of_ne hji]
            exact ⟨hrun, fun hmem => hnot (hready j hmem)⟩
  · rw [hdisk, hseq]
    exact h.counter.trans (Nat.le_succ _)
  · rw [hdisk, hseq]
    exact h.numbered rfl

/-- The log is as it was; what the directory has is still right. -/
theorem Covered.unlogged
    {s s' : System}
    (h : Covered s)
    (hsound : Sound s')
    (hplaced : Placed s')
    (hdisk : s'.disk = s.disk)
    (hseq : s'.engine.walLog = s.engine.walLog)
    (hkeeps : ∀ loaded, Related Tracked s.engine loaded → s.Owed loaded →
      Related Tracked s'.engine loaded ∧ s'.Owed loaded) :
    Covered s' := by
  refine ⟨hsound, hplaced, ?_, ?_, ?_⟩
  · rw [hdisk]
    exact h.loads.mono fun loaded hloaded => hkeeps loaded hloaded.1 hloaded.2
  · rw [hdisk, hseq]
    exact h.counter
  · rw [hdisk, hseq]
    exact h.numbers

/-- No task changes and none becomes ready. -/
theorem Covered.moved
    {s s' : System}
    (h : Covered s)
    (hsound : Sound s')
    (hplaced : Placed s')
    (htasks : s'.engine.tasks = s.engine.tasks)
    (hready : ∀ j ∈ s'.ready, j ∈ s.ready)
    (hdisk : s'.disk = s.disk)
    (hseq : s'.engine.walLog = s.engine.walLog) :
    Covered s' := by
  refine h.unlogged hsound hplaced hdisk hseq ?_
  intro loaded hrel howed
  constructor
  · intro j
    rw [htasks]
    exact hrel j
  · intro j hj
    rw [hdisk]
    refine (howed j hj).imp_right ?_
    rintro ⟨hrun, hnot⟩
    refine ⟨?_, fun hmem => hnot (hready j hmem)⟩
    rw [Engine.runnable, Engine.stateOf, htasks]
    exact hrun

/-- A new task is registered and logged. -/
theorem Covered.enrolled
    {s s' : System} {t : Task} {now : Time} {len : Nat}
    (h : Covered s)
    (hsound : Sound s')
    (hplaced : Placed s')
    (hlen : len ≤ Wal.maxBody)
    (hid : t.id ∉ s.issued)
    (htasks : s'.engine.tasks = (s.engine.register t).tasks)
    (hseq : s'.engine.walLog.seq = s.engine.walLog.seq + 1)
    (hdisk : s'.disk = s.disk.extend (s.enqueueRecord t now len))
    (hready : s'.ready = s.ready) :
    Covered s' := by
  refine ⟨hsound, hplaced, ?_, ?_, ?_⟩
  · rw [hdisk]
    refine h.loads.extend hlen (fun _ => rfl) ?_ ?_
    · intro hskip
      exact absurd hskip (Engine.record_not_skipped h.counter _ _ _ _)
    · rintro e e' ⟨hrel, howed⟩ happly
      cases happly
      constructor
      · intro j
        rw [htasks]
        exact hrel.register (Tracked.refl t) j
      · intro j hj
        rw [hdisk, hready]
        rw [Engine.runnable, Engine.stateOf, Engine.get_register] at hj
        rw [Engine.runnable, Engine.stateOf, htasks, Engine.get_register]
        split_ifs at hj ⊢ with hjt
        · refine Or.inr ⟨hj, ?_⟩
          rw [hjt]
          intro hmem
          obtain ⟨t₀, ht₀⟩ := h.sound.registered_of_mem (p := .ready) hmem
          exact hid (h.sound.named _ t₀ ht₀).2
        · rw [Engine.Disk.lastSeenPending_extend (Ne.symm hjt)]
          exact howed j hj
  · rw [hdisk, hseq]
    exact h.counter.trans (Nat.le_succ _)
  · rw [hdisk, hseq]
    exact h.numbered rfl

theorem submit_covered
    {s s' : System} {task : Task} {generatedID : TaskID} {now : Time} {len : Nat}
    (h : Covered s)
    (hlen : len ≤ Wal.maxBody)
    (hstep : s.submit task generatedID now len = some s') :
    Covered s' := by
  have hsound := submit_sound h.sound hstep
  have hplaced := submit_placed h.sound h.placed hstep
  obtain ⟨hid, hcases⟩ := submit_cases h.sound hstep
  rcases hcases with hs | ⟨-, ⟨-, hs⟩ | ⟨-, rb, -, hs⟩ | ⟨-, hs⟩ | ⟨-, hs⟩⟩
  · subst hs
    exact h.moved hsound hplaced rfl (fun _ hj => hj) rfl rfl
  all_goals
    subst hs
    exact h.enrolled hsound hplaced hlen hid rfl rfl rfl rfl

theorem unblock_covered
    {s s' : System} {id : TaskID}
    (h : Covered s)
    (hstep : s.unblock id = some s') :
    Covered s' := by
  have hsound := unblock_sound h.sound hstep
  have hplaced := unblock_placed h.sound h.placed hstep
  obtain ⟨-, ⟨rb, -, hs⟩ | hs⟩ := unblock_cases hstep
  all_goals
    subst hs
    exact h.moved hsound hplaced rfl (fun _ hj => hj) rfl rfl

theorem maxBody_le_maxUint32 :
    Wal.maxBody ≤ Wal.maxUint32 := by
  decide

theorem cancel_covered
    {s : System} {id : TaskID} {now : Time} {len : Nat}
    (h : Covered s)
    (hlen : len ≤ Wal.maxBody) :
    Covered (s.cancel id now len) := by
  have hfits := hlen.trans maxBody_le_maxUint32
  have hsound := cancel_sound h.sound id now len
  have hplaced := cancel_placed h.sound h.placed hfits id now
  rcases cancel_logged h.sound hfits id now with hs | ⟨t, -, -, hs⟩
  · rw [hs]
    exact h
  · rw [hs] at hsound hplaced ⊢
    exact h.logged hsound hplaced hlen (f := Engine.cancelledAt now) rfl rfl rfl rfl
      (fun t => ⟨rfl, rfl⟩) (fun _ hj => hj) (fun hx => by cases hx)

/-- A ready or delayed task that the directory has as pending was last seen so. -/
theorem Owed.of_not_runnable
    {s : System} {loaded : Engine}
    (h : s.Owed loaded)
    {id : TaskID}
    (hnot : s.engine.runnable id = true → id ∈ s.ready)
    (hid : loaded.runnable id = true) :
    s.disk.lastSeenPending id = true :=
  (h id hid).resolve_right fun hrun => hrun.2 (hnot hrun.1)

theorem promote_covered
    {s s' : System} {now : Time}
    (h : Covered s)
    (hstep : s.promote now = some s') :
    Covered s' := by
  have hsound := promote_sound h.sound hstep
  have hplaced := promote_placed h.sound h.placed hstep
  obtain ⟨-, hs⟩ := promote_cases hstep
  have hmem : ∀ j ∈ (s.engine.promoteReady now).1, j ∈ s.engine.heap.inner := fun j hj =>
    (Engine.promoteReady_promoted s.engine now).perm.mem_iff.mp (List.mem_append_left _ hj)
  have hget := Engine.get_promoteReady s.engine now
  subst hs
  refine h.unlogged hsound hplaced rfl rfl ?_
  intro loaded hrel howed
  constructor
  · intro j
    show Option.Rel Tracked ((s.engine.promoteReady now).2.tasks.get j) _
    rw [hget j]
    split_ifs with hj
    · obtain ⟨t, ht, hstate⟩ :=
        Option.map_eq_some_iff.mp (h.placed.state_of_heap (hmem j hj))
      obtain ⟨t', ht', htt⟩ := hrel.get_some ht
      rw [ht, ht']
      refine Option.Rel.some ⟨htt.submission, Or.inl ?_⟩
      have hsame := htt.outcome.resolve_right fun hexpired => by
        rw [hstate] at hexpired
        cases hexpired.1
      rw [hsame, hstate]
      rfl
    · exact hrel j
  · intro j hj
    by_cases hready : j ∈ (s.engine.promoteReady now).1
    · left
      refine howed.of_not_runnable ?_ hj
      intro hrun
      rw [Engine.runnable_of_stateOf (h.placed.state_of_heap (hmem j hready))] at hrun
      cases hrun
    · refine (howed j hj).imp_right fun hrun => ⟨?_, hready⟩
      show (s.engine.promoteReady now).2.runnable j = true
      rw [Engine.runnable, Engine.stateOf, hget j, if_neg hready]
      exact hrun.1

/-- The scheduler writes to the ready task at the front and drops it from the list. -/
theorem Covered.scheduled
    {s s' : System} {id : TaskID} {rest : List TaskID} {f : Task → Task}
    (h : Covered s)
    (hsound : Sound s')
    (hplaced : Placed s')
    (hready : s.ready = id :: rest)
    (hready' : s'.ready = rest)
    (htasks : s'.engine.tasks = (s.engine.updateTask id f).tasks)
    (hdisk : s'.disk = s.disk)
    (hseq : s'.engine.walLog = s.engine.walLog)
    (hsame : ∀ t t', s.engine.tasks.get id = some t → Tracked t t' → Tracked (f t) t') :
    Covered s' := by
  refine h.unlogged hsound hplaced hdisk hseq ?_
  intro loaded hrel howed
  constructor
  · intro j
    have hup := hrel.update (g := fun t => t) (fun t t' ht _ htt => hsame t t' ht htt)
    rw [Engine.updateTask_id] at hup
    rw [htasks]
    exact hup j
  · intro j hj
    rw [hdisk]
    by_cases hji : j = id
    · left
      refine howed.of_not_runnable ?_ hj
      intro _
      rw [hready, hji]
      exact List.mem_cons_self
    · refine (howed j hj).imp_right fun hrun => ⟨?_, ?_⟩
      · rw [Engine.runnable, Engine.stateOf, htasks, Engine.get_updateTask_of_ne _ _ hji]
        exact hrun.1
      · rw [hready']
        intro hmem
        rw [hready] at hrun
        exact hrun.2 (List.mem_cons_of_mem _ hmem)

theorem schedule_covered
    {s s' : System} {now later : Time}
    (h : Covered s)
    (hstep : s.schedule now later = some s') :
    Covered s' := by
  have hsound := schedule_sound h.sound hstep
  have hplaced := schedule_placed h.sound h.placed hstep
  obtain ⟨id, rest, t, hready, hget, hcases⟩ := schedule_cases h.sound hstep
  have hless : ∀ j ∈ rest, j ∈ s.ready := by
    intro j hj
    rw [hready]
    exact List.mem_cons_of_mem _ hj
  have hpending : t.state ≠ .cancelled → t.state = .pending := by
    intro hc
    have hmem : id ∈ s.ready := by
      simp [hready]
    rcases h.placed.state_of_ready hmem with hs | hs
    all_goals
      rw [Engine.stateOf, hget, Option.map_some, Option.some.injEq] at hs
    · exact hs
    · exact absurd hs hc
  rcases hcases with ⟨-, hs⟩ | ⟨-, hexpired, hs⟩ | ⟨-, rb, -, hs⟩ | ⟨hc, hs⟩
  · subst hs
    exact h.moved hsound hplaced rfl hless rfl rfl
  · subst hs
    refine h.scheduled hsound hplaced hready rfl rfl rfl rfl ?_
    intro t₁ t' ht₁ htt
    rw [hget] at ht₁
    cases ht₁
    simp only [Engine.expired, Bool.and_eq_true, decide_eq_true_eq] at hexpired
    exact ⟨htt.submission, Or.inr ⟨rfl, hexpired.1⟩⟩
  · subst hs
    exact h.moved hsound hplaced rfl hless rfl rfl
  · subst hs
    refine h.scheduled hsound hplaced hready rfl rfl rfl rfl ?_
    intro t₁ t' ht₁ htt
    rw [hget] at ht₁
    cases ht₁
    refine ⟨htt.submission, Or.inl ?_⟩
    have hsame := htt.outcome.resolve_right fun hexpired => by
      rw [hpending hc] at hexpired
      cases hexpired.1
    rw [hsame, hpending hc]
    rfl

theorem start_covered
    {s s' : System} {now : Time} {len : Nat}
    (h : Covered s)
    (hlen : len ≤ Wal.maxBody)
    (hstep : s.start now len = some s') :
    Covered s' := by
  have hfits := hlen.trans maxBody_le_maxUint32
  have hsound := start_sound h.sound hstep
  have hplaced := start_placed h.sound h.placed hstep
  obtain ⟨id, rb, hdeq, hs⟩ := start_logged h.sound hfits hstep
  have hfront : id ∈ s.places .buffer := by
    show id ∈ s.engine.buffer.contents
    rw [(RingBuffer.dequeue_done hdeq).1]
    exact List.mem_cons_self
  subst hs
  exact h.logged hsound hplaced hlen (f := Engine.runningFrom now) rfl rfl rfl rfl
    (fun t => ⟨rfl, rfl⟩) (fun _ hj => hj)
    (fun _ => h.sound.exclusive.elsewhere hfront (q := .ready) (by simp))

theorem finish_covered
    {s s' : System} {id : TaskID} {result : Option HandlerError} {now : Time}
    {delay : Duration} {len : Nat}
    (h : Covered s)
    (hlen : len ≤ Wal.maxBody)
    (hstep : s.finish id result now delay len = some s') :
    Covered s' := by
  have hfits := hlen.trans maxBody_le_maxUint32
  have hsound := finish_sound h.sound hstep
  have hplaced := finish_placed h.sound h.placed hstep
  obtain ⟨-, t, -, hcases⟩ := finish_logged h.sound hfits hstep
  rcases hcases with ⟨-, hs⟩ | ⟨err, -, -, hs⟩ | ⟨err, -, -, hs⟩
  · subst hs
    exact h.logged hsound hplaced hlen (f := Engine.completedAt now) rfl rfl rfl rfl
      (fun t => ⟨rfl, rfl⟩) (fun _ hj => hj) (fun hx => by cases hx)
  · subst hs
    exact h.logged hsound hplaced hlen (f := Engine.deadAt err now) rfl rfl rfl rfl
      (fun t => ⟨rfl, rfl⟩) (fun _ hj => hj) (fun hx => by cases hx)
  · subst hs
    exact h.logged hsound hplaced hlen (f := Engine.retriedAt err (now + delay)) rfl rfl
      rfl rfl (fun t => ⟨rfl, rfl⟩) (fun _ hj => hj) (fun hx => by cases hx)

/-- A snapshot has the live tasks, in the states they have. -/
theorem Sound.snapshot_tracked
    {s : System}
    (h : Sound s)
    {order : List TaskID}
    (horder : s.engine.tasks.Enumerates order)
    (cfg : Engine.Config) :
    let loaded := (Engine.new cfg).loadSnapshot (some (s.engine.takeSnapshot order))
    Related Tracked s.engine loaded ∧ ∀ id, loaded.stateOf id = s.engine.stateOf id := by
  have hget : ∀ j, ((Engine.new cfg).loadSnapshot
      (some (s.engine.takeSnapshot order))).tasks.get j =
        (s.engine.tasks.get j).map Wal.throughSnapshot := by
    obtain ⟨loaded, hload, -, hget⟩ := Engine.loadTasks_checkpoint cfg
      (fun id t ht => (h.named id t ht).1) horder s.disk
    cases hload
    exact hget
  constructor
  · intro j
    rw [hget j]
    cases s.engine.tasks.get j with
    | none =>
        exact Option.Rel.none
    | some t =>
        exact Option.Rel.some (Tracked.throughSnapshot t)
  · intro j
    rw [Engine.stateOf, hget j, Option.map_map]
    rfl

theorem checkpoint_covered
    {s s' : System} {order : List TaskID}
    (h : Covered s)
    (hstep : s.checkpoint order = some s') :
    Covered s' := by
  have hsound := checkpoint_sound h.sound hstep
  have hplaced := checkpoint_placed h.placed hstep
  obtain ⟨horder, rfl⟩ := checkpoint_cases hstep
  refine ⟨hsound, hplaced, ?_, le_rfl, fun r hr => by cases hr⟩
  intro cfg
  obtain ⟨hrel, hstates⟩ := h.sound.snapshot_tracked horder cfg
  refine ⟨_, 0, rfl, hrel, ?_⟩
  intro id hid
  obtain ⟨x, hx, hrun⟩ := Engine.stateOf_of_runnable hid
  have hlive : s.engine.stateOf id = some x := (hstates id).symm.trans hx
  by_cases hready : id ∈ s.ready
  · left
    -- the new log has no record at all
    have hsnap : (s.engine.checkpoint s.disk order).2.snapshotState id = some .pending := by
      rw [← Engine.stateOf_loadSnapshot cfg]
      refine hx.trans ?_
      rcases h.placed.state_of_ready hready with hs | hs
      · rw [← hlive, hs]
      · rw [hlive, Option.some.injEq] at hs
        rw [hs] at hrun
        cases hrun
    show (s.engine.checkpoint s.disk order).2.lastSeenPending id = true
    rw [Engine.Disk.lastSeenPending, hsnap]
    rfl
  · right
    refine ⟨?_, hready⟩
    show s.engine.runnable id = true
    rw [Engine.runnable_of_stateOf hlive]
    exact hrun

theorem step_covered
    (s : System) (e : Event) (s' : System)
    (h : Covered s)
    (hok : e.oneLifetime = true ∧ e.readable = true)
    (hstep : s.step e = some s') :
    Covered s' := by
  obtain ⟨hin, hread⟩ := hok
  cases e with
  | submit task generatedID now len =>
      exact submit_covered h (of_decide_eq_true hread) hstep
  | unblock id =>
      exact unblock_covered h hstep
  | cancel id now len =>
      cases hstep
      exact cancel_covered h (of_decide_eq_true hread)
  | promote now =>
      exact promote_covered h hstep
  | schedule now later =>
      exact schedule_covered h hstep
  | start now len =>
      exact start_covered h (of_decide_eq_true hread) hstep
  | finish id result now delay len =>
      exact finish_covered h (of_decide_eq_true hread) hstep
  | checkpoint order =>
      exact checkpoint_covered h hstep
  | shutdown order cfg recoverOrder =>
      cases hin
  | kill cfg recoverOrder =>
      cases hin

theorem covered_initial
    (cfg : Engine.Config) :
    Covered (initial cfg) := by
  refine ⟨sound_initial cfg, placed_initial cfg, ?_, le_rfl, fun r hr => by cases hr⟩
  intro cfg'
  refine ⟨_, 0, rfl, fun id => Option.Rel.none, ?_⟩
  intro id hid
  cases hid

/--
`Recover` on the directory succeeds, and it finds the tasks of the engine that was killed,
as they were submitted and with their outcomes.
-/
def ComesBack (live : Engine) (cfg : Engine.Config) (dir : Directory) : Prop :=
  ∀ order, live.tasks.Enumerates order →
    ∃ e, dir.recover cfg order = .ok (.ok e) ∧ Related Restored live e

/-- The next process comes back from a kill at any point of a checkpoint. -/
def SurvivesCheckpoint (s : System) (cfg : Engine.Config) : Prop :=
  ∀ order, s.engine.tasks.Enumerates order → ∀ dir, Directory.read dir = .ok s.disk →
    ∀ dir' ∈ Engine.crashPoints dir (s.engine.checkpointOps order),
      ComesBack s.engine cfg dir'

/--
The tasks that may have to go to the ring buffer of the next process: the pending and the
running ones, and those that have left that state since the last snapshot without a record.
-/
def awaitsBuffer (s : System) (id : TaskID) : Bool :=
  s.engine.runnable id ||
    (s.disk.lastSeenPending id &&
      (decide (s.engine.stateOf id = some .scheduled) ||
        decide (s.engine.stateOf id = some .expired)))

/-- The buffer of the next process rejects, or has room for these tasks. -/
def FitsNext (s : System) (cfg : Engine.Config) : Prop :=
  cfg.overflowPolicy = .reject ∨
    (s.engine.tasks.keys.filter fun id => s.awaitsBuffer id = true).card ≤ cfg.capacity

instance (s : System) (cfg : Engine.Config) : Decidable (s.FitsNext cfg) :=
  inferInstanceAs (Decidable (_ ∨ _))

theorem comesBack_of_loads
    {s : System} {cfg : Engine.Config} {dir : Directory} {d : Engine.Disk}
    (hread : dir.read = .ok d)
    (hload : Loads d (fun loaded => Related Tracked s.engine loaded ∧
      ∀ id, loaded.runnable id = true → s.awaitsBuffer id = true))
    (hfits : s.FitsNext cfg) :
    ComesBack s.engine cfg dir := by
  intro order horder
  obtain ⟨loaded, last, hloaded, hrel, hrun⟩ := hload cfg
  have horder' : loaded.tasks.Enumerates order := by
    refine ⟨horder.1, horder.2.trans ?_⟩
    ext id
    rw [GoMap.mem_keys, GoMap.mem_keys, hrel.isSome]
  have hroom : cfg.overflowPolicy = .reject ∨
      (order.filter loaded.runnable).length ≤ cfg.capacity := by
    refine hfits.imp_right fun hcard => ?_
    rw [horder.card_filter] at hcard
    exact (List.monotone_filter_right order hrun).length_le.trans hcard
  obtain ⟨e, hrec, hall⟩ := Engine.recover_of_room hloaded horder' hroom
  refine ⟨e, ?_, ?_⟩
  · rw [Directory.recover, hread]
    simp only [hrec]
  · intro id
    rw [hall.tasks id]
    cases hget : s.engine.tasks.get id with
    | none =>
        rw [hrel.get_none hget]
        exact Option.Rel.none
    | some t =>
        obtain ⟨t', ht', htt⟩ := hrel.get_some hget
        rw [ht']
        exact Option.Rel.some htt.requeued

/-- What the directory has as pending or running may have to go to the buffer. -/
theorem awaitsBuffer_of_owed
    {s : System} {loaded : Engine}
    (hrel : Related Tracked s.engine loaded)
    (howed : s.Owed loaded)
    {id : TaskID}
    (hid : loaded.runnable id = true) :
    s.awaitsBuffer id = true := by
  unfold awaitsBuffer
  rcases howed id hid with hsnap | ⟨hrun, -⟩
  · obtain ⟨x, hx, hbuf⟩ := Engine.stateOf_of_runnable hid
    obtain ⟨t', ht', rfl⟩ := Option.map_eq_some_iff.mp hx
    obtain ⟨t, ht, htt⟩ := hrel.of_get_some ht'
    have hlive : s.engine.stateOf id = some t.state := by
      rw [Engine.stateOf, ht]
      rfl
    rw [Engine.runnable_of_stateOf hlive, hsnap, hlive]
    rcases htt.outcome with hsame | ⟨hexpired, -⟩
    · rw [Engine.outcomeClass_of_toBuffer hbuf] at hsame
      rcases Engine.toBuffer_or_scheduled hsame.symm with hrun | hscheduled
      · rw [hrun]
        rfl
      · rw [hscheduled]
        rfl
    · rw [hexpired]
      rfl
  · rw [hrun]
    rfl

theorem Covered.survivesCheckpoint
    {s : System}
    (h : Covered s)
    {cfg : Engine.Config}
    (hfits : s.FitsNext cfg) :
    s.SurvivesCheckpoint cfg := by
  intro order horder dir hdir dir' hcrash
  have hsnapshot : ∀ cfg', Related Tracked s.engine
      ((Engine.new cfg').loadSnapshot (some (s.engine.takeSnapshot order))) ∧
      ∀ id, ((Engine.new cfg').loadSnapshot
        (some (s.engine.takeSnapshot order))).runnable id = true →
          s.awaitsBuffer id = true := by
    intro cfg'
    obtain ⟨hrel, hstates⟩ := h.sound.snapshot_tracked horder cfg'
    refine ⟨hrel, ?_⟩
    intro id hid
    rw [Engine.runnable, hstates id] at hid
    rw [awaitsBuffer, Engine.runnable, hid]
    rfl
  rcases Engine.crashPoint_read hdir hcrash with hread | ⟨old, hread⟩ | hread
  · refine comesBack_of_loads hread (h.loads.mono ?_) hfits
    rintro loaded ⟨hrel, howed⟩
    exact ⟨hrel, fun id hid => awaitsBuffer_of_owed hrel howed hid⟩
  · refine comesBack_of_loads hread ?_ hfits
    exact h.loads.snapshot h.numbers hsnapshot
  · refine comesBack_of_loads hread ?_ hfits
    intro cfg'
    exact ⟨_, 0, rfl, hsnapshot cfg'⟩

/--
In every run of one process from an empty directory whose records are not longer than
`Replay` accepts, a kill at any point of a checkpoint loses and changes nothing, for every
next process whose buffer rejects or has room for the tasks.
-/
theorem checkpoint_interrupted
    (cfg : Engine.Config) (es : List Event) (s : System)
    (hrun : Lib.Run step (fun _ e => e.oneLifetime = true ∧ e.readable = true)
      (initial cfg) es s)
    (next : Engine.Config)
    (hfits : s.FitsNext next) :
    s.SurvivesCheckpoint next :=
  (hrun.invariant Covered step_covered (covered_initial cfg)).survivesCheckpoint hfits

/-- A task at work, one that waits, one that is cancelled, and a checkpoint in between. -/
def checkpointBetween : List Event :=
  [.submit Task.zero "a" 10 300, .start 20 100, .checkpoint ["a"],
    .submit { Task.zero with scheduledAt := 1000 } "b" 30 300, .submit Task.zero "c" 40 300,
    .cancel "b" 50 100]

theorem checkpoint_interrupted_between :
    ∃ s, Lib.Run step (fun _ e => e.oneLifetime = true ∧ e.readable = true)
        (initial roomyConfig) checkpointBetween s ∧
      s.FitsNext roomyConfig ∧ s.SurvivesCheckpoint roomyConfig := by
  obtain ⟨s, hrun, hfits⟩ :=
    Lib.exists_run_of_exec step (fun _ e => e.oneLifetime = true ∧ e.readable = true)
      (fun s => s.FitsNext roomyConfig) (initial roomyConfig) checkpointBetween
      (by decide +kernel)
  exact ⟨s, hrun, hfits,
    checkpoint_interrupted roomyConfig checkpointBetween s hrun roomyConfig hfits⟩

/-- One slot, and a full buffer makes `Enqueue` wait. -/
def blockingConfig : Engine.Config where
  capacity := 1
  overflowPolicy := .block
  maxRetries := 3
  defaultTimeout := 30000000000
  capacity_pos := Nat.one_pos
  maxRetries_nonneg := Engine.Config.threeRetries_nonneg

/-- A check that `New` and `Recover` come up. -/
def comesUp (cfg : Engine.Config) (dir : Directory) (order : List TaskID) : Bool :=
  match dir.recover cfg order with
  | .ok (.ok _) => true
  | _ => false

theorem not_survivesCheckpoint
    {s : System} {cfg : Engine.Config} {order : List TaskID}
    (horder : s.engine.tasks.Enumerates order)
    (hdown : comesUp cfg s.disk.directory order = false) :
    ¬ s.SurvivesCheckpoint cfg := by
  intro hsurvives
  have hfirst : s.disk.directory ∈
      Engine.crashPoints s.disk.directory (s.engine.checkpointOps order) :=
    List.mem_cons_self
  obtain ⟨e, hrec, -⟩ := hsurvives order horder s.disk.directory
    (Engine.read_directory s.disk) _ hfirst order horder
  rw [comesUp, hrec] at hdown
  cases hdown

/-- One task too large for `Replay`. -/
def oversized : List Event :=
  [.submit Task.zero "a" 10 (Wal.maxBody + 1)]

/--
Killed before the first file operation: a buffer with one slot blocks `Recover` if one
task is at work and one waits, and a record that `Append` accepted is too long for `Replay`.
-/
theorem interrupted_blocks :
    (∃ s, Lib.Run step (fun _ e => e.oneLifetime = true) (initial blockingConfig)
        twoRunnable s ∧ ¬ s.SurvivesCheckpoint blockingConfig) ∧
      ∃ s, Lib.Run step (fun _ e => e.oneLifetime = true) (initial roomyConfig)
        oversized s ∧ ¬ s.SurvivesCheckpoint roomyConfig := by
  constructor
  · obtain ⟨s, hrun, horder, hdown⟩ :=
      Lib.exists_run_of_exec step (fun _ e => e.oneLifetime = true)
        (fun s => s.engine.tasks.Enumerates ["a", "b"] ∧
          comesUp blockingConfig s.disk.directory ["a", "b"] = false)
        (initial blockingConfig) twoRunnable (by decide +kernel)
    exact ⟨s, hrun, not_survivesCheckpoint horder hdown⟩
  · obtain ⟨s, hrun, horder, hdown⟩ :=
      Lib.exists_run_of_exec step (fun _ e => e.oneLifetime = true)
        (fun s => s.engine.tasks.Enumerates ["a"] ∧
          comesUp roomyConfig s.disk.directory ["a"] = false)
        (initial roomyConfig) oversized (by decide +kernel)
    exact ⟨s, hrun, not_survivesCheckpoint horder hdown⟩

end System
end TaskQueue
