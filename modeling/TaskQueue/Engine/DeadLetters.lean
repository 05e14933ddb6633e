import Mathlib.Tactic
import TaskQueue.Engine.Placement

/-!
# The dead-letter queue

`e.dlq` should list every dead task once and no other task.  `handleFailure` and the
replay of `EntryDead` maintain it, the loading of a snapshot does not: after a
`Recover` from a snapshot with a dead task the list misses it
(`snapshot_losesDeadLetter`).  `deadLetters_exact` shows that the list is exact in
every run in which no `Recover` reads such a snapshot.
-/

namespace TaskQueue

open Lib (GoMap)
open Queue
open Wal (Log LogEnv LogRecord Snapshot)

namespace Engine

/-- The dead-letter queue lists the dead tasks, each once. -/
def DlqExact (e : Engine) : Prop :=
  e.dlq.Nodup ∧ ∀ id, id ∈ e.dlq ↔ e.stateOf id = some .dead

/-- The same tasks are dead. -/
def SameDead (e e' : Engine) : Prop :=
  ∀ id, e'.stateOf id = some .dead ↔ e.stateOf id = some .dead

theorem SameDead.refl
    (e : Engine) :
    SameDead e e := by
  intro id
  exact Iff.rfl

theorem SameDead.exact
    {e e' : Engine}
    (h : SameDead e e')
    (hdlq : e'.dlq = e.dlq)
    (he : DlqExact e) :
    DlqExact e' := by
  refine ⟨by rw [hdlq]; exact he.1, ?_⟩
  intro id
  rw [hdlq, he.2 id, h id]

/-- A write to a task that is not dead and does not become so. -/
theorem sameDead_updateTask
    {e : Engine} {id : TaskID} {f : Task → Task}
    (hid : e.stateOf id ≠ some .dead)
    (hf : ∀ t, e.tasks.get id = some t → (f t).state ≠ .dead) :
    SameDead e (e.updateTask id f) := by
  intro j
  by_cases hj : j = id
  · subst hj
    constructor
    · intro hdead
      rw [stateOf, get_updateTask_self] at hdead
      cases hget : e.tasks.get j with
      | none =>
          simp [hget] at hdead
      | some t =>
          simp only [hget, Option.map_some, Option.some.injEq] at hdead
          exact absurd hdead (hf t hget)
    · intro hdead
      exact absurd hdead hid
  · rw [stateOf_updateTask_of_ne e f hj]

/-- A task dies and is put on the list. -/
theorem DlqExact.bury
    {e e' : Engine} {id : TaskID} {f : Task → Task}
    (he : DlqExact e)
    (hid : e.stateOf id ≠ some .dead)
    (hsome : (e.tasks.get id).isSome = true)
    (hf : ∀ t, (f t).state = .dead)
    (htasks : e'.tasks = (e.updateTask id f).tasks)
    (hdlq : e'.dlq = e.dlq ++ [id]) :
    DlqExact e' := by
  have hnotin : id ∉ e.dlq := fun hmem => hid ((he.2 id).mp hmem)
  constructor
  · rw [hdlq]
    exact List.Nodup.append he.1 (List.nodup_singleton id)
      (List.disjoint_singleton.mpr hnotin)
  · intro j
    rw [hdlq, List.mem_append, List.mem_singleton, he.2 j, stateOf, stateOf, htasks,
      get_updateTask]
    by_cases hj : j = id
    · subst hj
      obtain ⟨t, ht⟩ := Option.isSome_iff_exists.mp hsome
      simp [ht, hf t]
    · simp [hj]

/-- A new task is registered, and it is not dead. -/
theorem sameDead_register
    {e : Engine} {t : Task}
    (hfresh : e.tasks.get t.id = none)
    (ht : t.state ≠ .dead) :
    SameDead e (e.register t) := by
  intro j
  rw [stateOf, stateOf, get_register]
  split_ifs with hj
  · subst hj
    simp [hfresh, ht]
  · exact Iff.rfl

/-- `rebuildQueues` neither kills nor revives. -/
theorem requeue_dead_iff
    (t : Task) :
    (requeue t).state = .dead ↔ t.state = .dead := by
  unfold requeue
  split_ifs with h
  · simp [h]
  · exact Iff.rfl

/-- The snapshot in the directory has no dead task. -/
def NoDead (snapshot : Option Snapshot) : Prop :=
  ∀ snap ∈ snapshot, ∀ st ∈ snap.tasks, st.state ≠ .dead

instance (snapshot : Option Snapshot) : Decidable (NoDead snapshot) :=
  match snapshot with
  | none => isTrue (fun _ h => by cases h)
  | some snap =>
      decidable_of_iff (∀ st ∈ snap.tasks, st.state ≠ .dead)
        ⟨fun h snap' hsnap => by cases hsnap; exact h, fun h => h snap rfl⟩

end Engine

namespace System

open Engine (HandlerError DlqExact SameDead NoDead Named)

/-- What the directory has to say about dead tasks, as seen from the live engine. -/
def Reports (s : System) (loaded : Engine) : Prop :=
  (∀ id, loaded.stateOf id = some .dead → s.engine.stateOf id = some .dead) ∧
  (NoDead s.disk.snapshot → DlqExact loaded)

/-- The invariant behind `DlqExact`. -/
structure Filed (s : System) : Prop where
  sound : Sound s
  exact : DlqExact s.engine
  alive : ∀ id, 0 < s.held id → s.engine.stateOf id ≠ some .dead
  durable : Engine.Durably s.disk s.Reports

/-- At most one more record, of a task that is not dead, and neither new nor dying. -/
def LogsAlive (s : System) (d : Engine.Disk) : Prop :=
  Engine.Disk.Grows (fun r => r.entry.type ≠ .enqueue ∧ r.entry.type ≠ .dead ∧
    s.engine.stateOf r.entry.taskID ≠ some .dead) s.disk d

theorem logsAlive_append
    {s : System} {id : TaskID}
    (hid : s.engine.stateOf id ≠ some .dead)
    (e : Engine) {type : Wal.EntryType} (data : Engine.EntryData) (io : LogEnv)
    (henqueue : type ≠ .enqueue)
    (hdead : type ≠ .dead) :
    LogsAlive s (e.append s.disk type id data io).2.1 :=
  Engine.grows_append ⟨henqueue, hdead, hid⟩ s.disk

/-- A step at which no task dies keeps the invariant. -/
theorem Filed.moved
    {s s' : System}
    (h : Filed s)
    (hsound : Sound s')
    (hdead : SameDead s.engine s'.engine)
    (hdlq : s'.engine.dlq = s.engine.dlq)
    (hheld : ∀ id, s'.held id ≤ s.held id)
    (hdisk : s.LogsAlive s'.disk) :
    Filed s' := by
  refine ⟨hsound, hdead.exact hdlq h.exact, ?_, ?_⟩
  · intro id hid hd
    exact h.alive id (lt_of_lt_of_le hid (hheld id)) ((hdead id).mp hd)
  · rcases hdisk with hd | ⟨r, ⟨htype, htype', hid⟩, hd⟩
    · rw [hd]
      intro cfg loaded last hload
      obtain ⟨hlive, hexact⟩ := h.durable cfg loaded last hload
      refine ⟨fun id hl => (hdead id).mpr (hlive id hl), ?_⟩
      rw [hd]
      exact hexact
    · have hsnap : s'.disk.snapshot = s.disk.snapshot := by
        rw [hd]
        rfl
      rw [hd]
      refine h.durable.extend r ?_ ?_
      · intro _ e he
        refine ⟨fun id hl => (hdead id).mpr (he.1 id hl), ?_⟩
        rw [hsnap]
        exact he.2
      · intro e e' he happly
        have hnot : e.stateOf r.entry.taskID ≠ some .dead := fun hl => hid (he.1 _ hl)
        have hsame : SameDead e e' ∧ e'.dlq = e.dlq := by
          rcases Engine.applyEntry_cases happly with
            ⟨t, henq, -, -⟩ | ⟨-, -, rfl⟩ | ⟨hd', -, -⟩ | rfl
          · exact absurd henq htype
          · refine ⟨Engine.sameDead_updateTask hnot ?_, rfl⟩
            intro t ht hstate
            rcases Engine.entryUpdate_dead hstate with hd' | hd'
            · exact htype' hd'
            · exact hnot (by simp [Engine.stateOf, ht, hd'])
          · exact absurd hd' htype'
          · exact ⟨SameDead.refl _, rfl⟩
        refine ⟨fun id hl => (hdead id).mpr (he.1 id ((hsame.1 id).mp hl)), ?_⟩
        rw [hsnap]
        intro hno
        exact hsame.1.exact hsame.2 (he.2 hno)

/-- A new task is logged; it is not dead. -/
theorem Filed.logged
    {s s' : System} {t : Task} {now : Time} {len : Nat}
    (h : Filed s)
    (hsound : Sound s')
    (hid : t.id ∉ s.issued)
    (ht : t.state ≠ .dead)
    (htasks : s'.engine.tasks = (s.engine.register t).tasks)
    (hdlq : s'.engine.dlq = s.engine.dlq)
    (hheld : ∀ id, s'.held id ≤ s.held id + if id = t.id then 1 else 0)
    (hdisk : s'.disk = s.disk.extend (s.enqueueRecord t now len)) :
    Filed s' := by
  have hdead : SameDead s.engine s'.engine := by
    intro j
    rw [← Engine.sameDead_register (h.sound.held_eq_zero hid).1 ht j, Engine.stateOf,
      Engine.stateOf, htasks]
  refine ⟨hsound, hdead.exact hdlq h.exact, ?_, ?_⟩
  · intro id hpos hd
    have hle := hheld id
    split_ifs at hle with hself
    · rw [hself, Engine.stateOf, htasks, Engine.get_register, if_pos rfl] at hd
      exact ht (Option.some.inj hd)
    · exact h.alive id (lt_of_lt_of_le hpos hle) ((hdead id).mp hd)
  · have hsnap : s'.disk.snapshot = s.disk.snapshot := by
      rw [hdisk]
      rfl
    have hboth : Engine.Durably s.disk (fun e => s.Reports e ∧ Named s.issued e) :=
      fun cfg loaded last hload =>
        ⟨h.durable cfg loaded last hload, h.sound.durable cfg loaded last hload⟩
    rw [hdisk]
    refine hboth.extend _ ?_ ?_
    · intro _ e he
      refine ⟨fun id hl => (hdead id).mpr (he.1.1 id hl), ?_⟩
      rw [hsnap]
      exact he.1.2
    · intro e e' he happly
      cases happly
      have hfresh : e.tasks.get t.id = none := by
        cases hget : e.tasks.get t.id with
        | none =>
            rfl
        | some t' =>
            exact absurd (he.2 t.id t' hget).2 hid
      have hsame := Engine.sameDead_register hfresh ht
      refine ⟨fun id hl => (hdead id).mpr (he.1.1 id ((hsame id).mp hl)), ?_⟩
      rw [hsnap]
      intro hno
      exact hsame.exact rfl (he.1.2 hno)

theorem submit_filed
    {s s' : System} {task : Task} {generatedID : TaskID} {now : Time} {len : Nat}
    (h : Filed s)
    (hstep : s.submit task generatedID now len = some s') :
    Filed s' := by
  have hsound := submit_sound h.sound hstep
  obtain ⟨hid, hcases⟩ := submit_cases h.sound hstep
  have ht : (s.submitted task generatedID now).state ≠ .dead := by
    rcases Engine.prepare_state s.engine task generatedID now with hs | hs
    · rw [submitted, hs]
      simp
    · rw [submitted, hs]
      simp
  have hheld := submit_held h.sound hstep
  rcases hcases with hs | ⟨-, ⟨-, hs⟩ | ⟨-, rb, henq, hs⟩ | ⟨-, hs⟩ | ⟨-, hs⟩⟩
  · subst hs
    exact h.moved hsound (SameDead.refl _) rfl (fun _ => Nat.le_refl _) (Or.inl rfl)
  all_goals
    subst hs
    exact h.logged hsound hid ht rfl rfl hheld rfl

theorem unblock_filed
    {s s' : System} {id : TaskID}
    (h : Filed s)
    (hstep : s.unblock id = some s') :
    Filed s' := by
  have hsound := unblock_sound h.sound hstep
  have hheld := unblock_held hstep
  obtain ⟨-, ⟨rb, -, hs⟩ | hs⟩ := unblock_cases hstep
  all_goals
    subst hs
    exact h.moved hsound (SameDead.refl _) rfl hheld (Or.inl rfl)

theorem cancel_filed
    {s : System}
    (h : Filed s)
    (id : TaskID) (now : Time) (len : Nat) :
    Filed (s.cancel id now len) := by
  have hsound := cancel_sound h.sound id now len
  have hheld := cancel_held s id now len
  rcases cancel_cases s id now len with hs | ⟨t, hget, hc, hs⟩
  · rw [hs]
    exact h
  · have hnot : s.engine.stateOf id ≠ some .dead := by
      intro hd
      simp only [Engine.stateOf, hget, Option.map_some, Option.some.injEq] at hd
      rw [hd] at hc
      cases hc
    have hdead : SameDead s.engine (s.cancelLogged id now len).1 :=
      Engine.sameDead_updateTask (f := Engine.cancelledAt now) hnot
        (fun _ _ => by simp [Engine.cancelledAt])
    have hlogs : s.LogsAlive (s.cancelLogged id now len).2.1 :=
      logsAlive_append hnot _ _ _ (by simp) (by simp)
    rcases hs with ⟨-, hs⟩ | ⟨-, hs⟩
    all_goals
      rw [hs] at hsound hheld ⊢
      exact h.moved hsound hdead rfl hheld hlogs

theorem promote_filed
    {s s' : System} {now : Time}
    (h : Filed s)
    (hstep : s.promote now = some s') :
    Filed s' := by
  have hsound := promote_sound h.sound hstep
  have hheld := promote_held hstep
  obtain ⟨-, hs⟩ := promote_cases hstep
  subst hs
  refine h.moved hsound ?_ rfl hheld (Or.inl rfl)
  intro j
  simp only [Engine.stateOf, Engine.get_promoteReady]
  split_ifs with hj
  · -- a promoted task was on the heap, so that it was not dead
    have hmem : j ∈ s.engine.heap.inner :=
      (Engine.promoteReady_promoted s.engine now).perm.mem_iff.mp
        (List.mem_append_left _ hj)
    have hpos : 0 < s.held j := by
      have hcount : 0 < s.engine.heap.inner.count j := List.count_pos_iff.mpr hmem
      unfold held
      omega
    have hnot := h.alive j hpos
    unfold Engine.stateOf at hnot
    cases hget : s.engine.tasks.get j with
    | none =>
        simp
    | some t =>
        rw [hget] at hnot
        simpa using hnot
  · exact Iff.rfl

/-- A task in some place is not dead. -/
theorem Filed.alive_ready
    {s : System}
    (h : Filed s)
    {id : TaskID} {rest : List TaskID}
    (hready : s.ready = id :: rest) :
    s.engine.stateOf id ≠ some .dead := by
  apply h.alive
  simp [held, hready]

theorem schedule_filed
    {s s' : System} {now later : Time}
    (h : Filed s)
    (hstep : s.schedule now later = some s') :
    Filed s' := by
  have hsound := schedule_sound h.sound hstep
  have hheld := schedule_held h.sound hstep
  obtain ⟨id, rest, t, hready, -, hcases⟩ := schedule_cases h.sound hstep
  have hnot := h.alive_ready hready
  rcases hcases with ⟨-, hs⟩ | ⟨-, -, hs⟩ | ⟨-, rb, -, hs⟩ | ⟨-, hs⟩
  · subst hs
    exact h.moved hsound (SameDead.refl _) rfl hheld (Or.inl rfl)
  · subst hs
    exact h.moved hsound (Engine.sameDead_updateTask hnot (fun _ _ => by simp)) rfl hheld
      (Or.inl rfl)
  · subst hs
    exact h.moved hsound (SameDead.refl _) rfl hheld (Or.inl rfl)
  · subst hs
    exact h.moved hsound
      (Engine.sameDead_updateTask hnot (fun _ _ => by simp [Engine.postponedTo])) rfl hheld
      (Or.inl rfl)

theorem start_filed
    {s s' : System} {now : Time} {len : Nat}
    (h : Filed s)
    (hstep : s.start now len = some s') :
    Filed s' := by
  have hsound := start_sound h.sound hstep
  have hheld := start_held hstep
  obtain ⟨id, rb, hdeq, hs⟩ := start_cases hstep
  have hnot : s.engine.stateOf id ≠ some .dead := by
    apply h.alive
    simp [held, (RingBuffer.dequeue_done hdeq).1]
  subst hs
  exact h.moved hsound
    (Engine.sameDead_updateTask (e := { s.engine with buffer := rb })
      (f := Engine.runningFrom now) hnot (fun _ _ => by simp [Engine.runningFrom]))
    rfl hheld (logsAlive_append hnot _ _ _ (by simp) (by simp))

section Reports

variable {s s' : System}

/-- What is loaded from the directory is no further than before, and more tasks are dead. -/
theorem Reports.mono
    {e : Engine}
    (he : s.Reports e)
    (hsnap : s'.disk.snapshot = s.disk.snapshot)
    (hmono : ∀ j, s.engine.stateOf j = some .dead → s'.engine.stateOf j = some .dead) :
    s'.Reports e := by
  refine ⟨fun j hj => hmono j (he.1 j hj), ?_⟩
  rw [hsnap]
  exact he.2

/-- The `EntryDead` of a task that has just died is replayed. -/
theorem Reports.replayDead
    {e e' : Engine} {r : Wal.LogRecord Engine.EntryData} {id : TaskID}
    (he : s.Reports e)
    (hsnap : s'.disk.snapshot = s.disk.snapshot)
    (hmono : ∀ j, s.engine.stateOf j = some .dead → s'.engine.stateOf j = some .dead)
    (hnot : s.engine.stateOf id ≠ some .dead)
    (hself : s'.engine.stateOf id = some .dead)
    (htype : r.entry.type = .dead)
    (hrid : r.entry.taskID = id)
    (happly : e.applyEntry r.entry = .ok e') :
    s'.Reports e' := by
  have hnot' : e.stateOf id ≠ some .dead := fun hl => hnot (he.1 id hl)
  rcases Engine.applyEntry_cases happly with
    ⟨t, henq, -, -⟩ | ⟨-, hne, -⟩ | ⟨-, hsome, rfl⟩ | rfl
  · rw [htype] at henq
    cases henq
  · exact absurd htype hne
  · rw [hrid] at hsome ⊢
    refine ⟨?_, ?_⟩
    · intro j hj
      by_cases hji : j = id
      · rw [hji]
        exact hself
      · have hold := Engine.stateOf_updateTask_of_ne e (Engine.entryUpdate r.entry) hji
        exact hmono j (he.1 j (hold.symm.trans hj))
    · rw [hsnap]
      intro hno
      refine (he.2 hno).bury hnot' hsome ?_ rfl rfl
      intro t
      exact Engine.entryUpdate_of_dead htype t
  · exact he.mono hsnap hmono

end Reports

/-- The last failure: the task dies in the registry, in the list and in the log. -/
theorem Filed.buried
    {s s' : System} {id : TaskID} {err : HandlerError} {now : Time} {len : Nat}
    (h : Filed s)
    (hsound : Sound s')
    (hid : id ∈ s.hands)
    (hs : s' =
      let r := (s.engine.updateTask id (Engine.deadAt err now)).append s.disk .dead id
        (.ofText err.text) (LogEnv.noError now len)
      { s with engine := r.1.pushDLQ id, disk := r.2.1, hands := s.hands.erase id }) :
    Filed s' := by
  have hcount : 0 < s.hands.count id := List.count_pos_iff.mpr hid
  have hheld : 0 < s.held id := by
    unfold held
    omega
  have hnot := h.alive id hheld
  have hdlq : DlqExact s'.engine := by
    rw [hs]
    exact h.exact.bury hnot (h.sound.registered id hheld) (f := Engine.deadAt err now)
      (fun _ => rfl) rfl rfl
  have hlist : s'.engine.dlq = s.engine.dlq ++ [id] := by
    rw [hs]
    rfl
  have hmono : ∀ j, s.engine.stateOf j = some .dead →
      s'.engine.stateOf j = some .dead := by
    intro j hj
    rw [← hdlq.2 j, hlist]
    exact List.mem_append_left _ ((h.exact.2 j).mpr hj)
  have hself : s'.engine.stateOf id = some .dead := by
    rw [← hdlq.2 id, hlist]
    exact List.mem_append_right _ (List.mem_singleton_self id)
  refine ⟨hsound, hdlq, ?_, ?_⟩
  · intro j hj hd
    rw [← hdlq.2 j, hlist, List.mem_append, List.mem_singleton, h.exact.2 j] at hd
    have hone := h.sound.once id
    rw [hs] at hj
    simp only [held, Engine.pushDLQ, Engine.append_buffer, Engine.append_heap,
      Engine.updateTask_buffer, Engine.updateTask_heap, List.count_erase] at hj
    rcases hd with hd | hd
    · refine h.alive j ?_ hd
      unfold held
      omega
    · subst hd
      simp only [held, beq_self_eq_true, if_true] at hj hone
      omega
  · have hsnap : s'.disk.snapshot = s.disk.snapshot := by
      rw [hs]
      exact Engine.append_snapshot _ _ _ _ _ _
    have hdisk : s'.disk = s.disk ∨
        ∃ r, r.entry.type = .dead ∧ r.entry.taskID = id ∧ s'.disk = s.disk.extend r := by
      rw [hs]
      rcases Engine.append_disk (s.engine.updateTask id (Engine.deadAt err now)) s.disk
        .dead id (.ofText err.text) (LogEnv.noError now len) with hd | hd
      · exact Or.inl hd
      · exact Or.inr ⟨_, rfl, rfl, hd⟩
    rcases hdisk with hd | ⟨r, htype, hrid, hd⟩
    · rw [hd]
      exact fun cfg loaded last hload => (h.durable cfg loaded last hload).mono hsnap hmono
    · rw [hd]
      refine h.durable.extend r (fun _ e he => he.mono hsnap hmono) ?_
      intro e e' he happly
      exact he.replayDead hsnap hmono hnot hself htype hrid happly

theorem finish_filed
    {s s' : System} {id : TaskID} {result : Option HandlerError} {now : Time}
    {delay : Duration} {len : Nat}
    (h : Filed s)
    (hstep : s.finish id result now delay len = some s') :
    Filed s' := by
  have hsound := finish_sound h.sound hstep
  have hheld := finish_held h.sound hstep
  obtain ⟨hid, t, -, hcases⟩ := finish_cases h.sound hstep
  have hnot : s.engine.stateOf id ≠ some .dead := by
    apply h.alive
    have hcount : 0 < s.hands.count id := List.count_pos_iff.mpr hid
    unfold held
    omega
  rcases hcases with ⟨-, hs⟩ | ⟨err, -, -, hs⟩ | ⟨err, -, -, hs⟩
  · subst hs
    exact h.moved hsound
      (Engine.sameDead_updateTask (f := Engine.completedAt now) hnot
        (fun _ _ => by simp [Engine.completedAt]))
      rfl hheld (logsAlive_append hnot _ _ _ (by simp) (by simp))
  · exact h.buried hsound hid hs
  · subst hs
    exact h.moved hsound
      (Engine.sameDead_updateTask (f := Engine.retriedAt err (now + delay)) hnot
        (fun _ _ => by simp [Engine.retriedAt]))
      rfl hheld (logsAlive_append hnot _ _ _ (by simp) (by simp))

/-- A checkpoint keeps the invariant: its snapshot lists the dead, not the list of them. -/
theorem checkpoint_filed
    {s s' : System} {order : List TaskID}
    (h : Filed s)
    (hstep : s.checkpoint order = some s') :
    Filed s' := by
  have hsound := checkpoint_sound h.sound hstep
  obtain ⟨horder, hs⟩ := checkpoint_cases hstep
  subst hs
  refine ⟨hsound, h.exact, h.alive, ?_⟩
  intro cfg loaded last hload
  obtain ⟨loaded', hload', hdlq, hget⟩ := Engine.loadTasks_checkpoint cfg
    (fun id t ht => (h.sound.named id t ht).1) horder s.disk
  rw [hload'] at hload
  cases hload
  have hstate : ∀ id, loaded.stateOf id = s.engine.stateOf id := by
    intro id
    rw [Engine.stateOf, hget id, Option.map_map]
    rfl
  refine ⟨fun id hl => by rw [← hl]; exact (hstate id).symm, ?_⟩
  intro hno
  refine ⟨by rw [hdlq]; exact List.nodup_nil, ?_⟩
  intro id
  rw [hdlq, hstate id]
  refine ⟨fun hmem => absurd hmem List.not_mem_nil, ?_⟩
  intro hd
  obtain ⟨t, ht, htd⟩ := Option.map_eq_some_iff.mp hd
  have hmem : Wal.taskToSnapshotTask t ∈ (s.engine.takeSnapshot order).tasks :=
    Engine.mem_takeSnapshot ht (horder.mem.mpr (by simp [ht]))
  exact absurd htd (hno _ rfl _ hmem)

theorem boot_filed
    {s s' : System} {cfg : Engine.Config} {order : List TaskID}
    (h : Filed s)
    (hno : NoDead s.disk.snapshot)
    (hstep : s.boot cfg order = some s') :
    Filed s' := by
  have hsound := boot_sound h.sound hstep
  obtain ⟨loaded, last, e, hload, horder, hreb, hs⟩ := boot_cases hstep
  have hall := Engine.rebuildQueues_restarted hload horder hreb
  have hdead : SameDead loaded e := by
    intro id
    rw [Engine.stateOf, Engine.stateOf, hall.tasks id, Option.map_map]
    cases loaded.tasks.get id with
    | none =>
        simp
    | some t =>
        simp [Engine.requeue_dead_iff]
  obtain ⟨hlive, hexact⟩ := h.durable cfg loaded last hload
  subst hs
  refine ⟨hsound, hdead.exact hall.dlq (hexact hno), ?_, ?_⟩
  · intro id hpos hd
    have hloaded := (hdead id).mp hd
    have hmem : id ∈ e.queued := by
      rw [← List.count_pos_iff, Engine.queued, List.count_append]
      simpa [held] using hpos
    rcases List.mem_append.mp hmem with hbuf | hheap
    · have hr := hall.buffered id hbuf
      simp [Engine.runnable, hloaded, Engine.toBuffer] at hr
    · have hr := hall.delayed id hheap
      simp [Engine.delayed, hloaded] at hr
  · intro cfg' loaded' last' hload'
    refine ⟨?_, (h.durable cfg' loaded' last' hload').2⟩
    intro id hl
    rw [hdead id, Engine.stateOf, Engine.loadTasks_tasks hload hload']
    exact hl

/--
The condition on a step: the snapshot from which it recovers, if it does, has no dead
task.
-/
def ReadsNoDead (s : System) : Event → Prop
  | .shutdown order _ _ => NoDead (some (s.engine.takeSnapshot order))
  | .kill _ _ => NoDead s.disk.snapshot
  | _ => True

instance (s : System) (e : Event) : Decidable (s.ReadsNoDead e) :=
  Event.decidable (fun _ _ _ _ => instDecidableTrue) (fun _ => instDecidableTrue)
    (fun _ _ _ => instDecidableTrue) (fun _ => instDecidableTrue) (fun _ _ => instDecidableTrue)
    (fun _ _ => instDecidableTrue) (fun _ _ _ _ _ => instDecidableTrue)
    (fun _ => instDecidableTrue) (fun _ _ _ => inferInstanceAs (Decidable (NoDead _)))
    (fun _ _ => inferInstanceAs (Decidable (NoDead _))) e

theorem step_filed
    (s : System) (e : Event) (s' : System)
    (h : Filed s)
    (hok : s.ReadsNoDead e)
    (hstep : s.step e = some s') :
    Filed s' := by
  cases e with
  | submit task generatedID now len =>
      exact submit_filed h hstep
  | unblock id =>
      exact unblock_filed h hstep
  | cancel id now len =>
      cases hstep
      exact cancel_filed h id now len
  | promote now =>
      exact promote_filed h hstep
  | schedule now later =>
      exact schedule_filed h hstep
  | start now len =>
      exact start_filed h hstep
  | finish id result now delay len =>
      exact finish_filed h hstep
  | checkpoint order =>
      exact checkpoint_filed h hstep
  | shutdown order cfg recoverOrder =>
      simp only [step] at hstep
      split_ifs at hstep
      obtain ⟨t, hcheck, hboot⟩ := Option.bind_eq_some_iff.mp hstep
      have ht := checkpoint_filed h hcheck
      obtain ⟨-, rfl⟩ := checkpoint_cases hcheck
      exact boot_filed ht hok hboot
  | kill cfg recoverOrder =>
      exact boot_filed h hok hstep

theorem filed_initial
    (cfg : Engine.Config) :
    Filed (initial cfg) := by
  have hnone : ∀ id, (initial cfg).engine.stateOf id = none := fun id => rfl
  refine ⟨sound_initial cfg, ⟨List.nodup_nil, ?_⟩, ?_, ?_⟩
  · intro id
    rw [hnone id]
    exact ⟨fun hmem => absurd hmem List.not_mem_nil, fun hl => by cases hl⟩
  · intro id _
    simp [hnone]
  · intro cfg' loaded last hload
    cases hload
    refine ⟨fun id hl => hl, fun _ => ⟨List.nodup_nil, ?_⟩⟩
    intro id
    exact ⟨fun hmem => absurd hmem List.not_mem_nil, fun hl => by cases hl⟩

/--
In every run in which no process starts from a snapshot with a dead task, the
dead-letter queue lists exactly the dead tasks.
-/
theorem deadLetters_exact
    (cfg : Engine.Config) (es : List Event) (s : System)
    (hrun : Lib.Run step ReadsNoDead (initial cfg) es s) :
    DlqExact s.engine :=
  (hrun.invariant Filed step_filed (filed_initial cfg)).exact

/-- A task fails for good, the process is killed, and the log has it. -/
def deadThenKill : List Event :=
  [.submit Task.zero "a" 10 300, .start 20 100, .finish "a" (some ⟨"boom", true⟩) 30 0 120,
    .kill roomyConfig ["a"]]

theorem deadLetters_exact_deadThenKill :
    ∃ s, Lib.Run step ReadsNoDead (initial roomyConfig) deadThenKill s ∧
      s.engine.dlq = ["a"] ∧ DlqExact s.engine := by
  obtain ⟨s, hrun, hdlq⟩ :=
    Lib.exists_run_of_exec step ReadsNoDead (fun s => s.engine.dlq = ["a"])
      (initial roomyConfig) deadThenKill (by decide +kernel)
  exact ⟨s, hrun, hdlq, deadLetters_exact roomyConfig deadThenKill s hrun⟩

/-- The same, but the process is shut down. -/
def deadThenShutdown : List Event :=
  [.submit Task.zero "a" 10 300, .start 20 100, .finish "a" (some ⟨"boom", true⟩) 30 0 120,
    .shutdown ["a"] roomyConfig ["a"]]

/-- The snapshot brings the dead task back, and nothing puts it on the list. -/
theorem snapshot_losesDeadLetter :
    ∃ s, Lib.Run step (fun _ _ => True) (initial roomyConfig) deadThenShutdown s ∧
      ¬ DlqExact s.engine := by
  obtain ⟨s, hrun, hdlq, hstate⟩ :=
    Lib.exists_run_of_exec step (fun _ _ => True)
      (fun s => s.engine.dlq = [] ∧ s.engine.stateOf "a" = some .dead)
      (initial roomyConfig) deadThenShutdown (by decide +kernel)
  refine ⟨s, hrun, ?_⟩
  intro hexact
  have hmem := (hexact.2 "a").mpr hstate
  rw [hdlq] at hmem
  cases hmem

end System
end TaskQueue
