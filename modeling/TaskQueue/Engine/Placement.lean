import Mathlib.Tactic
import TaskQueue.Engine.Requeue

/-!
# Where the tasks are

In every state of the system a task is in at most one place: the ring buffer, the
heap, the scheduler's ready list, a worker's hands, or a `Submit` that waits.
`Sound` collects this with the other facts about the registry that hold without
any condition on the run; `step_sound` shows that every step keeps them.
-/

namespace TaskQueue

open Lib (GoMap)
open Queue
open Wal (Log LogEnv LogRecord Snapshot)

namespace System

open Engine (HandlerError Named SameTasks sameTasks_updateTask sameTasks_promoteReady)

/-- How often a task occurs in all the places that a task can be in. -/
def held (s : System) (id : TaskID) : Nat :=
  s.engine.buffer.contents.count id + s.engine.heap.inner.count id + s.ready.count id +
    s.hands.count id + s.blocked.count id

/-- The facts about the places and the registry that every step keeps. -/
structure Sound (s : System) : Prop where
  logOpen : s.engine.walLog.closed = false
  bufferOpen : s.engine.buffer.closed = false
  indexed : s.engine.heap.Indexed
  once : ∀ id, s.held id ≤ 1
  registered : ∀ id, 0 < s.held id → (s.engine.tasks.get id).isSome = true
  named : Named s.issued s.engine
  durable : Engine.Durably s.disk (Named s.issued)

theorem sound_initial
    (cfg : Engine.Config) :
    Sound (initial cfg) where
  logOpen := rfl
  bufferOpen := rfl
  indexed := Lib.IndexedHeap.empty_indexed
  once := fun id => by simp [held, initial, Engine.openLog, Engine.new,
    DelayedHeap.new, Lib.IndexedHeap.empty]
  registered := fun id h => by simp [held, initial, Engine.openLog, Engine.new,
    DelayedHeap.new, Lib.IndexedHeap.empty] at h
  named := fun id t h => by simp [initial, Engine.openLog, Engine.new] at h
  durable := by
    intro cfg' loaded last hload id t ht
    cases hload
    simp [Engine.loadSnapshot, Engine.new, initial, Engine.Disk.empty] at ht

/-- The directory is as before, or its log has one more record, not of a new task. -/
def Logs (d d' : Engine.Disk) : Prop :=
  Engine.Disk.Grows (fun r => r.entry.type ≠ .enqueue) d d'

theorem logs_append
    (e : Engine) (d : Engine.Disk) (type : Wal.EntryType) (id : TaskID)
    (data : Engine.EntryData) (io : LogEnv)
    (htype : type ≠ .enqueue) :
    Logs d (e.append d type id data io).2.1 :=
  Engine.grows_append htype d

theorem Logs.named
    {ids : List TaskID} {d d' : Engine.Disk}
    (h : Logs d d')
    (hd : Engine.Durably d (Named ids)) :
    Engine.Durably d' (Named ids) := by
  rcases h with rfl | ⟨r, htype, rfl⟩
  · exact hd
  · refine hd.extend r (fun _ e he => he) ?_
    intro e e' he happly
    rcases Engine.applyEntry_cases happly with
      ⟨t, henq, -, -⟩ | ⟨-, -, rfl⟩ | ⟨-, -, rfl⟩ | rfl
    · exact absurd henq htype
    · exact (sameTasks_updateTask e _ _ (Engine.entryUpdate_id r.entry)).named he
    · exact (sameTasks_updateTask e _ _ (Engine.entryUpdate_id r.entry)).named he
    · exact he

/-- A step that only moves tasks, or drops them, keeps the facts. -/
theorem Sound.moved
    {s s' : System}
    (h : Sound s)
    (hlog : s'.engine.walLog.closed = s.engine.walLog.closed)
    (hbuffer : s'.engine.buffer.closed = s.engine.buffer.closed)
    (hindexed : s'.engine.heap.Indexed)
    (htasks : SameTasks s.engine s'.engine)
    (hheld : ∀ id, s'.held id ≤ s.held id)
    (hissued : s'.issued = s.issued)
    (hdisk : Logs s.disk s'.disk) :
    Sound s' where
  logOpen := hlog.trans h.logOpen
  bufferOpen := hbuffer.trans h.bufferOpen
  indexed := hindexed
  once := fun id => (hheld id).trans (h.once id)
  registered := by
    intro id hid
    rw [htasks.isSome]
    exact h.registered id (lt_of_lt_of_le hid (hheld id))
  named := by
    rw [hissued]
    exact htasks.named h.named
  durable := by
    rw [hissued]
    exact hdisk.named h.durable

/-- A task that is not registered is nowhere. -/
theorem Sound.held_eq_zero
    {s : System}
    (h : Sound s)
    {id : TaskID}
    (hid : id ∉ s.issued) :
    s.engine.tasks.get id = none ∧ s.held id = 0 := by
  have hnone := h.named.get_eq_none hid
  refine ⟨hnone, ?_⟩
  by_contra hne
  have hreg := h.registered id (Nat.pos_of_ne_zero hne)
  simp [hnone] at hreg

/-- The task that a `Submit` registers. -/
def submitted (s : System) (task : Task) (generatedID : TaskID) (now : Time) : Task :=
  s.engine.prepare task generatedID now

/-- The record that a `Submit` writes. -/
def enqueueRecord (s : System) (t : Task) (now : Time) (len : Nat) :
    LogRecord Engine.EntryData :=
  s.engine.walLog.record .enqueue t.id (.ofTask t) (LogEnv.noError now len)

/--
The cases of a `Submit`: it is refused, or the task is logged and then put on the
heap, put in the buffer, turned away by the buffer, or left waiting.
-/
theorem submit_cases
    {s s' : System} {task : Task} {generatedID : TaskID} {now : Time} {len : Nat}
    (hsound : Sound s)
    (h : s.submit task generatedID now len = some s') :
    let t := s.submitted task generatedID now
    let logged := (s.engine.register t).nextLog
    let disk := s.disk.extend (s.enqueueRecord t now len)
    let issued := t.id :: s.issued
    t.id ∉ s.issued ∧
      (s' = { s with issued := issued } ∨
        (s.engine.LogsSubmit task generatedID now (LogEnv.noError now len) ∧
          ((t.state = .scheduled ∧
              s' = { s with engine := logged.pushHeap t.id, disk := disk,
                            issued := issued, acked := t.id :: s.acked }) ∨
            (t.state ≠ .scheduled ∧ ∃ rb, s.engine.buffer.enqueue t.id = .done rb ∧
              s' = { s with engine := { logged with buffer := rb }, disk := disk,
                            issued := issued, acked := t.id :: s.acked }) ∨
            (t.state ≠ .scheduled ∧
              s' = { s with engine := logged, disk := disk, issued := issued }) ∨
            (t.state ≠ .scheduled ∧
              s' = { s with engine := logged, disk := disk, issued := issued,
                            blocked := t.id :: s.blocked })))) := by
  unfold System.submit at h
  dsimp only [submitted, enqueueRecord] at h ⊢
  split_ifs at h with hid
  rw [Option.some.injEq] at h
  refine ⟨hid, ?_⟩
  have hfresh := (hsound.held_eq_zero hid).1
  rcases Engine.submit_noError hsound.logOpen s.disk task generatedID now len hfresh with
    ⟨r, hr, hrefused⟩ | ⟨hlogs, hr⟩
  · left
    rw [← h, Runtime.submit_eq, hr]
    cases r with
    | ok id =>
        cases hrefused
    | duplicate existing =>
        rfl
    | error err =>
        rfl
    | blocked id =>
        cases hrefused
  · right
    refine ⟨hlogs, ?_⟩
    rw [← h, Runtime.submit_eq, hr]
    rcases Engine.place_cases
        (s.engine.register (s.engine.prepare task generatedID now)).nextLog
        (s.engine.prepare task generatedID now).id
        (s.engine.prepare task generatedID now).state with
      ⟨hs, hplace⟩ | ⟨hs, rb, henq, hplace⟩ | ⟨hs, err, hplace⟩ | ⟨hs, hplace⟩
    · exact Or.inl ⟨hs, by rw [hplace]; rfl⟩
    · exact Or.inr (Or.inl ⟨hs, rb, henq, by rw [hplace]; rfl⟩)
    · exact Or.inr (Or.inr (Or.inl ⟨hs, by rw [hplace]; rfl⟩))
    · exact Or.inr (Or.inr (Or.inr ⟨hs, by rw [hplace]; rfl⟩))

/-- The facts after a task has been registered, logged and put in at most one place. -/
theorem Sound.logged
    {s s' : System} {t : Task} {now : Time} {len : Nat}
    (h : Sound s)
    (hid : t.id ∉ s.issued)
    (hlog : s'.engine.walLog.closed = s.engine.walLog.closed)
    (hbuffer : s'.engine.buffer.closed = s.engine.buffer.closed)
    (hindexed : s'.engine.heap.Indexed)
    (htasks : s'.engine.tasks = (s.engine.register t).tasks)
    (hheld : ∀ id, s'.held id ≤ s.held id + if id = t.id then 1 else 0)
    (hissued : s'.issued = t.id :: s.issued)
    (hdisk : s'.disk = s.disk.extend (s.enqueueRecord t now len)) :
    Sound s' where
  logOpen := hlog.trans h.logOpen
  bufferOpen := hbuffer.trans h.bufferOpen
  indexed := hindexed
  once := by
    intro id
    have hle := hheld id
    split_ifs at hle with hself
    · rw [hself, (h.held_eq_zero hid).2] at hle
      rw [hself]
      exact hle
    · exact hle.trans (h.once id)
  registered := by
    intro id hpos
    rw [htasks, Engine.get_register]
    split_ifs with hself
    · rfl
    · have hle := hheld id
      rw [if_neg hself] at hle
      exact h.registered id (lt_of_lt_of_le hpos hle)
  named := by
    rw [hissued]
    intro id t' ht'
    rw [htasks] at ht'
    exact h.named.register t id t' ht'
  durable := by
    rw [hissued, hdisk]
    refine h.durable.extend _ ?_ ?_
    · intro _ e he
      exact he.mono (List.subset_cons_self t.id s.issued)
    · intro e e' he happly
      cases happly
      exact he.register t

/-- A new task gets one place at most. -/
theorem submit_held
    {s s' : System} {task : Task} {generatedID : TaskID} {now : Time} {len : Nat}
    (h : Sound s)
    (hstep : s.submit task generatedID now len = some s')
    (j : TaskID) :
    s'.held j ≤ s.held j + if j = (s.submitted task generatedID now).id then 1 else 0 := by
  obtain ⟨-, hcases⟩ := submit_cases h hstep
  rcases hcases with rfl | ⟨-, ⟨-, rfl⟩ | ⟨-, rb, henq, rfl⟩ | ⟨-, rfl⟩ | ⟨-, rfl⟩⟩
  · exact Nat.le_add_right _ _
  · have hperm := (Engine.pushHeap_perm
      (s.engine.register (s.submitted task generatedID now)).nextLog
      (s.submitted task generatedID now).id).count_eq j
    simp only [held, Engine.pushHeap_buffer, hperm, List.count_cons, beq_iff_eq]
    simp only [Engine.nextLog, Engine.register, eq_comm]
    omega
  · obtain ⟨hcontents, -⟩ := RingBuffer.enqueue_done henq
    simp only [held, hcontents, List.count_append, List.count_singleton, beq_iff_eq]
    simp only [Engine.nextLog, Engine.register, eq_comm]
    omega
  · exact Nat.le_add_right _ _
  · simp only [held, List.count_cons, beq_iff_eq]
    simp only [Engine.nextLog, Engine.register, eq_comm]
    omega

theorem submit_sound
    {s s' : System} {task : Task} {generatedID : TaskID} {now : Time} {len : Nat}
    (h : Sound s)
    (hstep : s.submit task generatedID now len = some s') :
    Sound s' := by
  have hheld := submit_held h hstep
  obtain ⟨hid, hcases⟩ := submit_cases h hstep
  have hnotin : (s.submitted task generatedID now).id ∉ s.engine.heap.inner := by
    have hzero := (h.held_eq_zero hid).2
    unfold held at hzero
    rw [← List.count_eq_zero]
    omega
  rcases hcases with rfl | ⟨-, ⟨-, rfl⟩ | ⟨-, rb, henq, rfl⟩ | ⟨-, rfl⟩ | ⟨-, rfl⟩⟩
  · have hsub := List.subset_cons_self (s.submitted task generatedID now).id s.issued
    exact ⟨h.logOpen, h.bufferOpen, h.indexed, h.once, h.registered, h.named.mono hsub,
      fun cfg loaded last hload => (h.durable cfg loaded last hload).mono hsub⟩
  · exact h.logged hid rfl rfl (Engine.pushHeap_indexed h.indexed hnotin) rfl hheld rfl rfl
  · exact h.logged hid rfl (RingBuffer.enqueue_done henq).2.closed h.indexed rfl hheld rfl
      rfl
  · exact h.logged hid rfl rfl h.indexed rfl hheld rfl rfl
  · exact h.logged hid rfl rfl h.indexed rfl hheld rfl rfl

/-- A waiting `Submit` gets its place in the buffer, or is turned away. -/
theorem unblock_cases
    {s s' : System} {id : TaskID}
    (h : s.unblock id = some s') :
    id ∈ s.blocked ∧
      ((∃ rb, s.engine.buffer.enqueue id = .done rb ∧
          s' = { s with engine := { s.engine with buffer := rb },
                        blocked := s.blocked.erase id, acked := id :: s.acked }) ∨
        s' = { s with blocked := s.blocked.erase id }) := by
  obtain ⟨r, hr, rfl⟩ := Option.map_eq_some_iff.mp h
  obtain ⟨hid, ⟨rb, henq, rfl⟩ | ⟨err, -, rfl⟩⟩ := Runtime.unblock_some hr
  · exact ⟨hid, Or.inl ⟨rb, henq, rfl⟩⟩
  · exact ⟨hid, Or.inr rfl⟩

theorem unblock_held
    {s s' : System} {id : TaskID}
    (hstep : s.unblock id = some s')
    (j : TaskID) :
    s'.held j ≤ s.held j := by
  obtain ⟨hid, ⟨rb, henq, rfl⟩ | rfl⟩ := unblock_cases hstep
  · obtain ⟨hcontents, -⟩ := RingBuffer.enqueue_done henq
    have hpos : 0 < s.blocked.count id := List.count_pos_iff.mpr hid
    simp only [held, hcontents, List.count_append, List.count_singleton, List.count_erase,
      beq_iff_eq]
    split_ifs with hj
    · subst hj
      omega
    · omega
  · simp only [held, List.count_erase, beq_iff_eq]
    split_ifs <;> omega

theorem unblock_sound
    {s s' : System} {id : TaskID}
    (h : Sound s)
    (hstep : s.unblock id = some s') :
    Sound s' := by
  have hheld := unblock_held hstep
  obtain ⟨hid, ⟨rb, henq, rfl⟩ | rfl⟩ := unblock_cases hstep
  · exact h.moved rfl (RingBuffer.enqueue_done henq).2.closed h.indexed (SameTasks.refl _)
      hheld rfl (Or.inl rfl)
  · exact h.moved rfl rfl h.indexed (SameTasks.refl _) hheld rfl (Or.inl rfl)

/-- The engine and the directory after the record of a `CancelTask`. -/
def cancelLogged (s : System) (id : TaskID) (now : Time) (len : Nat) :
    Engine × Engine.Disk × Bool :=
  (s.engine.updateTask id (Engine.cancelledAt now)).append s.disk .cancel id .nil
    (LogEnv.noError now len)

/-- `CancelTask` changes nothing, or marks the task and then takes it off the heap. -/
theorem cancel_cases
    (s : System) (id : TaskID) (now : Time) (len : Nat) :
    s.cancel id now len = s ∨
    ∃ t, s.engine.tasks.get id = some t ∧ Engine.cancellable t.state = true ∧
      let r := s.cancelLogged id now len
      ((r.2.2 = true ∧
          s.cancel id now len = { s with engine := r.1.removeHeap id, disk := r.2.1 }) ∨
        (r.2.2 = false ∧ s.cancel id now len = { s with engine := r.1, disk := r.2.1 })) := by
  unfold System.cancel Runtime.cancel
  rcases Engine.cancelTask_cases s.engine s.disk id now (LogEnv.noError now len) with
    ⟨err, h⟩ | ⟨t, hget, hc, ⟨hok, h⟩ | ⟨hok, h⟩⟩
  · left
    rw [h]
    rfl
  · right
    exact ⟨t, hget, hc, Or.inl ⟨hok, by rw [h]; rfl⟩⟩
  · right
    exact ⟨t, hget, hc, Or.inr ⟨hok, by rw [h]; rfl⟩⟩

theorem cancel_held
    (s : System) (id : TaskID) (now : Time) (len : Nat) (j : TaskID) :
    (s.cancel id now len).held j ≤ s.held j := by
  rcases cancel_cases s id now len with hs' | ⟨t, -, -, ⟨-, hs'⟩ | ⟨-, hs'⟩⟩
  · rw [hs']
  · rw [hs']
    have hsub := (Engine.removeHeap_sublist (s.cancelLogged id now len).1 id).count_le j
    simp only [held, Engine.removeHeap_buffer]
    simp only [cancelLogged, Engine.append_buffer, Engine.append_heap,
      Engine.updateTask_buffer, Engine.updateTask_heap] at hsub ⊢
    omega
  · rw [hs']
    exact Nat.le_refl _

theorem cancel_sound
    {s : System}
    (h : Sound s)
    (id : TaskID) (now : Time) (len : Nat) :
    Sound (s.cancel id now len) := by
  have hheld := cancel_held s id now len
  have htasks : SameTasks s.engine (s.cancelLogged id now len).1 :=
    sameTasks_updateTask s.engine id _ (fun _ => rfl)
  have hlogs : Logs s.disk (s.cancelLogged id now len).2.1 :=
    logs_append _ _ _ _ _ _ (by simp)
  have hclosed : (s.cancelLogged id now len).1.walLog.closed = s.engine.walLog.closed :=
    Engine.append_closed _ _ _ _ _ _
  rcases cancel_cases s id now len with hs' | ⟨t, -, -, ⟨-, hs'⟩ | ⟨-, hs'⟩⟩
  · rw [hs']
    exact h
  · rw [hs'] at hheld ⊢
    exact h.moved hclosed rfl (Engine.removeHeap_indexed h.indexed) htasks hheld rfl hlogs
  · rw [hs'] at hheld ⊢
    exact h.moved hclosed rfl h.indexed htasks hheld rfl hlogs

theorem promote_cases
    {s s' : System} {now : Time}
    (h : s.promote now = some s') :
    s.ready = [] ∧
      s' = { s with engine := (s.engine.promoteReady now).2,
                    ready := (s.engine.promoteReady now).1 } := by
  obtain ⟨r, hr, rfl⟩ := Option.map_eq_some_iff.mp h
  obtain ⟨hready, rfl⟩ := Runtime.promote_some hr
  exact ⟨hready, rfl⟩

theorem promote_held
    {s s' : System} {now : Time}
    (hstep : s.promote now = some s')
    (j : TaskID) :
    s'.held j ≤ s.held j := by
  obtain ⟨hready, rfl⟩ := promote_cases hstep
  have hcount := (Engine.promoteReady_promoted s.engine now).perm.count_eq j
  have hbuffer : (s.engine.promoteReady now).2.buffer = s.engine.buffer := rfl
  rw [List.count_append] at hcount
  simp only [held, hready, hbuffer, List.count_nil]
  omega

theorem promote_sound
    {s s' : System} {now : Time}
    (h : Sound s)
    (hstep : s.promote now = some s') :
    Sound s' := by
  have hheld := promote_held hstep
  obtain ⟨hready, rfl⟩ := promote_cases hstep
  have hprom := Engine.promoteReady_promoted s.engine now
  exact h.moved rfl rfl (hprom.indexed h.indexed) (sameTasks_promoteReady _ _) hheld rfl
    (Or.inl rfl)

/-- The scheduler drops a ready task, or hands it to the buffer or back to the heap. -/
theorem schedule_cases
    {s s' : System} {now later : Time}
    (hsound : Sound s)
    (h : s.schedule now later = some s') :
    ∃ id rest t, s.ready = id :: rest ∧ s.engine.tasks.get id = some t ∧
      ((t.state = .cancelled ∧ s' = { s with ready := rest }) ∨
        (t.state ≠ .cancelled ∧ Engine.expired t now = true ∧
          s' = { s with
                 engine := s.engine.updateTask id (Task.forceSetState · .expired),
                 ready := rest }) ∨
        (t.state ≠ .cancelled ∧ ∃ rb, s.engine.buffer.enqueue id = .done rb ∧
          s' = { s with engine := { s.engine with buffer := rb }, ready := rest }) ∨
        (t.state ≠ .cancelled ∧
          s' = { s with
                 engine := (s.engine.updateTask id
                   (Engine.postponedTo (later + 100000000))).pushHeap id,
                 ready := rest })) := by
  obtain ⟨r, hr, rfl⟩ := Option.map_eq_some_iff.mp h
  obtain ⟨id, rest, e, hready, he, rfl⟩ := Runtime.schedule_some hr
  have hpos : 0 < s.held id := by
    simp [held, hready]
  obtain ⟨t, hget⟩ := Option.isSome_iff_exists.mp (hsound.registered id hpos)
  refine ⟨id, rest, t, hready, hget, ?_⟩
  rcases Engine.scheduleReady_cases hget he with
    ⟨hc, rfl⟩ | ⟨hc, hx, rfl⟩ | ⟨hc, rb, henq, rfl⟩ | ⟨hc, rfl⟩
  · exact Or.inl ⟨hc, rfl⟩
  · exact Or.inr (Or.inl ⟨hc, hx, rfl⟩)
  · exact Or.inr (Or.inr (Or.inl ⟨hc, rb, henq, rfl⟩))
  · exact Or.inr (Or.inr (Or.inr ⟨hc, rfl⟩))

theorem schedule_held
    {s s' : System} {now later : Time}
    (h : Sound s)
    (hstep : s.schedule now later = some s')
    (j : TaskID) :
    s'.held j ≤ s.held j := by
  obtain ⟨id, rest, t, hready, -, hcases⟩ := schedule_cases h hstep
  rcases hcases with ⟨-, rfl⟩ | ⟨-, -, rfl⟩ | ⟨-, rb, henq, rfl⟩ | ⟨-, rfl⟩
  · simp only [held, hready, List.count_cons]
    omega
  · simp only [held, hready, List.count_cons, Engine.updateTask_buffer,
      Engine.updateTask_heap]
    omega
  · obtain ⟨hcontents, -⟩ := RingBuffer.enqueue_done henq
    simp only [held, hready, hcontents, List.count_append, List.count_cons,
      List.count_nil]
    omega
  · have hperm := (Engine.pushHeap_perm
      (s.engine.updateTask id (Engine.postponedTo (later + 100000000))) id).count_eq j
    simp only [held, hready, hperm, Engine.pushHeap_buffer, List.count_cons,
      Engine.updateTask_buffer, Engine.updateTask_heap]
    omega

theorem schedule_sound
    {s s' : System} {now later : Time}
    (h : Sound s)
    (hstep : s.schedule now later = some s') :
    Sound s' := by
  have hheld := schedule_held h hstep
  obtain ⟨id, rest, t, hready, -, hcases⟩ := schedule_cases h hstep
  rcases hcases with ⟨-, rfl⟩ | ⟨-, -, rfl⟩ | ⟨-, rb, henq, rfl⟩ | ⟨-, rfl⟩
  · exact h.moved rfl rfl h.indexed (SameTasks.refl _) hheld rfl (Or.inl rfl)
  · exact h.moved rfl rfl h.indexed (sameTasks_updateTask _ _ _ (fun _ => rfl)) hheld rfl
      (Or.inl rfl)
  · exact h.moved rfl (RingBuffer.enqueue_done henq).2.closed h.indexed (SameTasks.refl _)
      hheld rfl (Or.inl rfl)
  · have hnotin : id ∉ s.engine.heap.inner := by
      have hone := h.once id
      simp only [held, hready, List.count_cons_self] at hone
      rw [← List.count_eq_zero]
      omega
    exact h.moved rfl rfl (Engine.pushHeap_indexed h.indexed hnotin)
      (sameTasks_updateTask _ _ _ (fun _ => rfl)) hheld rfl (Or.inl rfl)

/-- The engine and the directory after a worker has taken `id`, leaving the buffer `rb`. -/
def startLogged (s : System) (id : TaskID) (rb : RingBuffer TaskID) (now : Time)
    (len : Nat) : Engine × Engine.Disk × Bool :=
  ({ s.engine with buffer := rb }.updateTask id (Engine.runningFrom now)).append s.disk
    .start id .nil (LogEnv.noError now len)

theorem start_cases
    {s s' : System} {now : Time} {len : Nat}
    (h : s.start now len = some s') :
    ∃ id rb, s.engine.buffer.dequeue = .done id rb ∧
      let r := s.startLogged id rb now len
      s' = { s with engine := r.1, disk := r.2.1, hands := id :: s.hands } := by
  obtain ⟨r, hr, rfl⟩ := Option.map_eq_some_iff.mp h
  obtain ⟨id, e, d, hstart, rfl⟩ := Runtime.start_some hr
  obtain ⟨rb, hdeq, rfl, rfl⟩ := Engine.startTask_some hstart
  exact ⟨id, rb, hdeq, rfl⟩

theorem start_held
    {s s' : System} {now : Time} {len : Nat}
    (hstep : s.start now len = some s')
    (j : TaskID) :
    s'.held j ≤ s.held j := by
  obtain ⟨id, rb, hdeq, rfl⟩ := start_cases hstep
  have hcount := congrArg (List.count j) (RingBuffer.dequeue_done hdeq).1
  rw [List.count_cons] at hcount
  simp only [held, startLogged, Engine.append_buffer, Engine.append_heap,
    Engine.updateTask_buffer, Engine.updateTask_heap, List.count_cons]
  omega

theorem start_sound
    {s s' : System} {now : Time} {len : Nat}
    (h : Sound s)
    (hstep : s.start now len = some s') :
    Sound s' := by
  have hheld := start_held hstep
  obtain ⟨id, rb, hdeq, rfl⟩ := start_cases hstep
  exact h.moved (Engine.append_closed _ _ _ _ _ _) (RingBuffer.dequeue_done hdeq).2.closed
    h.indexed (sameTasks_updateTask { s.engine with buffer := rb } id _ (fun _ => rfl))
    hheld rfl (logs_append _ _ _ _ _ _ (by simp))

/-- The three ends of an execution, with what each writes to the log. -/
theorem finish_cases
    {s s' : System} {id : TaskID} {result : Option HandlerError} {now : Time}
    {delay : Duration} {len : Nat}
    (hsound : Sound s)
    (h : s.finish id result now delay len = some s') :
    id ∈ s.hands ∧ ∃ t, s.engine.tasks.get id = some t ∧
      ((result = none ∧
          let r := (s.engine.updateTask id (Engine.completedAt now)).append s.disk .complete
            id .nil (LogEnv.noError now len)
          s' = { s with engine := r.1, disk := r.2.1, hands := s.hands.erase id }) ∨
        (∃ err, result = some err ∧ Engine.finalFailure t err = true ∧
          let r := (s.engine.updateTask id (Engine.deadAt err now)).append s.disk .dead
            id (.ofText err.text) (LogEnv.noError now len)
          s' = { s with engine := r.1.pushDLQ id, disk := r.2.1,
                        hands := s.hands.erase id }) ∨
        (∃ err, result = some err ∧ Engine.finalFailure t err = false ∧
          let r := (s.engine.updateTask id (Engine.retriedAt err (now + delay))).append
            s.disk .retry id
            (.ofRetry err.text (t.retryCount + 1) (Wal.unixNano (now + delay)))
            (LogEnv.noError now len)
          s' = { s with engine := r.1.pushHeap id, disk := r.2.1,
                        hands := s.hands.erase id })) := by
  obtain ⟨r, hfinish, rfl⟩ := Option.map_eq_some_iff.mp h
  obtain ⟨hid, rfl⟩ := Runtime.finish_some hfinish
  have hpos : 0 < s.held id := by
    have hcount : 0 < s.hands.count id := List.count_pos_iff.mpr hid
    unfold held
    omega
  obtain ⟨t, hget⟩ := Option.isSome_iff_exists.mp (hsound.registered id hpos)
  refine ⟨hid, t, hget, ?_⟩
  rcases Engine.finishTask_cases hget s.disk result now delay (LogEnv.noError now len) with
    ⟨hr, hfin⟩ | ⟨err, hr, hfinal, hfin⟩ | ⟨err, hr, hfinal, hfin⟩
  · exact Or.inl ⟨hr, by rw [hfin]; rfl⟩
  · exact Or.inr (Or.inl ⟨err, hr, hfinal, by rw [hfin]; rfl⟩)
  · exact Or.inr (Or.inr ⟨err, hr, hfinal, by rw [hfin]; rfl⟩)

theorem finish_held
    {s s' : System} {id : TaskID} {result : Option HandlerError} {now : Time}
    {delay : Duration} {len : Nat}
    (h : Sound s)
    (hstep : s.finish id result now delay len = some s')
    (j : TaskID) :
    s'.held j ≤ s.held j := by
  obtain ⟨hid, t, -, hcases⟩ := finish_cases h hstep
  rcases hcases with ⟨-, rfl⟩ | ⟨err, -, -, rfl⟩ | ⟨err, -, -, rfl⟩
  · simp only [held, Engine.append_buffer, Engine.append_heap, Engine.updateTask_buffer,
      Engine.updateTask_heap, List.count_erase]
    omega
  · simp only [held, Engine.pushDLQ, Engine.append_buffer, Engine.append_heap,
      Engine.updateTask_buffer, Engine.updateTask_heap, List.count_erase]
    omega
  · have hpos : 0 < s.hands.count id := List.count_pos_iff.mpr hid
    rw [held, held, (Engine.pushHeap_perm _ id).count_eq j]
    simp only [Engine.pushHeap_buffer, Engine.append_buffer, Engine.append_heap,
      Engine.updateTask_buffer, Engine.updateTask_heap, List.count_erase, List.count_cons,
      beq_iff_eq]
    split_ifs with hj
    · subst hj
      omega
    · omega

/-- A task in a worker's hands is not on the heap. -/
theorem Sound.notMem_heap_of_hands
    {s : System}
    (h : Sound s)
    {id : TaskID}
    (hid : id ∈ s.hands) :
    id ∉ s.engine.heap.inner := by
  have hpos : 0 < s.hands.count id := List.count_pos_iff.mpr hid
  have hone := h.once id
  unfold held at hone
  rw [← List.count_eq_zero]
  omega

theorem finish_sound
    {s s' : System} {id : TaskID} {result : Option HandlerError} {now : Time}
    {delay : Duration} {len : Nat}
    (h : Sound s)
    (hstep : s.finish id result now delay len = some s') :
    Sound s' := by
  have hheld := finish_held h hstep
  obtain ⟨hid, t, -, hcases⟩ := finish_cases h hstep
  rcases hcases with ⟨-, rfl⟩ | ⟨err, -, -, rfl⟩ | ⟨err, -, -, rfl⟩
  · exact h.moved (Engine.append_closed _ _ _ _ _ _) rfl h.indexed
      (sameTasks_updateTask s.engine id _ (fun _ => rfl)) hheld rfl
      (logs_append _ _ _ _ _ _ (by simp))
  · exact h.moved (Engine.append_closed _ _ _ _ _ _) rfl h.indexed
      (sameTasks_updateTask s.engine id _ (fun _ => rfl)) hheld rfl
      (logs_append _ _ _ _ _ _ (by simp))
  · exact h.moved (Engine.append_closed _ _ _ _ _ _) rfl
      (Engine.pushHeap_indexed h.indexed (h.notMem_heap_of_hands hid))
      (sameTasks_updateTask s.engine id _ (fun _ => rfl)) hheld rfl
      (logs_append _ _ _ _ _ _ (by simp))

/-- `CancelTask`, if its record can be encoded. -/
theorem cancel_logged
    {s : System} {len : Nat}
    (h : Sound s)
    (hlen : len ≤ Wal.maxUint32)
    (id : TaskID) (now : Time) :
    s.cancel id now len = s ∨
    ∃ t, s.engine.tasks.get id = some t ∧ Engine.cancellable t.state = true ∧
      s.cancel id now len =
        { s with
          engine := (s.engine.updateTask id (Engine.cancelledAt now)).nextLog.removeHeap id
          disk := s.disk.extend
            (s.engine.walLog.record .cancel id .nil (LogEnv.noError now len)) } := by
  refine (cancel_cases s id now len).imp_right ?_
  rintro ⟨t, hget, hc, hs⟩
  have happend := Engine.append_noError_of_le
    (e := s.engine.updateTask id (Engine.cancelledAt now)) h.logOpen hlen s.disk .cancel id
    .nil now
  rw [cancelLogged, happend] at hs
  rcases hs with ⟨-, hs⟩ | ⟨hfail, -⟩
  · exact ⟨t, hget, hc, hs⟩
  · cases hfail

/-- The start of an execution, if its record can be encoded. -/
theorem start_logged
    {s s' : System} {now : Time} {len : Nat}
    (h : Sound s)
    (hlen : len ≤ Wal.maxUint32)
    (hstep : s.start now len = some s') :
    ∃ id rb, s.engine.buffer.dequeue = .done id rb ∧
      s' =
        { s with
          engine :=
            ({ s.engine with buffer := rb }.updateTask id (Engine.runningFrom now)).nextLog
          disk := s.disk.extend
            (s.engine.walLog.record .start id .nil (LogEnv.noError now len))
          hands := id :: s.hands } := by
  obtain ⟨id, rb, hdeq, hs⟩ := start_cases hstep
  have happend := Engine.append_noError_of_le
    (e := { s.engine with buffer := rb }.updateTask id (Engine.runningFrom now)) h.logOpen
    hlen s.disk .start id .nil now
  rw [startLogged, happend] at hs
  exact ⟨id, rb, hdeq, hs⟩

/-- The three ends of an execution, if their records can be encoded. -/
theorem finish_logged
    {s s' : System} {id : TaskID} {result : Option HandlerError} {now : Time}
    {delay : Duration} {len : Nat}
    (h : Sound s)
    (hlen : len ≤ Wal.maxUint32)
    (hstep : s.finish id result now delay len = some s') :
    id ∈ s.hands ∧ ∃ t, s.engine.tasks.get id = some t ∧
      ((result = none ∧
          s' =
            { s with
              engine := (s.engine.updateTask id (Engine.completedAt now)).nextLog
              disk := s.disk.extend
                (s.engine.walLog.record .complete id .nil (LogEnv.noError now len))
              hands := s.hands.erase id }) ∨
        (∃ err, result = some err ∧ Engine.finalFailure t err = true ∧
          s' =
            { s with
              engine := (s.engine.updateTask id (Engine.deadAt err now)).nextLog.pushDLQ id
              disk := s.disk.extend
                (s.engine.walLog.record .dead id (.ofText err.text) (LogEnv.noError now len))
              hands := s.hands.erase id }) ∨
        (∃ err, result = some err ∧ Engine.finalFailure t err = false ∧
          s' =
            { s with
              engine :=
                (s.engine.updateTask id (Engine.retriedAt err (now + delay))).nextLog.pushHeap
                  id
              disk := s.disk.extend
                (s.engine.walLog.record .retry id
                  (.ofRetry err.text (t.retryCount + 1) (Wal.unixNano (now + delay)))
                  (LogEnv.noError now len))
              hands := s.hands.erase id })) := by
  obtain ⟨hid, t, hget, hcases⟩ := finish_cases h hstep
  refine ⟨hid, t, hget, ?_⟩
  have happend : ∀ f type data,
      (s.engine.updateTask id f).append s.disk type id data (LogEnv.noError now len) =
        ((s.engine.updateTask id f).nextLog,
          s.disk.extend (s.engine.walLog.record type id data (LogEnv.noError now len)),
          true) := fun f type data =>
    Engine.append_noError_of_le (e := s.engine.updateTask id f) h.logOpen hlen s.disk type id
      data now
  rcases hcases with ⟨hr, hs⟩ | ⟨err, hr, hfinal, hs⟩ | ⟨err, hr, hfinal, hs⟩
  · rw [happend] at hs
    exact Or.inl ⟨hr, hs⟩
  · rw [happend] at hs
    exact Or.inr (Or.inl ⟨err, hr, hfinal, hs⟩)
  · rw [happend] at hs
    exact Or.inr (Or.inr ⟨err, hr, hfinal, hs⟩)

theorem checkpoint_cases
    {s s' : System} {order : List TaskID}
    (h : s.checkpoint order = some s') :
    s.engine.tasks.Enumerates order ∧
      s' = { s with engine := (s.engine.checkpoint s.disk order).1,
                    disk := (s.engine.checkpoint s.disk order).2 } := by
  obtain ⟨r, hr, rfl⟩ := Option.map_eq_some_iff.mp h
  obtain ⟨horder, rfl⟩ := Runtime.checkpoint_some hr
  exact ⟨horder, rfl⟩

/-- The registry that comes back from a checkpoint has the names of the one it was taken from. -/
theorem durably_checkpoint
    {ids : List TaskID} {e : Engine} {order : List TaskID}
    (hnamed : Named ids e)
    (horder : e.tasks.Enumerates order)
    (d : Engine.Disk) :
    Engine.Durably (e.checkpoint d order).2 (Named ids) := by
  intro cfg loaded last hload id t ht
  obtain ⟨loaded', hload', -, hget⟩ := Engine.loadTasks_checkpoint cfg
    (fun id t ht => (hnamed id t ht).1) horder d
  rw [hload'] at hload
  cases hload
  rw [hget id] at ht
  obtain ⟨t₀, ht₀, rfl⟩ := Option.map_eq_some_iff.mp ht
  exact hnamed id t₀ ht₀

theorem checkpoint_sound
    {s s' : System} {order : List TaskID}
    (h : Sound s)
    (hstep : s.checkpoint order = some s') :
    Sound s' := by
  obtain ⟨horder, rfl⟩ := checkpoint_cases hstep
  exact ⟨rfl, h.bufferOpen, h.indexed, h.once, h.registered, h.named,
    durably_checkpoint h.named horder s.disk⟩

/-- The next process: the registry of the directory, with its queues filled. -/
theorem boot_cases
    {s s' : System} {cfg : Engine.Config} {order : List TaskID}
    (h : s.boot cfg order = some s') :
    ∃ loaded last e, Engine.loadTasks cfg s.disk = .ok (loaded, last) ∧
      loaded.tasks.Enumerates order ∧
      (loaded.openLog last).rebuildQueues order = some e ∧
      s' = { s with engine := e, ready := [], hands := [], blocked := [] } := by
  unfold boot at h
  cases hload : Engine.loadTasks cfg s.disk with
  | error err =>
      simp [hload] at h
  | ok r =>
      obtain ⟨loaded, last⟩ := r
      simp only [hload] at h
      split_ifs at h with horder
      obtain ⟨e, he, rfl⟩ := Option.map_eq_some_iff.mp h
      exact ⟨loaded, last, e, rfl, horder, he, rfl⟩

theorem boot_sound
    {s s' : System} {cfg : Engine.Config} {order : List TaskID}
    (h : Sound s)
    (hstep : s.boot cfg order = some s') :
    Sound s' := by
  obtain ⟨loaded, last, e, hload, horder, hreb, rfl⟩ := boot_cases hstep
  have hall := Engine.rebuildQueues_restarted hload horder hreb
  have hcount : ∀ id, held { s with engine := e, ready := [], hands := [], blocked := [] }
      id = e.queued.count id := by
    intro id
    simp [held, Engine.queued]
  refine ⟨hall.logOpen, hall.bufferOpen, hall.indexed, ?_, ?_, ?_, h.durable⟩
  · intro id
    rw [hcount id]
    exact hall.once id
  · intro id hpos
    rw [hcount id] at hpos
    exact hall.registered id (List.count_pos_iff.mp hpos)
  · intro id t ht
    rw [hall.tasks id] at ht
    obtain ⟨t₀, ht₀, rfl⟩ := Option.map_eq_some_iff.mp ht
    rw [Engine.requeue_id]
    exact h.durable cfg loaded last hload id t₀ ht₀

/-- Every step keeps the facts about the places. -/
theorem step_sound
    {s s' : System} {e : Event}
    (h : Sound s)
    (hstep : s.step e = some s') :
    Sound s' := by
  cases e with
  | submit task generatedID now len =>
      exact submit_sound h hstep
  | unblock id =>
      exact unblock_sound h hstep
  | cancel id now len =>
      cases hstep
      exact cancel_sound h id now len
  | promote now =>
      exact promote_sound h hstep
  | schedule now later =>
      exact schedule_sound h hstep
  | start now len =>
      exact start_sound h hstep
  | finish id result now delay len =>
      exact finish_sound h hstep
  | checkpoint order =>
      exact checkpoint_sound h hstep
  | shutdown order cfg recoverOrder =>
      simp only [step] at hstep
      split_ifs at hstep
      obtain ⟨t, hcheck, hboot⟩ := Option.bind_eq_some_iff.mp hstep
      exact boot_sound (checkpoint_sound h hcheck) hboot
  | kill cfg recoverOrder =>
      exact boot_sound h hstep

end System
end TaskQueue
