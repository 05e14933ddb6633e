import TaskQueue.Engine.Requeue

/-!
# What a failed `Submit` leaves behind

`Submit` of `internal/engine/engine.go` registers the task, writes its record and places the
task.  When the encoding or the `Append` fails it takes the registration back; when the ring
buffer turns the task away it does not, and it never takes a record back.

`failed_submit_trace` compares the engine and the directory before and after, for every way
in which `Submit` fails, and says on what there was before the call whether a trace is left.
There is none if the record does not get into the log: the task cannot be encoded, the log is
closed, the record is too long for its length field, or the write fails.  Then the registry,
the keys and the queues are as before, and whatever happens later, no `Submit` is refused as a
duplicate of the task and no `Recover` finds it.  Otherwise the record is at the end of the
log, and `Recover` finds it unless it cannot read the log or skips the record.
-/

namespace TaskQueue

open Lib (GoMap Run)
open Queue
open Wal (Log LogEnv LogRecord Snapshot)

namespace Engine

/-- Nothing in the registry and no key names the task. -/
structure Absent (id : TaskID) (e : Engine) : Prop where
  unregistered : e.tasks.get id = none
  names : ∀ j t, e.tasks.get j = some t → t.id ≠ id
  keys : ∀ key, e.idempKeys.get key ≠ some id

/-- Neither the engine nor the directory has the task. -/
structure Gone (id : TaskID) (e : Engine) (d : Disk) : Prop where
  memory : Absent id e
  durable : Durably d (Absent id)

section Absent

variable {id : TaskID} {e e' : Engine} {d : Disk}

theorem Absent.of_eq
    (h : Absent id e)
    (htasks : e'.tasks = e.tasks)
    (hkeys : e'.idempKeys = e.idempKeys) :
    Absent id e' where
  unregistered := by rw [htasks]; exact h.unregistered
  names := by rw [htasks]; exact h.names
  keys := by rw [hkeys]; exact h.keys

theorem Absent.of_sameTasks
    (h : Absent id e)
    (htasks : SameTasks e e')
    (hkeys : e'.idempKeys = e.idempKeys) :
    Absent id e' where
  unregistered := by
    have hname := htasks id
    rw [h.unregistered, Option.map_none] at hname
    exact Option.map_eq_none_iff.mp hname
  names := by
    intro j t ht
    have hname := htasks j
    rw [ht, Option.map_some] at hname
    obtain ⟨t₀, ht₀, hid⟩ := Option.map_eq_some_iff.mp hname.symm
    rw [← hid]
    exact h.names j t₀ ht₀
  keys := by rw [hkeys]; exact h.keys

theorem Absent.register
    (h : Absent id e)
    {t : Task} (ht : t.id ≠ id) :
    Absent id (e.register t) where
  unregistered := by
    rw [get_register, if_neg (Ne.symm ht)]
    exact h.unregistered
  names := by
    intro j t' ht'
    rw [get_register] at ht'
    split_ifs at ht'
    · cases ht'
      exact ht
    · exact h.names j t' ht'
  keys := by
    intro key
    rw [idempKeys_register]
    split_ifs
    · simpa using ht
    · exact h.keys key

theorem Absent.unregister
    (h : Absent id e)
    (t : Task) :
    Absent id (e.unregister t) where
  unregistered := by
    rw [get_unregister, h.unregistered, ite_self]
  names := by
    intro j t' ht'
    rw [get_unregister] at ht'
    split_ifs at ht'
    exact h.names j t' ht'
  keys := by
    intro key
    rw [idempKeys_unregister]
    split_ifs
    · simp
    · exact h.keys key

theorem Absent.update
    (h : Absent id e)
    (j : TaskID) {f : Task → Task} (hf : ∀ t, (f t).id = t.id) :
    Absent id (e.updateTask j f) :=
  h.of_sameTasks (sameTasks_updateTask e j f hf) rfl

theorem absent_new
    (cfg : Config) :
    Absent id (new cfg) where
  unregistered := GoMap.get_empty id
  names := by
    intro j t ht
    rw [show (new cfg).tasks.get j = none from GoMap.get_empty j] at ht
    cases ht
  keys := by
    intro key
    rw [show (new cfg).idempKeys.get key = none from GoMap.get_empty key]
    simp

/-- An entry that does not register the task. -/
theorem Absent.applyEntry
    (h : Absent id e)
    {entry : Entry}
    (hentry : entry.type = .enqueue → ∀ t, entry.data.task = some t → t.id ≠ id)
    (happly : e.applyEntry entry = .ok e') :
    Absent id e' := by
  rcases applyEntry_cases happly with ⟨t, htype, ht, rfl⟩ | ⟨-, -, rfl⟩ | ⟨-, -, rfl⟩ | rfl
  · exact h.register (hentry htype t ht)
  · exact h.update _ (entryUpdate_id entry)
  · exact (h.update _ (entryUpdate_id entry)).of_eq rfl rfl
  · exact h

/-- An `Append` of a record that does not register the task. -/
theorem Gone.append
    (h : Gone id e d)
    (type : Wal.EntryType) (j : TaskID) (data : EntryData) (io : LogEnv)
    (hdata : type = .enqueue → ∀ t, data.task = some t → t.id ≠ id) :
    Gone id (e.append d type j data io).1 (e.append d type j data io).2.1 := by
  refine ⟨h.memory.of_eq rfl rfl, ?_⟩
  rcases append_disk e d type j data io with hd | hd
  · rw [hd]
    exact h.durable
  · rw [hd]
    exact h.durable.extend _ (fun _ _ he => he) fun _ _ he happly =>
      he.applyEntry hdata happly

theorem Gone.update
    (h : Gone id e d)
    (j : TaskID) {f : Task → Task} (hf : ∀ t, (f t).id = t.id) :
    Gone id (e.updateTask j f) d :=
  ⟨h.memory.update j hf, h.durable⟩

theorem Gone.of_eq
    (h : Gone id e d)
    (htasks : e'.tasks = e.tasks)
    (hkeys : e'.idempKeys = e.idempKeys) :
    Gone id e' d :=
  ⟨h.memory.of_eq htasks hkeys, h.durable⟩

/-- The `Append` of any record but that of a new task. -/
theorem Gone.log
    (h : Gone id e d)
    (type : Wal.EntryType) (j : TaskID) (data : EntryData) (io : LogEnv)
    (htype : type ≠ .enqueue) :
    Gone id (e.append d type j data io).1 (e.append d type j data io).2.1 :=
  h.append type j data io fun henq => absurd henq htype

/-- `Submit` of another task. -/
theorem Gone.submit
    (h : Gone id e d)
    {task : Task} {generatedID : TaskID} {now : Time}
    (hother : (e.prepare task generatedID now).id ≠ id)
    (io : LogEnv) :
    Gone id (e.submit d task generatedID now io).1 (e.submit d task generatedID now io).2.1 := by
  cases hdup : e.duplicateOf task with
  | some existing =>
      rw [Engine.submit, hdup]
      exact h
  | none =>
      have hdurable : ∀ disk, disk = d ∨
          disk = d.extend (e.walLog.record .enqueue (e.prepare task generatedID now).id
            (.ofTask (e.prepare task generatedID now)) io) → Durably disk (Absent id) := by
        rintro disk (rfl | rfl)
        · exact h.durable
        · exact h.durable.extend _ (fun _ _ he => he) fun _ _ he happly =>
            he.applyEntry (fun _ t ht => by cases ht; exact hother) happly
      have hregistered := h.memory.register hother
      rcases submit_ends d generatedID now io hdup with
        ⟨w, disk, err, -, hdisk, hsubmit⟩ | ⟨w, hsubmit⟩
      · rw [hsubmit]
        exact ⟨(hregistered.unregister _).of_eq rfl rfl, hdurable disk hdisk⟩
      · rw [hsubmit]
        exact ⟨hregistered.of_eq (place_tasks _ _ _) (place_idempKeys _ _ _),
          hdurable _ (Or.inr rfl)⟩

/-- `CancelTask`. -/
theorem Gone.cancelTask
    (h : Gone id e d)
    (j : TaskID) (now : Time) (io : LogEnv) :
    Gone id (e.cancelTask d j now io).1 (e.cancelTask d j now io).2.1 := by
  have hmarked : Gone id (e.updateTask j (cancelledAt now)) d := h.update j fun _ => rfl
  have hlog := hmarked.log .cancel j .nil io (by simp)
  rcases cancelTask_cases e d j now io with ⟨err, hc⟩ | ⟨t, -, -, ⟨-, hc⟩ | ⟨-, hc⟩⟩
  · rw [hc]
    exact h
  · rw [hc]
    exact hlog.of_eq rfl rfl
  · rw [hc]
    exact hlog

/-- The rest of an iteration of a worker. -/
theorem Gone.finishTask
    (h : Gone id e d)
    (j : TaskID) (result : Option HandlerError) (now : Time) (delay : Duration) (io : LogEnv) :
    Gone id (e.finishTask d j result now delay io).1
      (e.finishTask d j result now delay io).2 := by
  have hafter : ∀ {e₁ : Engine} {d₁ : Disk}, Gone id e₁ d₁ →
      Gone id (e₁.afterExecution j result now) d₁ := by
    intro e₁ d₁ h₁
    unfold afterExecution poolWrite
    split_ifs
    · cases result with
      | none => exact h₁.update j fun _ => rfl
      | some err => exact h₁.update j fun _ => rfl
    · exact h₁
  unfold Engine.finishTask
  refine hafter ?_
  cases result with
  | none =>
      have hmarked : Gone id (e.markCompleted j now) d := h.update j fun _ => rfl
      exact hmarked.log .complete j .nil io (by simp)
  | some err =>
      dsimp only [handleFailure]
      cases e.tasks.get j with
      | none =>
          exact h
      | some t =>
          dsimp only
          split_ifs
          · have hmarked : Gone id (e.markDead j err now) d := h.update j fun _ => rfl
            exact (hmarked.log .dead j _ io (by simp)).of_eq rfl rfl
          · have hmarked : Gone id (e.markRetry j err (now + delay)) d :=
              h.update j fun _ => rfl
            exact (hmarked.log .retry j _ io (by simp)).of_eq rfl rfl

theorem Gone.scheduleReady
    (h : Gone id e d)
    {j : TaskID} {now later : Time}
    (hstep : e.scheduleReady j now later = some e') :
    Gone id e' d := by
  cases hget : e.tasks.get j with
  | none =>
      rw [Engine.scheduleReady, hget] at hstep
      cases hstep
      exact h
  | some t =>
      rcases scheduleReady_cases hget hstep with
        ⟨-, rfl⟩ | ⟨-, -, rfl⟩ | ⟨-, rb, -, rfl⟩ | ⟨-, rfl⟩
      · exact h
      · exact h.update j fun _ => rfl
      · exact h.of_eq rfl rfl
      · have hmarked : Gone id (e.updateTask j (postponedTo (later + 100000000))) d :=
          h.update j fun _ => rfl
        exact hmarked.of_eq rfl rfl

/-- A snapshot of a registry that does not have the task. -/
theorem Absent.loadSnapshot
    (h : Absent id e)
    {snap : Snapshot}
    (hsnap : ∀ st ∈ snap.tasks, (Wal.snapshotTaskToTask st).id ≠ id) :
    Absent id (e.loadSnapshot (some snap)) := by
  unfold Engine.loadSnapshot
  dsimp only
  generalize snap.tasks = tasks at hsnap
  induction tasks generalizing e with
  | nil =>
      exact h
  | cons st tasks ih =>
      exact ih (h.register (hsnap st List.mem_cons_self)) fun st' hst' =>
        hsnap st' (List.mem_cons_of_mem _ hst')

theorem Gone.checkpoint
    (h : Gone id e d)
    (order : List TaskID) :
    Gone id (e.checkpoint d order).1 (e.checkpoint d order).2 := by
  refine ⟨h.memory.of_eq rfl rfl, ?_⟩
  intro cfg loaded last hload
  have hloaded : loadTasks cfg (e.checkpoint d order).2 =
      .ok ((new cfg).loadSnapshot (some (e.takeSnapshot order)), 0) := rfl
  rw [hloaded] at hload
  cases hload
  refine (absent_new cfg).loadSnapshot ?_
  intro st hst
  obtain ⟨j, -, hj⟩ := List.mem_filterMap.mp hst
  obtain ⟨t, ht, rfl⟩ := Option.map_eq_some_iff.mp hj
  exact h.memory.names j t ht

/-- `rebuildQueues` leaves the keys alone. -/
theorem rebuildQueues_idempKeys
    {order : List TaskID}
    (h : e.rebuildQueues order = some e') :
    e'.idempKeys = e.idempKeys := by
  induction order generalizing e with
  | nil =>
      cases h
      rfl
  | cons j order ih =>
      rw [rebuildQueues] at h
      cases hstep : e.rebuildTask j with
      | none =>
          rw [hstep] at h
          cases h
      | some e₁ =>
          rw [hstep] at h
          rw [ih h]
          unfold rebuildTask at hstep
          split at hstep
          · exact (reEnqueue_some hstep).2.2.2.1
          · cases hstep
            rfl
          · exact (reEnqueue_some hstep).2.2.2.1
          · cases hstep
            rfl

/-- `Recover` does not bring back what the directory does not have. -/
theorem Absent.recovered
    (h : Durably d (Absent id))
    {cfg : Config} {order : List TaskID}
    (hrec : Recovered cfg d order e) :
    Absent id e := by
  obtain ⟨loaded, last, hload, hreb⟩ := recover_ok hrec.1
  have hloaded := h cfg loaded last hload
  have horder := enumerates_of_enumeratesLoaded hrec.2 loaded last hload
  have hres := rebuildQueues_restarted hload horder hreb
  have hkeys : e.idempKeys = loaded.idempKeys :=
    rebuildQueues_idempKeys (e := loaded.openLog last) hreb
  refine hloaded.of_sameTasks ?_ hkeys
  intro j
  rw [hres.tasks j, Option.map_map]
  congr 1
  funext t
  exact requeue_id t

end Absent

end Engine

/-- An engine and its directory, under operations with any outcome of their I/O. -/
structure Service where
  engine : Engine
  disk : Engine.Disk

namespace Service

open Engine (Absent Gone HandlerError Loads Recovered SubmitError SubmitResult)

/--
The operations, taken whole.  Which tasks are with the scheduler, the workers and the
waiting calls is left open: any task may be.
-/
inductive Operation
  | submit (task : Task) (generatedID : TaskID) (now : Time) (io : LogEnv)
  | enqueue (id : TaskID)
  | cancel (id : TaskID) (now : Time) (io : LogEnv)
  | promote (now : Time)
  | schedule (id : TaskID) (now later : Time)
  | start (now : Time) (io : LogEnv)
  | finish (id : TaskID) (result : Option HandlerError) (now : Time) (delay : Duration)
      (io : LogEnv)
  | closeBuffer
  | checkpoint (order : List TaskID)
  | restart (cfg : Engine.Config) (order : List TaskID)

def step (s : Service) : Operation → Option Service
  | .submit task generatedID now io =>
      some
        ⟨(s.engine.submit s.disk task generatedID now io).1,
          (s.engine.submit s.disk task generatedID now io).2.1⟩
  | .enqueue id => (s.engine.reEnqueue id).map fun e => { s with engine := e }
  | .cancel id now io =>
      some
        ⟨(s.engine.cancelTask s.disk id now io).1, (s.engine.cancelTask s.disk id now io).2.1⟩
  | .promote now => some { s with engine := (s.engine.promoteReady now).2 }
  | .schedule id now later =>
      (s.engine.scheduleReady id now later).map fun e => { s with engine := e }
  | .start now io => (s.engine.startTask s.disk now io).map fun r => ⟨r.2.1, r.2.2⟩
  | .finish id result now delay io =>
      some
        ⟨(s.engine.finishTask s.disk id result now delay io).1,
          (s.engine.finishTask s.disk id result now delay io).2⟩
  | .closeBuffer =>
      some { s with engine := { s.engine with buffer := s.engine.buffer.close } }
  | .checkpoint order =>
      some ⟨(s.engine.checkpoint s.disk order).1, (s.engine.checkpoint s.disk order).2⟩
  | .restart cfg order =>
      match Engine.recover cfg s.disk order with
      | .ok e => if Engine.enumeratesLoaded cfg s.disk order then some ⟨e, s.disk⟩ else none
      | _ => none

/-- The ID is not given to another task. -/
def NewIDs (id : TaskID) (s : Service) : Operation → Prop
  | .submit task generatedID now _ => (s.engine.prepare task generatedID now).id ≠ id
  | _ => True

theorem step_gone
    {id : TaskID}
    (s : Service) (op : Operation) (s' : Service)
    (h : Gone id s.engine s.disk)
    (hok : s.NewIDs id op)
    (hstep : s.step op = some s') :
    Gone id s'.engine s'.disk := by
  cases op with
  | submit task generatedID now io =>
      cases hstep
      exact h.submit hok io
  | enqueue j =>
      obtain ⟨e, he, rfl⟩ := Option.map_eq_some_iff.mp hstep
      obtain ⟨htasks, -, -, hkeys, -⟩ := Engine.reEnqueue_some he
      exact h.of_eq htasks hkeys
  | cancel j now io =>
      cases hstep
      exact h.cancelTask j now io
  | promote now =>
      cases hstep
      exact ⟨h.memory.of_sameTasks (Engine.sameTasks_promoteReady s.engine now) rfl, h.durable⟩
  | schedule j now =>
      obtain ⟨e, he, rfl⟩ := Option.map_eq_some_iff.mp hstep
      exact h.scheduleReady he
  | start now io =>
      obtain ⟨⟨j, e, d⟩, hr, rfl⟩ := Option.map_eq_some_iff.mp hstep
      obtain ⟨rb, -, rfl, rfl⟩ := Engine.startTask_some hr
      have hrb : Gone id { s.engine with buffer := rb } s.disk := h.of_eq rfl rfl
      have hmarked : Gone id
          ({ s.engine with buffer := rb }.updateTask j (Engine.runningFrom now)) s.disk :=
        hrb.update j fun _ => rfl
      exact hmarked.log .start j .nil io (by simp)
  | finish j result now delay io =>
      cases hstep
      exact h.finishTask j result now delay io
  | closeBuffer =>
      cases hstep
      exact h.of_eq rfl rfl
  | checkpoint order =>
      cases hstep
      exact h.checkpoint order
  | restart cfg order =>
      simp only [step] at hstep
      split at hstep
      · next e hrec =>
          split_ifs at hstep with henum
          cases hstep
          exact ⟨Absent.recovered h.durable ⟨hrec, henum⟩, h.durable⟩
      · cases hstep

/-- No `Submit` is refused as a duplicate of the task, and no `Recover` brings it back. -/
def Forgets (id : TaskID) (s : Service) : Prop :=
  (∀ task, s.engine.duplicateOf task ≠ some id) ∧
    ∀ cfg order e, Recovered cfg s.disk order e → e.tasks.get id = none

theorem forgets_of_gone
    {id : TaskID} {s : Service}
    (h : Gone id s.engine s.disk) :
    s.Forgets id := by
  constructor
  · intro task
    unfold Engine.duplicateOf
    split_ifs
    · simp
    · exact h.memory.keys _
  · intro cfg order e hrec
    exact (Absent.recovered h.durable hrec).unregistered

/--
A `Submit` fails: it returns an error, or it waits in `Enqueue` until the buffer is closed.
The process after it, and the error.
-/
inductive SubmitFails (s : Service) (task : Task) (generatedID : TaskID) (now : Time)
    (io : LogEnv) : Service → SubmitError → Prop
  | returned {s' : Service} {err : SubmitError}
      (h : s.engine.submit s.disk task generatedID now io = (s'.engine, s'.disk, .error err)) :
      SubmitFails s task generatedID now io s' err
  | closedWhileWaiting {s' : Service} {id : TaskID}
      (h : s.engine.submit s.disk task generatedID now io =
        (s'.engine, s'.disk, .blocked id)) :
      SubmitFails s task generatedID now io
        { s' with engine := { s'.engine with buffer := s'.engine.buffer.close } }
        (.enqueue .closed)

/-- The registry, the keys and the queues are as before, and the task is forgotten for good. -/
structure NoTrace (id : TaskID) (s s' : Service) : Prop where
  tasks : s'.engine.tasks = s.engine.tasks
  keys : s'.engine.idempKeys = s.engine.idempKeys
  buffer : s'.engine.buffer = s.engine.buffer
  heap : s'.engine.heap = s.engine.heap
  later : ∀ ops t, Run step (NewIDs id) s' ops t → t.Forgets id

/-- The `EntryEnqueue` record that `Submit` writes. -/
def submitRecord (s : Service) (task : Task) (generatedID : TaskID) (now : Time)
    (io : LogEnv) : LogRecord Engine.EntryData :=
  s.engine.walLog.record .enqueue (s.engine.prepare task generatedID now).id
    (.ofTask (s.engine.prepare task generatedID now)) io

/-- A `Submit` of a duplicate does not fail otherwise. -/
theorem SubmitFails.noDuplicate
    {s s' : Service} {task : Task} {generatedID : TaskID} {now : Time} {io : LogEnv}
    {err : SubmitError}
    (h : s.SubmitFails task generatedID now io s' err) :
    s.engine.duplicateOf task = none := by
  cases hdup : s.engine.duplicateOf task with
  | none =>
      rfl
  | some existing =>
      cases h with
      | returned h =>
          simp [Engine.submit, hdup] at h
      | closedWhileWaiting h =>
          simp [Engine.submit, hdup] at h

/--
`Recover` replays a record at the end of the log: it can read the records before it, `Replay`
takes a body of this length, and the log counts on from the snapshot.
-/
def ReadsRecord (s : Service) (io : LogEnv) : Prop :=
  Loads s.disk (fun _ => True) ∧ io.bodyLen ≤ Wal.maxBody ∧
    s.disk.snapSeq ≤ s.engine.walLog.seq

/-- A failed `Submit` leaves a trace: the task if it is logged, and else what a restart finds. -/
def LeavesTrace (s : Service) (task : Task) (generatedID : TaskID) (now : Time)
    (io : LogEnv) : Prop :=
  s.engine.LogsSubmit task generatedID now io ∧ (io.outcome = .ok ∨ s.ReadsRecord io)

section Record

variable {s : Service} {task : Task} {generatedID : TaskID} {now : Time} {io : LogEnv}

/-- A record that `Recover` replays brings the task back. -/
theorem ReadsRecord.recovers
    (h : s.ReadsRecord io) :
    ∃ cfg order e,
      Recovered cfg (s.disk.extend (s.submitRecord task generatedID now io)) order e ∧
        e.tasks.get (s.engine.prepare task generatedID now).id ≠ none := by
  obtain ⟨hloads, hlen, hseq⟩ := h
  have hregisters : Loads (s.disk.extend (s.submitRecord task generatedID now io)) fun e =>
      (e.tasks.get (s.engine.prepare task generatedID now).id).isSome = true := by
    refine hloads.extend hlen (fun _ => rfl) ?_ ?_
    · intro hskip
      exact absurd hskip (Engine.record_not_skipped hseq _ _ _ io)
    · intro e e' _ happly
      cases happly
      rw [Engine.get_register, if_pos rfl]
      rfl
  obtain ⟨order, loaded, e, hfound, hrec, hres⟩ :=
    hregisters.recovered Engine.tightConfig rfl
  refine ⟨Engine.tightConfig, order, e, hrec, ?_⟩
  rw [hres.tasks]
  simpa [Option.isSome_iff_ne_none] using hfound

/-- A record that `Recover` does not replay is as good as none. -/
theorem durably_absent_of_unread
    {id : TaskID}
    (hnew : Engine.Durably s.disk (Absent id))
    (h : ¬ s.ReadsRecord io) :
    Engine.Durably (s.disk.extend (s.submitRecord task generatedID now io)) (Absent id) := by
  intro cfg loaded' last hload
  obtain ⟨loaded, last₁, hbefore, hlen, hfn, -⟩ :=
    (Engine.loadTasks_extend cfg _ _ loaded' last).mp hload
  have hloads : Loads s.disk fun _ => True := by
    intro cfg'
    obtain ⟨loaded₂, hload₂, -⟩ := Engine.loadTasks_settings hbefore cfg'
    exact ⟨loaded₂, last₁, hload₂, trivial⟩
  have hskip : (s.submitRecord task generatedID now io).entry.seq ≤ s.disk.snapSeq :=
    Nat.lt_of_not_le fun hseq => h ⟨hloads, hlen, hseq⟩
  rw [Engine.replayHandler, if_pos hskip] at hfn
  cases hfn
  exact hnew cfg loaded' last₁ hbefore

end Record

/-- Taking the registration back leaves the memory as it was. -/
theorem noTrace_of_unregistered
    {s s' : Service} {t : Task} {w : Log}
    (hnew : Absent t.id s.engine)
    (hkey : t.idempotencyKey ≠ "" → s.engine.idempKeys.get t.idempotencyKey = none)
    (hengine : s'.engine = { (s.engine.register t).unregister t with walLog := w })
    (hdurable : Engine.Durably s'.disk (Absent t.id)) :
    NoTrace t.id s s' := by
  have hback := Engine.unregister_register hnew.unregistered hkey
  rw [hback] at hengine
  refine ⟨?_, ?_, ?_, ?_, ?_⟩
  · rw [hengine]
  · rw [hengine]
  · rw [hengine]
  · rw [hengine]
  · intro ops u hrun
    have hgone : Gone t.id s'.engine s'.disk := by
      refine ⟨?_, hdurable⟩
      rw [hengine]
      exact hnew.of_eq rfl rfl
    exact forgets_of_gone (hrun.invariant (fun u => Gone t.id u.engine u.disk) step_gone hgone)

/-- The ends of a `Submit` that fails, by what becomes of its record. -/
theorem SubmitFails.ends
    {s s' : Service} {task : Task} {generatedID : TaskID} {now : Time} {io : LogEnv}
    {err : SubmitError}
    (h : s.SubmitFails task generatedID now io s' err) :
    (¬ s.engine.LogsSubmit task generatedID now io ∧ (∀ qerr, err ≠ .enqueue qerr) ∧
      s'.disk = s.disk ∧
      ∃ w, s'.engine =
        { (s.engine.register (s.engine.prepare task generatedID now)).unregister
            (s.engine.prepare task generatedID now) with walLog := w }) ∨
    (s.engine.LogsSubmit task generatedID now io ∧ io.outcome ≠ .ok ∧
      (∀ qerr, err ≠ .enqueue qerr) ∧
      s'.disk = s.disk.extend (s.submitRecord task generatedID now io) ∧
      ∃ w, s'.engine =
        { (s.engine.register (s.engine.prepare task generatedID now)).unregister
            (s.engine.prepare task generatedID now) with walLog := w }) ∨
    (s.engine.LogsSubmit task generatedID now io ∧ io.outcome = .ok ∧
      (∃ qerr, err = .enqueue qerr) ∧
      s'.disk = s.disk.extend (s.submitRecord task generatedID now io) ∧
      s'.engine.tasks.get (s.engine.prepare task generatedID now).id =
        some (s.engine.prepare task generatedID now)) := by
  rcases Engine.submit_outcome s.disk generatedID now io h.noDuplicate with
    ⟨hlogs, w, err', hne, hsubmit⟩ | ⟨hlogs, hout, w, err', hne, hsubmit⟩ |
      ⟨hlogs, hout, w, hsubmit⟩
  · left
    cases h with
    | returned h =>
        rw [hsubmit] at h
        obtain ⟨hengine, hdisk, herr⟩ : _ ∧ _ ∧ _ := by simpa only [Prod.mk.injEq] using h
        cases herr
        exact ⟨hlogs, hne, hdisk.symm, w, hengine.symm⟩
    | closedWhileWaiting h =>
        rw [hsubmit] at h
        simp at h
  · right
    left
    cases h with
    | returned h =>
        rw [hsubmit] at h
        obtain ⟨hengine, hdisk, herr⟩ : _ ∧ _ ∧ _ := by simpa only [Prod.mk.injEq] using h
        cases herr
        exact ⟨hlogs, hout, hne, hdisk.symm, w, hengine.symm⟩
    | closedWhileWaiting h =>
        rw [hsubmit] at h
        simp at h
  · -- the placement has failed
    right
    right
    have hplaced : ∀ e' d' r,
        s.engine.submit s.disk task generatedID now io = (e', d', r) →
        (∀ id, r ≠ .ok id) →
        d' = s.disk.extend (s.submitRecord task generatedID now io) ∧
          e'.tasks.get (s.engine.prepare task generatedID now).id =
            some (s.engine.prepare task generatedID now) := by
      intro e' d' r h hr
      rw [hsubmit] at h
      obtain ⟨rfl, rfl, rfl⟩ : _ ∧ _ ∧ _ := by simpa only [Prod.mk.injEq] using h
      refine ⟨rfl, ?_⟩
      rw [Engine.place_of_not_ok hr]
      exact (Engine.get_register _ _ _).trans (if_pos rfl)
    cases h with
    | returned h =>
        obtain ⟨hd, htasks⟩ := hplaced _ _ _ h (by simp)
        rw [hsubmit] at h
        have herr := Engine.place_error (congrArg (fun r => r.2.2) h)
        exact ⟨hlogs, hout, herr, hd, htasks⟩
    | closedWhileWaiting h =>
        obtain ⟨hd, htasks⟩ := hplaced _ _ _ h (by simp)
        exact ⟨hlogs, hout, ⟨_, rfl⟩, hd, htasks⟩

/--
A `Submit` of a task with a new ID that fails: whether it leaves a trace of the task, what it
leaves in the log, and when it is `Enqueue` that has failed.  In that case the task is still
registered.
-/
theorem failed_submit_trace
    (s s' : Service) (task : Task) (generatedID : TaskID) (now : Time) (io : LogEnv)
    (err : SubmitError)
    (hnew : Gone (s.engine.prepare task generatedID now).id s.engine s.disk)
    (hfail : s.SubmitFails task generatedID now io s' err) :
    (NoTrace (s.engine.prepare task generatedID now).id s s' ↔
      ¬ s.LeavesTrace task generatedID now io) ∧
    (¬ s.engine.LogsSubmit task generatedID now io → s'.disk = s.disk) ∧
    (s.engine.LogsSubmit task generatedID now io →
      s'.disk = s.disk.extend (s.submitRecord task generatedID now io)) ∧
    ((∃ qerr, err = .enqueue qerr) ↔
      s.engine.LogsSubmit task generatedID now io ∧ io.outcome = .ok) ∧
    (s.engine.LogsSubmit task generatedID now io → io.outcome = .ok →
      s'.engine.tasks.get (s.engine.prepare task generatedID now).id =
        some (s.engine.prepare task generatedID now)) := by
  have hdup := hfail.noDuplicate
  have hkey : (s.engine.prepare task generatedID now).idempotencyKey ≠ "" →
      s.engine.idempKeys.get (s.engine.prepare task generatedID now).idempotencyKey = none := by
    rw [Engine.prepare_idempotencyKey]
    intro hne
    rwa [Engine.duplicateOf, if_neg hne] at hdup
  rcases hfail.ends with
    ⟨hlogs, herr, hdisk, w, hengine⟩ | ⟨hlogs, hout, herr, hdisk, w, hengine⟩ |
      ⟨hlogs, hout, herr, hdisk, htask⟩
  · -- no record
    have hnone : NoTrace (s.engine.prepare task generatedID now).id s s' :=
      noTrace_of_unregistered hnew.memory hkey hengine (by rw [hdisk]; exact hnew.durable)
    refine ⟨iff_of_true hnone fun htrace => hlogs htrace.1, fun _ => hdisk,
      fun h => absurd h hlogs, iff_of_false ?_ fun h => hlogs h.1, fun h => absurd h hlogs⟩
    rintro ⟨qerr, hq⟩
    exact herr qerr hq
  · -- a record, but no fsync
    refine ⟨?_, fun h => absurd hlogs h, fun _ => hdisk, iff_of_false ?_ fun h => hout h.2,
      fun _ h => absurd h hout⟩
    · constructor
      · rintro hnone ⟨-, hok | hreads⟩
        · exact hout hok
        · obtain ⟨cfg, order, e, hrec, hfound⟩ := hreads.recovers
          rw [← hdisk] at hrec
          exact hfound ((hnone.later [] s' (.nil s')).2 cfg order e hrec)
      · intro htrace
        have hunread : ¬ s.ReadsRecord io := fun hreads => htrace ⟨hlogs, Or.inr hreads⟩
        refine noTrace_of_unregistered hnew.memory hkey hengine ?_
        rw [hdisk]
        exact durably_absent_of_unread hnew.durable hunread
    · rintro ⟨qerr, hq⟩
      exact herr qerr hq
  · -- turned away by the buffer
    refine ⟨iff_of_false ?_ fun h => h ⟨hlogs, Or.inl hout⟩, fun h => absurd hlogs h,
      fun _ => hdisk, iff_of_true herr ⟨hlogs, hout⟩, fun _ _ => htask⟩
    intro hnone
    rw [hnone.tasks, hnew.memory.unregistered] at htask
    cases htask

/-- The process that `New` and `Recover` give on an empty directory. -/
def initial (cfg : Engine.Config) : Service :=
  ⟨(System.initial cfg).engine, Engine.Disk.empty⟩

theorem gone_initial
    (cfg : Engine.Config) (id : TaskID) :
    Gone id (initial cfg).engine (initial cfg).disk := by
  refine ⟨(Engine.absent_new cfg).of_eq rfl rfl, ?_⟩
  intro cfg' loaded last hload
  cases hload
  exact Engine.absent_new cfg'

/-- The process after a `Submit`. -/
def submitted (s : Service) (task : Task) (generatedID : TaskID) (now : Time) (io : LogEnv) :
    Service :=
  ⟨(s.engine.submit s.disk task generatedID now io).1,
    (s.engine.submit s.disk task generatedID now io).2.1⟩

/-- A process with one pending task. -/
def onePending : Service :=
  (initial System.roomyConfig).submitted Task.zero "a" 10 (LogEnv.noError 10 300)

theorem submitFails_of_result
    (s : Service) (task : Task) (generatedID : TaskID) (now : Time) (io : LogEnv)
    {err : SubmitError}
    (h : (s.engine.submit s.disk task generatedID now io).2.2 = .error err) :
    s.SubmitFails task generatedID now io (s.submitted task generatedID now io) err :=
  .returned (Prod.ext rfl (Prod.ext rfl h))

/-- A task with the idempotency key `k`. -/
def keyed : Task :=
  { Task.zero with idempotencyKey := "k" }

/-- The write of the record fails. -/
theorem failed_submit_trace_unwritten :
    ∃ s', (initial System.roomyConfig).SubmitFails keyed "a" 10 (.diskFull 10 300) s'
        (.walAppend "wal: write: no space left on device") ∧
      NoTrace "a" (initial System.roomyConfig) s' := by
  have hfail := submitFails_of_result (initial System.roomyConfig) keyed "a" 10
    (.diskFull 10 300) rfl
  refine ⟨_, hfail,
    (failed_submit_trace _ _ keyed "a" 10 (.diskFull 10 300) _
      (gone_initial System.roomyConfig "a") hfail).1.mpr fun htrace => ?_⟩
  exact absurd htrace.1.2.2.2.2 (by decide)

/-- A process whose buffer is full. -/
def fullQueue : Service :=
  (initial Engine.tightConfig).submitted Task.zero "a" 10 (LogEnv.noError 10 300)

/--
A full buffer turns the task away: it stays registered, its key is taken, and `Recover`
brings it back.  So does a record whose fsync failed.
-/
theorem failed_submit_remembered :
    (∃ s', fullQueue.SubmitFails keyed "b" 20 (LogEnv.noError 20 300) s' (.enqueue .full) ∧
      fullQueue.engine.tasks.get "b" = none ∧ s'.engine.stateOf "b" = some .pending ∧
      s'.engine.duplicateOf keyed = some "b" ∧
      ∃ e, Recovered Engine.tightConfig s'.disk ["b", "a"] e ∧
        e.stateOf "b" = some .pending) ∧
    (∃ s', (initial System.roomyConfig).SubmitFails keyed "b" 20 (.fsyncFails 20 300) s'
        (.walAppend "wal: sync: input/output error") ∧
      ∃ e, Recovered System.roomyConfig s'.disk ["b"] e ∧ e.stateOf "b" = some .pending) := by
  refine ⟨⟨_, submitFails_of_result fullQueue keyed "b" 20 (LogEnv.noError 20 300) rfl,
    by decide +kernel, by decide +kernel, by decide +kernel, ?_⟩,
    ⟨_, submitFails_of_result (initial System.roomyConfig) keyed "b" 20 (.fsyncFails 20 300) rfl,
      ?_⟩⟩
  · exact Engine.recovered_of_recoversTo (by decide +kernel)
  · exact Engine.recovered_of_recoversTo (by decide +kernel)

end Service

end TaskQueue
