import Mathlib.Tactic
import TaskQueue.Engine.Recovery

/-!
# What the operations do

One lemma for each operation of the engine that says all it can do: which task
changes and how, what becomes of the two queues, and what is written to the log.
The invariants of the development are derived from these lemmas alone.
-/

namespace TaskQueue

open Lib (GoMap)
open Queue
open Wal (Log LogEnv LogRecord Snapshot)

namespace Engine

theorem get_register
    (e : Engine) (t : Task) (j : TaskID) :
    (e.register t).tasks.get j = if j = t.id then some t else e.tasks.get j := by
  exact GoMap.get_set e.tasks t.id j t

theorem stateOf_register_self
    (e : Engine) (t : Task) :
    (e.register t).stateOf t.id = some t.state := by
  rw [stateOf, get_register, if_pos rfl]
  rfl

theorem stateOf_register_of_ne
    (e : Engine) {t : Task} {j : TaskID}
    (h : j ≠ t.id) :
    (e.register t).stateOf j = e.stateOf j := by
  rw [stateOf, get_register, if_neg h]
  rfl

theorem get_unregister
    (e : Engine) (task : Task) (j : TaskID) :
    (e.unregister task).tasks.get j = if j = task.id then none else e.tasks.get j := by
  exact GoMap.get_delete e.tasks task.id j

theorem idempKeys_register
    (e : Engine) (t : Task) (key : String) :
    (e.register t).idempKeys.get key =
      if t.idempotencyKey ≠ "" ∧ key = t.idempotencyKey then some t.id
      else e.idempKeys.get key := by
  unfold register
  by_cases hempty : t.idempotencyKey = ""
  · simp [hempty]
  · simp [hempty, GoMap.get_set]

theorem idempKeys_unregister
    (e : Engine) (task : Task) (key : String) :
    (e.unregister task).idempKeys.get key =
      if task.idempotencyKey ≠ "" ∧ key = task.idempotencyKey then none
      else e.idempKeys.get key := by
  unfold unregister
  by_cases hempty : task.idempotencyKey = ""
  · simp [hempty]
  · simp [hempty, GoMap.get_delete]

/-- Registering a new task and taking it back leaves no trace. -/
theorem unregister_register
    {e : Engine} {t : Task}
    (hfresh : e.tasks.get t.id = none)
    (hkey : t.idempotencyKey ≠ "" → e.idempKeys.get t.idempotencyKey = none) :
    (e.register t).unregister t = e := by
  have htasks : (e.tasks.set t.id t).delete t.id = e.tasks := by
    apply GoMap.ext
    intro j
    rw [GoMap.get_delete, GoMap.get_set]
    split_ifs with hj
    · rw [hj, hfresh]
    · rfl
  have hkeys :
      (if t.idempotencyKey = "" then
          if t.idempotencyKey = "" then e.idempKeys
          else e.idempKeys.set t.idempotencyKey t.id
        else
          (if t.idempotencyKey = "" then e.idempKeys
            else e.idempKeys.set t.idempotencyKey t.id).delete t.idempotencyKey) =
        e.idempKeys := by
    split_ifs with hempty
    · rfl
    · apply GoMap.ext
      intro k
      rw [GoMap.get_delete, GoMap.get_set]
      split_ifs with hk
      · rw [hk, hkey hempty]
      · rfl
  unfold unregister register
  simp only [htasks, hkeys]

/-- A task starts as scheduled or as pending. -/
theorem prepare_state
    (e : Engine) (task : Task) (generatedID : TaskID) (now : Time) :
    (e.prepare task generatedID now).state = .scheduled ∨
      (e.prepare task generatedID now).state = .pending := by
  unfold prepare withInitialState
  split_ifs
  · exact Or.inl rfl
  · exact Or.inr rfl

theorem prepare_idempotencyKey
    (e : Engine) (task : Task) (generatedID : TaskID) (now : Time) :
    (e.prepare task generatedID now).idempotencyKey = task.idempotencyKey := by
  unfold prepare withInitialState
  split_ifs <;> rfl

/--
`Submit` writes a record of the task: it is no duplicate, it can be encoded, and the record gets
into the log, whether or not the fsync succeeds.
-/
def LogsSubmit (e : Engine) (task : Task) (generatedID : TaskID) (now : Time) (io : LogEnv) :
    Prop :=
  e.duplicateOf task = none ∧ marshalable (e.prepare task generatedID now) = true ∧
    e.walLog.Writes io

instance (e : Engine) (task : Task) (generatedID : TaskID) (now : Time) (io : LogEnv) :
    Decidable (e.LogsSubmit task generatedID now io) :=
  inferInstanceAs (Decidable (_ ∧ _ ∧ _))

/-- The results of `Submit` after which the task is neither accepted nor waiting. -/
def SubmitResult.refused : SubmitResult → Bool
  | .duplicate _ => true
  | .error _ => true
  | _ => false

/-- A `Submit` without I/O errors is refused and changes nothing, or logs the task. -/
theorem submit_noError
    {e : Engine}
    (hopen : e.walLog.closed = false)
    (d : Disk) (task : Task) (generatedID : TaskID) (now : Time) (len : Nat)
    (hfresh : e.tasks.get (e.prepare task generatedID now).id = none) :
    (∃ r, e.submit d task generatedID now (LogEnv.noError now len) = (e, d, r) ∧
      r.refused = true) ∨
    (e.LogsSubmit task generatedID now (LogEnv.noError now len) ∧
      let t := e.prepare task generatedID now
      let logged := (e.register t).nextLog
      e.submit d task generatedID now (LogEnv.noError now len) =
        ((logged.place t.id t.state).1,
          d.extend (e.walLog.record .enqueue t.id (.ofTask t) (LogEnv.noError now len)),
          (logged.place t.id t.state).2)) := by
  unfold submit logSubmit
  cases hdup : e.duplicateOf task with
  | some existing =>
      exact Or.inl ⟨_, rfl, rfl⟩
  | none =>
      have hkey : (e.prepare task generatedID now).idempotencyKey ≠ "" →
          e.idempKeys.get (e.prepare task generatedID now).idempotencyKey = none := by
        intro hne
        rw [prepare_idempotencyKey] at hne ⊢
        rw [duplicateOf, if_neg hne] at hdup
        exact hdup
      have hback := unregister_register hfresh hkey
      dsimp only
      split_ifs with hm
      · have hopen' : (e.register (e.prepare task generatedID now)).walLog.closed = false :=
          hopen
        rw [append_noError hopen']
        split_ifs with hlen
        · left
          exact ⟨_, by dsimp only; rw [hback], rfl⟩
        · right
          exact ⟨⟨hdup, hm, hopen, Nat.not_lt.mp hlen, Or.inl rfl⟩, rfl⟩
      · left
        exact ⟨_, by rw [hback], rfl⟩

/-- The placement of a task: on the heap, in the buffer, or nowhere. -/
theorem place_cases
    (e : Engine) (id : TaskID) (state : TaskState) :
    (state = .scheduled ∧ e.place id state = (e.pushHeap id, .ok id)) ∨
    (state ≠ .scheduled ∧ ∃ rb, e.buffer.enqueue id = .done rb ∧
      e.place id state = ({ e with buffer := rb }, .ok id)) ∨
    (state ≠ .scheduled ∧ ∃ err, e.place id state = (e, .error (.enqueue err))) ∨
    (state ≠ .scheduled ∧ e.place id state = (e, .blocked id)) := by
  unfold place
  split_ifs with hs
  · exact Or.inl ⟨hs, rfl⟩
  · cases henq : e.buffer.enqueue id with
    | done rb =>
        exact Or.inr (Or.inl ⟨hs, rb, rfl, rfl⟩)
    | fail err =>
        exact Or.inr (Or.inr (Or.inl ⟨hs, _, rfl⟩))
    | wait =>
        exact Or.inr (Or.inr (Or.inr ⟨hs, rfl⟩))

theorem place_of_not_ok
    {e : Engine} {id : TaskID} {state : TaskState}
    (h : ∀ j, (e.place id state).2 ≠ .ok j) :
    (e.place id state).1 = e := by
  rcases place_cases e id state with ⟨-, hp⟩ | ⟨-, rb, -, hp⟩ | ⟨-, err, hp⟩ | ⟨-, hp⟩
  · exact absurd (congrArg Prod.snd hp) (h id)
  · exact absurd (congrArg Prod.snd hp) (h id)
  · rw [hp]
  · rw [hp]

theorem place_error
    {e : Engine} {id : TaskID} {state : TaskState} {err : SubmitError}
    (h : (e.place id state).2 = .error err) :
    ∃ qerr, err = .enqueue qerr := by
  rcases place_cases e id state with ⟨-, hp⟩ | ⟨-, rb, -, hp⟩ | ⟨-, qerr, hp⟩ | ⟨-, hp⟩
  all_goals
    rw [hp] at h
    cases h
  exact ⟨qerr, rfl⟩

/-- The tasks after the placement are those before. -/
theorem place_tasks
    (e : Engine) (id : TaskID) (state : TaskState) :
    (e.place id state).1.tasks = e.tasks := by
  rcases place_cases e id state with ⟨-, hp⟩ | ⟨-, rb, -, hp⟩ | ⟨-, err, hp⟩ | ⟨-, hp⟩
  · rw [hp, pushHeap_tasks]
  · rw [hp]
  · rw [hp]
  · rw [hp]

theorem place_idempKeys
    (e : Engine) (id : TaskID) (state : TaskState) :
    (e.place id state).1.idempKeys = e.idempKeys := by
  rcases place_cases e id state with ⟨-, hp⟩ | ⟨-, rb, -, hp⟩ | ⟨-, err, hp⟩ | ⟨-, hp⟩
  · rw [hp]
    rfl
  · rw [hp]
  · rw [hp]
  · rw [hp]

/--
The middle block of `Submit`.  Without a record the registration is taken back; with a record
whose fsync has failed it is taken back as well.
-/
theorem logSubmit_cases
    (e : Engine) (d : Disk) (t : Task) (io : LogEnv) :
    let record := e.walLog.record .enqueue t.id (.ofTask t) io
    (¬ (marshalable t = true ∧ e.walLog.Writes io) ∧
      ∃ w err, (∀ qerr, err ≠ SubmitError.enqueue qerr) ∧
        e.logSubmit d t io = ({ e.unregister t with walLog := w }, d, some err)) ∨
    ((marshalable t = true ∧ e.walLog.Writes io) ∧ io.outcome ≠ .ok ∧
      ∃ w err, (∀ qerr, err ≠ SubmitError.enqueue qerr) ∧
        e.logSubmit d t io = ({ e.unregister t with walLog := w }, d.extend record, some err)) ∨
    ((marshalable t = true ∧ e.walLog.Writes io) ∧ io.outcome = .ok ∧
      e.logSubmit d t io = (e.nextLog, d.extend record, none)) := by
  intro record
  unfold logSubmit
  by_cases hm : marshalable t = true
  · rw [if_pos hm]
    by_cases hwrites : e.walLog.Writes io
    · rw [append_of_writes hwrites]
      by_cases hok : io.outcome = .ok
      · right
        right
        rw [decide_eq_true hok]
        exact ⟨⟨hm, hwrites⟩, hok, rfl⟩
      · right
        left
        rw [decide_eq_false hok]
        exact ⟨⟨hm, hwrites⟩, hok, _, _, by simp, rfl⟩
    · left
      obtain ⟨w, happ⟩ := append_of_not_writes hwrites d .enqueue t.id (.ofTask t)
      rw [happ]
      exact ⟨fun h => hwrites h.2, w, _, by simp, rfl⟩
  · left
    rw [if_neg hm]
    exact ⟨fun h => hm h.1, e.walLog, _, by simp, rfl⟩

/-- A `Submit` of a task that is no duplicate: it is taken back, or placed. -/
theorem submit_outcome
    {e : Engine} {task : Task}
    (d : Disk) (generatedID : TaskID) (now : Time) (io : LogEnv)
    (hdup : e.duplicateOf task = none) :
    let t := e.prepare task generatedID now
    let record := e.walLog.record .enqueue t.id (.ofTask t) io
    (¬ e.LogsSubmit task generatedID now io ∧
      ∃ w err, (∀ qerr, err ≠ SubmitError.enqueue qerr) ∧
        e.submit d task generatedID now io =
          ({ (e.register t).unregister t with walLog := w }, d, .error err)) ∨
    (e.LogsSubmit task generatedID now io ∧ io.outcome ≠ .ok ∧
      ∃ w err, (∀ qerr, err ≠ SubmitError.enqueue qerr) ∧
        e.submit d task generatedID now io =
          ({ (e.register t).unregister t with walLog := w }, d.extend record, .error err)) ∨
    (e.LogsSubmit task generatedID now io ∧ io.outcome = .ok ∧
      ∃ w, e.submit d task generatedID now io =
        (({ e.register t with walLog := w }.place t.id t.state).1, d.extend record,
          ({ e.register t with walLog := w }.place t.id t.state).2)) := by
  intro t record
  unfold submit
  rw [hdup]
  dsimp only
  rcases logSubmit_cases (e.register t) d t io with
    ⟨hno, w, err, herr, hlog⟩ | ⟨hlogs, hok, w, err, herr, hlog⟩ | ⟨hlogs, hok, hlog⟩
  · left
    rw [hlog]
    exact ⟨fun h => hno h.2, w, err, herr, rfl⟩
  · right
    left
    rw [hlog]
    exact ⟨⟨hdup, hlogs⟩, hok, w, err, herr, rfl⟩
  · right
    right
    rw [hlog]
    exact ⟨⟨hdup, hlogs⟩, hok, _, rfl⟩

/-- The ends of a `Submit` of a task that is no duplicate: taken back, or logged and placed. -/
theorem submit_ends
    {e : Engine} {task : Task}
    (d : Disk) (generatedID : TaskID) (now : Time) (io : LogEnv)
    (hdup : e.duplicateOf task = none) :
    let t := e.prepare task generatedID now
    let record := e.walLog.record .enqueue t.id (.ofTask t) io
    (∃ w disk err, (∀ qerr, err ≠ SubmitError.enqueue qerr) ∧
      (disk = d ∨ disk = d.extend record) ∧
      e.submit d task generatedID now io =
        ({ (e.register t).unregister t with walLog := w }, disk, .error err)) ∨
    (∃ w, e.submit d task generatedID now io =
      (({ e.register t with walLog := w }.place t.id t.state).1, d.extend record,
        ({ e.register t with walLog := w }.place t.id t.state).2)) := by
  intro t record
  rcases submit_outcome d generatedID now io hdup with
    ⟨-, w, err, hne, hsubmit⟩ | ⟨-, -, w, err, hne, hsubmit⟩ | ⟨-, -, w, hsubmit⟩
  · exact Or.inl ⟨w, d, err, hne, Or.inl rfl, hsubmit⟩
  · exact Or.inl ⟨w, d.extend record, err, hne, Or.inr rfl, hsubmit⟩
  · exact Or.inr ⟨w, hsubmit⟩

/-- A task that `Submit` returns or waits with is registered as it was filled in. -/
theorem submit_registered
    {e : Engine} {task : Task} {d : Disk} {generatedID id : TaskID} {now : Time} {io : LogEnv}
    (h : (e.submit d task generatedID now io).2.2 = .ok id ∨
      (e.submit d task generatedID now io).2.2 = .blocked id) :
    id = (e.prepare task generatedID now).id ∧
      (e.submit d task generatedID now io).1.tasks.get id =
        some (e.prepare task generatedID now) := by
  cases hdup : e.duplicateOf task with
  | some existing =>
      have hsubmit : (e.submit d task generatedID now io).2.2 =
          .duplicate (e.tasks.get existing) := by
        rw [submit, hdup]
      rw [hsubmit] at h
      rcases h with h | h <;> cases h
  | none =>
      rcases submit_ends d generatedID now io hdup with
        ⟨w, disk, err, -, -, hsubmit⟩ | ⟨w, hsubmit⟩
      · rw [hsubmit] at h
        rcases h with h | h <;> cases h
      · rw [hsubmit] at h ⊢
        have hid : id = (e.prepare task generatedID now).id := by
          rcases place_cases { e.register (e.prepare task generatedID now) with walLog := w }
              (e.prepare task generatedID now).id (e.prepare task generatedID now).state with
            ⟨-, hp⟩ | ⟨-, rb, -, hp⟩ | ⟨-, err, hp⟩ | ⟨-, hp⟩
          all_goals
            rw [hp] at h
            rcases h with h | h <;> cases h <;> rfl
        refine ⟨hid, ?_⟩
        rw [place_tasks, hid]
        exact (get_register e _ _).trans (if_pos rfl)

/-- What `CancelTask` writes to a task. -/
def cancelledAt (now : Time) (t : Task) : Task :=
  { t with state := .cancelled, completedAt := now }

/-- The block under `e.mu` refuses, or marks the task. -/
theorem markCancelled_cases
    (e : Engine) (id : TaskID) (now : Time) :
    ((∀ t, e.tasks.get id = some t → cancellable t.state = false) ∧
      ∃ err, e.markCancelled id now = .error err ∧ ∀ cause, err ≠ .walCancel cause) ∨
    ∃ t, e.tasks.get id = some t ∧ cancellable t.state = true ∧
      e.markCancelled id now = .ok (e.updateTask id (cancelledAt now)) := by
  unfold markCancelled
  cases hget : e.tasks.get id with
  | none =>
      exact Or.inl ⟨by simp, _, rfl, fun _ => CancelError.noConfusion⟩
  | some t =>
      by_cases hc : cancellable t.state = true
      · exact Or.inr ⟨t, rfl, hc, if_pos hc⟩
      · refine Or.inl ⟨?_, _, if_neg hc, fun _ => CancelError.noConfusion⟩
        intro t' ht'
        cases ht'
        exact Bool.eq_false_iff.mpr hc

/-- The three ways through `CancelTask`, whatever log and files its `Append` meets. -/
theorem cancelTaskMeeting_cases
    (e : Engine) (log : Log) (d : Disk) (id : TaskID) (now : Time) (io : LogEnv) :
    ((∀ t, e.tasks.get id = some t → cancellable t.state = false) ∧
      ∃ err, e.cancelTaskMeeting log d id now io = (e, d, .error err) ∧
        ∀ cause, err ≠ .walCancel cause) ∨
    ∃ t, e.tasks.get id = some t ∧ cancellable t.state = true ∧
      let r := ((e.withLog log).updateTask id (cancelledAt now)).append d .cancel id .nil io
      ((r.2.2 = true ∧
          e.cancelTaskMeeting log d id now io = (r.1.removeHeap id, r.2.1, .ok ())) ∨
        (r.2.2 = false ∧ e.cancelTaskMeeting log d id now io =
          (r.1, r.2.1, .error (.walCancel (log.appendError io))))) := by
  unfold cancelTaskMeeting
  rcases e.markCancelled_cases id now with ⟨hno, err, hmark, hkind⟩ | ⟨t, hget, hc, hmark⟩
  · left
    rw [hmark]
    exact ⟨hno, err, rfl, hkind⟩
  · right
    refine ⟨t, hget, hc, ?_⟩
    have hmarked : (e.updateTask id (cancelledAt now)).withLog log =
        (e.withLog log).updateTask id (cancelledAt now) := rfl
    rw [hmark]
    dsimp only
    rw [hmarked]
    rcases ((e.withLog log).updateTask id (cancelledAt now)).append d .cancel id .nil io with
      ⟨e', d', ok⟩
    cases ok
    · exact Or.inr ⟨rfl, rfl⟩
    · exact Or.inl ⟨rfl, rfl⟩

theorem cancelTask_of_refused
    {e : Engine} {id : TaskID} {now : Time} {err : CancelError}
    (h : e.markCancelled id now = .error err)
    (d : Disk) (io : LogEnv) :
    e.cancelTask d id now io = (e, d, .error err) := by
  rw [cancelTask, cancelTaskMeeting, h]

/-- After the mark, `CancelTask` appends to the log that the engine has. -/
theorem cancelTask_of_marked
    {e marked : Engine} {id : TaskID} {now : Time}
    (h : e.markCancelled id now = .ok marked)
    (d : Disk) (io : LogEnv) :
    e.cancelTask d id now io =
      match marked.append d .cancel id .nil io with
      | (e', d', true) => (e'.removeHeap id, d', .ok ())
      | (e', d', false) => (e', d', .error (.walCancel (e.walLog.appendError io))) := by
  rcases e.markCancelled_cases id now with ⟨-, err, hmark, -⟩ | ⟨t, -, -, hmark⟩
  · rw [hmark] at h
    cases h
  · rw [hmark] at h
    cases h
    rw [cancelTask, cancelTaskMeeting, hmark]
    rfl

/-- `CancelTask` changes nothing, or marks the task and appends a record. -/
theorem cancelTask_cases
    (e : Engine) (d : Disk) (id : TaskID) (now : Time) (io : LogEnv) :
    (∃ err, e.cancelTask d id now io = (e, d, .error err)) ∨
    ∃ t, e.tasks.get id = some t ∧ cancellable t.state = true ∧
      let r := (e.updateTask id (cancelledAt now)).append d .cancel id .nil io
      ((r.2.2 = true ∧ e.cancelTask d id now io = (r.1.removeHeap id, r.2.1, .ok ())) ∨
        (r.2.2 = false ∧ e.cancelTask d id now io =
          (r.1, r.2.1, .error (.walCancel (e.walLog.appendError io))))) := by
  rcases e.cancelTaskMeeting_cases e.walLog d id now io with ⟨-, err, hcall, -⟩ | hlogged
  · exact Or.inl ⟨err, hcall⟩
  · exact Or.inr hlogged

/-- What the start of an execution writes to a task. -/
def runningFrom (now : Time) (t : Task) : Task :=
  { t with state := .running, startedAt := now }

theorem markRunning_twice
    (e : Engine) (id : TaskID) (now : Time) :
    (e.markRunning id now).markRunning id now = e.updateTask id (runningFrom now) := by
  unfold markRunning updateTask
  rw [GoMap.modify_modify]
  rfl

/-- A worker takes the task at the front of the buffer and marks it. -/
theorem startTask_some
    {e e' : Engine} {d d' : Disk} {id : TaskID} {now : Time} {io : LogEnv}
    (h : e.startTask d now io = some (id, e', d')) :
    ∃ rb, e.buffer.dequeue = .done id rb ∧
      let r := ({ e with buffer := rb }.updateTask id (runningFrom now)).append d .start id
        .nil io
      e' = r.1 ∧ d' = r.2.1 := by
  unfold startTask at h
  cases hdeq : e.buffer.dequeue with
  | done id' rb =>
      rw [hdeq] at h
      simp only [markRunning_twice, Option.some.injEq, Prod.mk.injEq] at h
      obtain ⟨rfl, rfl, rfl⟩ := h
      exact ⟨rb, rfl, rfl, rfl⟩
  | closed =>
      simp [hdeq] at h
  | wait =>
      simp [hdeq] at h

/-- The pool writes nothing when the engine has already moved the task on. -/
theorem afterExecution_of_ne_running
    {e : Engine} {id : TaskID}
    (h : e.stateOf id ≠ some .running)
    (result : Option HandlerError) (now : Time) :
    e.afterExecution id result now = e := by
  rw [afterExecution, if_neg h]

/-- What a success writes to a task. -/
def completedAt (now : Time) (t : Task) : Task :=
  { t with state := .completed, completedAt := now }

/-- What the last failure writes to a task. -/
def deadAt (err : HandlerError) (now : Time) (t : Task) : Task :=
  { noteFailure t err with state := .dead, completedAt := now }

/-- What a failure that is retried writes to a task. -/
def retriedAt (err : HandlerError) (nextAt : Time) (t : Task) : Task :=
  { noteFailure t err with state := .scheduled, scheduledAt := nextAt }

/-- The three ends of an iteration of a worker. -/
theorem finishTask_cases
    {e : Engine} {id : TaskID} {t : Task}
    (hget : e.tasks.get id = some t)
    (d : Disk) (result : Option HandlerError)
    (now : Time) (delay : Duration) (io : LogEnv) :
    (result = none ∧
      let r := (e.updateTask id (completedAt now)).append d .complete id .nil io
      e.finishTask d id result now delay io = (r.1, r.2.1)) ∨
    (∃ err, result = some err ∧ finalFailure t err = true ∧
      let r := (e.updateTask id (deadAt err now)).append d .dead id (.ofText err.text) io
      e.finishTask d id result now delay io = (r.1.pushDLQ id, r.2.1)) ∨
    (∃ err, result = some err ∧ finalFailure t err = false ∧
      let r := (e.updateTask id (retriedAt err (now + delay))).append d .retry id
        (.ofRetry err.text (t.retryCount + 1) (Wal.unixNano (now + delay))) io
      e.finishTask d id result now delay io = (r.1.pushHeap id, r.2.1)) := by
  cases result with
  | none =>
      left
      refine ⟨rfl, ?_⟩
      unfold finishTask handleSuccess
      dsimp only
      rw [afterExecution_of_ne_running]
      · rfl
      · simp [stateOf, markCompleted, hget]
  | some err =>
      right
      by_cases hfinal : finalFailure t err = true
      · left
        refine ⟨err, rfl, hfinal, ?_⟩
        unfold finishTask handleFailure
        simp only [hget, hfinal, if_true]
        rw [afterExecution_of_ne_running]
        · rfl
        · simp [stateOf, markDead, pushDLQ, hget]
      · right
        refine ⟨err, rfl, by simpa using hfinal, ?_⟩
        unfold finishTask handleFailure
        simp only [hget, hfinal]
        rw [afterExecution_of_ne_running]
        · rfl
        · simp [stateOf, markRetry, hget]

/-- The writes of `PromoteReady`. -/
theorem get_setPending
    (ids : List TaskID) (m : GoMap TaskID Task) (j : TaskID) :
    (ids.foldl (fun m id => m.modify id (Task.forceSetState · .pending)) m).get j =
      if j ∈ ids then (m.get j).map (Task.forceSetState · .pending) else m.get j := by
  induction ids generalizing m with
  | nil =>
      simp
  | cons id ids ih =>
      rw [List.foldl_cons, ih, GoMap.get_modify]
      by_cases hj : j = id
      · subst hj
        by_cases hmem : j ∈ ids
        · cases m.get j <;> simp [hmem, Task.forceSetState]
        · simp [hmem]
      · simp [hj]

/-- The tasks after `PromoteReady`. -/
theorem get_promoteReady
    (e : Engine) (now : Time) (j : TaskID) :
    (e.promoteReady now).2.tasks.get j =
      if j ∈ (e.promoteReady now).1 then
        (e.tasks.get j).map (Task.forceSetState · .pending)
      else
        e.tasks.get j := by
  exact get_setPending _ e.tasks j

/-- The heap after `PromoteReady`. -/
theorem promoteReady_promoted
    (e : Engine) (now : Time) :
    DelayedHeap.Promoted e.heap (e.promoteReady now).1 (e.promoteReady now).2.heap := by
  exact DelayedHeap.promoteReady_spec e.scheduledAt now e.heap

/-- The promoted tasks are due. -/
theorem promoteReady_due
    {e : Engine} {now : Time} {id : TaskID}
    (h : id ∈ (e.promoteReady now).1) :
    e.scheduledAt id ≤ now := by
  exact DelayedHeap.promoteLoop_due e.scheduledAt now _ e.heap h

/-- What pushing a task back writes to it. -/
def postponedTo (at_ : Time) (t : Task) : Task :=
  { t with state := .scheduled, scheduledAt := at_ }

/-- What becomes of a ready task. -/
theorem scheduleReady_cases
    {e e' : Engine} {id : TaskID} {now later : Time} {t : Task}
    (hget : e.tasks.get id = some t)
    (h : e.scheduleReady id now later = some e') :
    (t.state = .cancelled ∧ e' = e) ∨
    (t.state ≠ .cancelled ∧ expired t now = true ∧
      e' = e.updateTask id (Task.forceSetState · .expired)) ∨
    (t.state ≠ .cancelled ∧ ∃ rb, e.buffer.enqueue id = .done rb ∧
      e' = { e with buffer := rb }) ∨
    (t.state ≠ .cancelled ∧
      e' = (e.updateTask id (postponedTo (later + 100000000))).pushHeap id) := by
  unfold scheduleReady at h
  simp only [hget] at h
  split_ifs at h with hc hx
  · cases h
    exact Or.inl ⟨hc, rfl⟩
  · cases h
    exact Or.inr (Or.inl ⟨hc, hx, rfl⟩)
  · right
    right
    cases henq : e.buffer.enqueue id with
    | done rb =>
        rw [henq] at h
        cases h
        exact Or.inl ⟨hc, rb, rfl, rfl⟩
    | fail err =>
        rw [henq] at h
        cases err with
        | full =>
            cases h
            exact Or.inr ⟨hc, rfl⟩
        | closed =>
            cases h
    | wait =>
        rw [henq] at h
        cases h

section States

variable (e : Engine) (id : TaskID)

theorem markRunning_sets
    (now : Time) :
    SetsState e id .running (e.markRunning id now) :=
  setsState_updateTask e id (fun _ => rfl)

theorem markCompleted_sets
    (now : Time) :
    SetsState e id .completed (e.markCompleted id now) :=
  setsState_updateTask e id (fun _ => rfl)

theorem markDead_sets
    (err : HandlerError) (now : Time) :
    SetsState e id .dead (e.markDead id err now) :=
  setsState_updateTask e id (fun _ => rfl)

theorem markRetry_sets
    (err : HandlerError) (nextAt : Time) :
    SetsState e id .scheduled (e.markRetry id err nextAt) :=
  setsState_updateTask e id (fun _ => rfl)

theorem poolWrite_none_sets
    (now : Time) :
    SetsState e id .completed (e.poolWrite id none now) :=
  setsState_updateTask e id (fun _ => rfl)

theorem poolWrite_some_sets
    (err : HandlerError) (now : Time) :
    SetsState e id .failed (e.poolWrite id (some err) now) :=
  setsState_updateTask e id (fun _ => rfl)

theorem postpone_sets
    (now : Time) :
    SetsState e id .scheduled (e.postpone id now) :=
  setsState_updateTask e id (fun _ => rfl)

theorem expire_sets :
    SetsState e id .expired (e.updateTask id (Task.forceSetState · .expired)) :=
  setsState_updateTask e id (fun _ => rfl)

theorem cancelledAt_sets
    (now : Time) :
    SetsState e id .cancelled (e.updateTask id (cancelledAt now)) :=
  setsState_updateTask e id (fun _ => rfl)

end States

/-- The tasks of a registry have the names under which they stand, all of them used. -/
def Named (ids : List TaskID) (e : Engine) : Prop :=
  ∀ id t, e.tasks.get id = some t → t.id = id ∧ id ∈ ids

theorem Named.get_eq_none
    {ids : List TaskID} {e : Engine} {id : TaskID}
    (h : Named ids e)
    (hid : id ∉ ids) :
    e.tasks.get id = none := by
  cases hget : e.tasks.get id with
  | none =>
      rfl
  | some t =>
      exact absurd (h id t hget).2 hid

/-- The registry has the same tasks under the same names. -/
def SameTasks (e e' : Engine) : Prop :=
  ∀ j, (e'.tasks.get j).map Task.id = (e.tasks.get j).map Task.id

theorem SameTasks.refl
    (e : Engine) :
    SameTasks e e := by
  intro j
  rfl

/-- What an update does not change in any task, it does not change in the registry. -/
theorem map_get_updateTask
    {β : Type*} {g : Task → β} {f : Task → Task}
    (hf : ∀ t, g (f t) = g t)
    (e : Engine) (id j : TaskID) :
    ((e.updateTask id f).tasks.get j).map g = (e.tasks.get j).map g := by
  rw [get_updateTask]
  split_ifs with hj
  · subst hj
    cases e.tasks.get j with
    | none =>
        rfl
    | some t =>
        simp [hf t]
  · rfl

theorem map_get_promoteReady
    {β : Type*} {g : Task → β}
    (hg : ∀ t : Task, g (t.forceSetState .pending) = g t)
    (e : Engine) (now : Time) (j : TaskID) :
    ((e.promoteReady now).2.tasks.get j).map g = (e.tasks.get j).map g := by
  rw [get_promoteReady]
  split_ifs
  · cases e.tasks.get j with
    | none =>
        rfl
    | some t =>
        simp [hg t]
  · rfl

theorem sameTasks_updateTask
    (e : Engine) (id : TaskID) (f : Task → Task)
    (hf : ∀ t, (f t).id = t.id) :
    SameTasks e (e.updateTask id f) :=
  map_get_updateTask hf e id

theorem SameTasks.isSome
    {e e' : Engine}
    (h : SameTasks e e')
    (j : TaskID) :
    (e'.tasks.get j).isSome = (e.tasks.get j).isSome := by
  have hj := congrArg Option.isSome (h j)
  simpa using hj

theorem SameTasks.named
    {ids : List TaskID} {e e' : Engine}
    (h : SameTasks e e')
    (he : Named ids e) :
    Named ids e' := by
  intro id t ht
  have hname := h id
  rw [ht] at hname
  cases hget : e.tasks.get id with
  | none =>
      simp [hget] at hname
  | some t₀ =>
      rw [hget] at hname
      simp only [Option.map_some, Option.some.injEq] at hname
      rw [hname]
      exact he id t₀ hget

theorem Named.mono
    {ids ids' : List TaskID} {e : Engine}
    (h : Named ids e)
    (hsub : ids ⊆ ids') :
    Named ids' e := by
  intro id t ht
  exact ⟨(h id t ht).1, hsub (h id t ht).2⟩

theorem Named.register
    {ids : List TaskID} {e : Engine}
    (h : Named ids e)
    (t : Task) :
    Named (t.id :: ids) (e.register t) := by
  intro id t' ht'
  rw [get_register] at ht'
  split_ifs at ht' with hid
  · cases ht'
    exact ⟨hid.symm, by simp [hid]⟩
  · exact ⟨(h id t' ht').1, List.mem_cons_of_mem _ (h id t' ht').2⟩

theorem sameTasks_promoteReady
    (e : Engine) (now : Time) :
    SameTasks e (e.promoteReady now).2 :=
  map_get_promoteReady (fun _ => rfl) e now

/-- The fields of a task that no operation changes after its `Submit`. -/
structure Submission where
  id : TaskID
  idempotencyKey : String
  payload : List UInt8
  priority : Int
  maxRetries : Int
  timeout : Duration
deriving DecidableEq, Repr

/-- What was submitted. -/
def submissionOf (t : Task) : Submission where
  id := t.id
  idempotencyKey := t.idempotencyKey
  payload := t.payload
  priority := t.priority
  maxRetries := t.maxRetries
  timeout := t.timeout

/-- The registry has the same tasks, as they were submitted. -/
def SameSubmissions (e e' : Engine) : Prop :=
  ∀ j, (e'.tasks.get j).map submissionOf = (e.tasks.get j).map submissionOf

theorem SameSubmissions.refl
    (e : Engine) :
    SameSubmissions e e := by
  intro j
  rfl

theorem sameSubmissions_updateTask
    (e : Engine) (id : TaskID) (f : Task → Task)
    (hf : ∀ t, submissionOf (f t) = submissionOf t) :
    SameSubmissions e (e.updateTask id f) :=
  map_get_updateTask hf e id

theorem sameSubmissions_promoteReady
    (e : Engine) (now : Time) :
    SameSubmissions e (e.promoteReady now).2 :=
  map_get_promoteReady (fun _ => rfl) e now

theorem SameSubmissions.get_some
    {e e' : Engine}
    (h : SameSubmissions e e')
    {j : TaskID} {t : Task}
    (ht : e.tasks.get j = some t) :
    ∃ t', e'.tasks.get j = some t' ∧ submissionOf t' = submissionOf t := by
  have hj := h j
  rw [ht] at hj
  exact Option.map_eq_some_iff.mp hj

theorem SameSubmissions.symm
    {e e' : Engine}
    (h : SameSubmissions e e') :
    SameSubmissions e' e := by
  intro j
  exact (h j).symm

theorem SameSubmissions.sameTasks
    {e e' : Engine}
    (h : SameSubmissions e e') :
    SameTasks e e' := by
  intro j
  have hj := congrArg (Option.map Submission.id) (h j)
  rw [Option.map_map, Option.map_map] at hj
  exact hj

/-- The registries have the same IDs, and `R` relates the two tasks under each of them. -/
def Related (R : Task → Task → Prop) (e e' : Engine) : Prop :=
  ∀ id, Option.Rel R (e.tasks.get id) (e'.tasks.get id)

section Related

variable {R : Task → Task → Prop} {e e' : Engine}

theorem Related.get_some
    (h : Related R e e')
    {id : TaskID} {t : Task}
    (ht : e.tasks.get id = some t) :
    ∃ t', e'.tasks.get id = some t' ∧ R t t' := by
  have hrel := h id
  rw [ht] at hrel
  cases hget : e'.tasks.get id with
  | none =>
      rw [hget] at hrel
      cases hrel
  | some t' =>
      rw [hget] at hrel
      cases hrel with
      | some htt =>
          exact ⟨t', rfl, htt⟩

theorem Related.of_get_some
    (h : Related R e e')
    {id : TaskID} {t' : Task}
    (ht' : e'.tasks.get id = some t') :
    ∃ t, e.tasks.get id = some t ∧ R t t' := by
  have hrel := h id
  rw [ht'] at hrel
  cases hget : e.tasks.get id with
  | none =>
      rw [hget] at hrel
      cases hrel
  | some t =>
      rw [hget] at hrel
      cases hrel with
      | some htt =>
          exact ⟨t, rfl, htt⟩

theorem Related.get_none
    (h : Related R e e')
    {id : TaskID}
    (hnone : e.tasks.get id = none) :
    e'.tasks.get id = none := by
  cases hget : e'.tasks.get id with
  | none =>
      rfl
  | some t' =>
      obtain ⟨t, ht, -⟩ := h.of_get_some hget
      rw [hnone] at ht
      cases ht

theorem Related.isSome
    (h : Related R e e')
    (id : TaskID) :
    (e'.tasks.get id).isSome = (e.tasks.get id).isSome := by
  cases hget : e.tasks.get id with
  | none =>
      rw [h.get_none hget]
  | some t =>
      obtain ⟨t', ht', -⟩ := h.get_some hget
      rw [ht']
      rfl

/-- One task is updated on both sides. -/
theorem Related.update
    {id : TaskID} {f g : Task → Task}
    (h : Related R e e')
    (hfg : ∀ t t', e.tasks.get id = some t → e'.tasks.get id = some t' →
      R t t' → R (f t) (g t')) :
    Related R (e.updateTask id f) (e'.updateTask id g) := by
  intro j
  rw [get_updateTask, get_updateTask]
  split_ifs with hj
  · cases hget : e.tasks.get id with
    | none =>
        rw [h.get_none hget]
        exact Option.Rel.none
    | some t =>
        obtain ⟨t', hget', htt⟩ := h.get_some hget
        rw [hget']
        exact Option.Rel.some (hfg t t' hget hget' htt)
  · exact h j

/-- The same task is registered on both sides. -/
theorem Related.register
    {t : Task}
    (h : Related R e e')
    (ht : R t t) :
    Related R (e.register t) (e'.register t) := by
  intro j
  rw [get_register, get_register]
  split_ifs
  · exact Option.Rel.some ht
  · exact h j

end Related

end Engine
end TaskQueue
