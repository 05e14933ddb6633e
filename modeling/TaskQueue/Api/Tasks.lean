import Mathlib.Tactic
import TaskQueue.Lib.Text
import TaskQueue.Api.Server
import TaskQueue.Engine.Integrity

/-!
# One task over HTTP

`GET /tasks/id` and `DELETE /tasks/id` of `internal/api/api.go`.  The handler of `DELETE` tells
the errors of `CancelTask` apart by their texts, and these have the ID of the task in them.  The
IDs of tasks that come in over `POST /tasks` are generated, and in such an ID neither of the two
phrases is found; nor is it in what `Append` puts in front of an I/O error.  So the answer is the
right one in every state that the server reaches, also if the log cannot be written
(`delete_answered_exactly`).  What was posted is what a later `GET` shows
(`posted_task_readable`).
-/

namespace TaskQueue

open Lib (Run decimal contains trimPrefix)
open Queue
open Wal (LogEnv)

namespace Api

open Engine

/-- The response of `getTask` for a task that it has found. -/
def taskResponse (t : Task) : TaskResponse where
  id := t.id
  state := t.state.string
  payload := t.payload
  priority := t.priority
  createdAt := t.createdAt
  scheduledAt := nilTime t.scheduledAt
  startedAt := nilTime t.startedAt
  completedAt := nilTime t.completedAt
  retryCount := t.retryCount
  maxRetries := t.maxRetries
  lastError := t.lastError

/-- `getTask`. -/
def getTask (e : Engine) (id : TaskID) : Outcome :=
  match e.tasks.get id with
  | none => writeError 404 "task not found"
  | some t => .respond ⟨200, .task (taskResponse t)⟩

/-- The answer of `cancelTask` to an error of `CancelTask` with the given text. -/
def cancelFailure (text : String) : Outcome :=
  if contains text "not found" then
    writeError 404 "task not found"
  else if contains text "cannot be cancelled" then
    writeError 409 text
  else
    writeError 500 text

/-- `cancelTask`; it panics at `task.CompletedAt` if `GetTask` finds no task. -/
def cancelTask (e : Engine) (d : Disk) (id : TaskID) (now : Time) (io : LogEnv) :
    Engine × Disk × Outcome :=
  match e.cancelTask d id now io with
  | (e', d', .error err) => (e', d', cancelFailure err.message)
  | (e', d', .ok ()) =>
      match e'.tasks.get id with
      | none => (e', d', .panics)
      | some t => (e', d', .respond ⟨200, .cancelled id "cancelled" t.completedAt⟩)

/-- `handleTaskByID`. -/
def handleTaskByID (e : Engine) (d : Disk) (method : Method) (path : String) (now : Time)
    (io : LogEnv) : Engine × Disk × Outcome :=
  let id := trimPrefix path "/tasks/"
  if id = "" then
    (e, d, writeError 400 "task ID required")
  else
    match method with
    | .get => (e, d, getTask e id)
    | .delete => cancelTask e d id now io
    | _ => (e, d, writeError 405 "method not allowed")

/-- The text of an I/O error has neither of the phrases in it that the handler looks for. -/
def Unmistakable (io : LogEnv) : Prop :=
  contains io.cause "not found" = false ∧ contains io.cause "cannot be cancelled" = false

instance (io : LogEnv) : Decidable (Unmistakable io) :=
  inferInstanceAs (Decidable (_ ∧ _))

example (now : Time) (len : Nat) : Unmistakable (.noError now len) := by
  show contains "" "not found" = false ∧ contains "" "cannot be cancelled" = false
  decide +kernel

section Texts

/-- The error for an unknown task is taken for what it is, whatever the ID. -/
theorem cancelFailure_notFound
    (id : TaskID) :
    cancelFailure (CancelError.notFound id).message = writeError 404 "task not found" := by
  have hend : "not found".toList <:+: " not found".toList := by decide +kernel
  have hphrase : contains (CancelError.notFound id).message "not found" = true := by
    rw [Lib.contains_iff]
    show _ <:+: ("engine: task " ++ id ++ " not found").toList
    rw [String.toList_append]
    exact hend.trans (List.suffix_append _ _).isInfix
  rw [cancelFailure, if_pos hphrase]

/-- The numbers in a generated ID have no letter and no blank in them. -/
theorem notMem_of_mem_decimal
    {n : Int} {c : Char}
    (hc : c ∈ decimal n) :
    c ∉ "not found".toList := by
  rcases Lib.mem_decimal hc with rfl | ⟨k, hk, rfl⟩
  · decide +kernel
  · interval_cases k <;> decide +kernel

/-- The end of the error for a task in the wrong state. -/
def wrongStateEnd (state : TaskState) : List Char :=
  (" in state " ++ state.string ++ " cannot be cancelled").toList

theorem wrongState_message
    (nanos : Int) (counter : Nat) (state : TaskState) :
    (CancelError.wrongState (taskID nanos counter) state).message.toList =
      "engine: task task".toList ++ '_' :: (decimal nanos ++
        '_' :: (decimal counter ++ wrongStateEnd state)) := by
  have hstart : "engine: task ".toList ++ "task_".toList =
      "engine: task task".toList ++ ['_'] := by decide +kernel
  have hid : (taskID nanos counter).toList =
      "task_".toList ++ (decimal nanos ++ '_' :: decimal counter) := String.toList_ofList
  show ("engine: task " ++ taskID nanos counter ++ " in state " ++ state.string ++
    " cannot be cancelled").toList = _
  simp only [wrongStateEnd, String.toList_append, hid]
  -- the texts themselves do not matter any more
  generalize "engine: task ".toList = front, "engine: task task".toList = front',
    "task_".toList = name at hstart ⊢
  have hwhole := congrArg (· ++ (decimal nanos ++ '_' :: (decimal counter ++
    (" in state ".toList ++ state.string.toList ++ " cannot be cancelled".toList)))) hstart
  simpa only [List.append_assoc, List.cons_append, List.nil_append] using hwhole

/-- A generated ID does not make the error for a task in the wrong state look like another. -/
theorem not_contains_wrongState
    (nanos : Int) (counter : Nat) (state : TaskState) :
    contains (CancelError.wrongState (taskID nanos counter) state).message "not found" =
      false := by
  have hsep : '_' ∉ "not found".toList := by decide +kernel
  have hne : "not found".toList ≠ [] := by decide +kernel
  have hstart : ¬ "not found".toList <:+: "engine: task task".toList := by decide +kernel
  have hend : ¬ "not found".toList <:+: wrongStateEnd state := by
    cases state <;> decide +kernel
  have hnanos : ¬ "not found".toList <:+: decimal nanos := by
    intro hinfix
    have hskip := Lib.isInfix_append_iff_of_disjoint hne
      (fun c (hc : c ∈ decimal nanos) => notMem_of_mem_decimal hc) []
    rw [List.append_nil, List.infix_nil] at hskip
    exact hne (hskip.mp hinfix)
  rw [Bool.eq_false_iff, Ne, Lib.contains_iff, wrongState_message,
    Lib.isInfix_append_cons_iff hsep, Lib.isInfix_append_cons_iff hsep,
    Lib.isInfix_append_iff_of_disjoint hne (fun c hc => notMem_of_mem_decimal hc)]
  rintro (h | h | h)
  · exact hstart h
  · exact hnanos h
  · exact hend h

/-- The error for a task with a generated ID in the wrong state. -/
theorem cancelFailure_wrongState
    (nanos : Int) (counter : Nat) (state : TaskState) :
    cancelFailure (CancelError.wrongState (taskID nanos counter) state).message =
      writeError 409 (CancelError.wrongState (taskID nanos counter) state).message := by
  have hend : "cannot be cancelled".toList <:+: " cannot be cancelled".toList := by
    decide +kernel
  have hphrase : contains (CancelError.wrongState (taskID nanos counter) state).message
      "cannot be cancelled" = true := by
    rw [Lib.contains_iff]
    show _ <:+: ("engine: task " ++ taskID nanos counter ++ " in state " ++ state.string ++
      " cannot be cancelled").toList
    rw [String.toList_append]
    exact hend.trans (List.suffix_append _ _).isInfix
  rw [cancelFailure, not_contains_wrongState, if_neg (by simp), if_pos hphrase]

/-- A phrase that is in neither of two texts does not reach over the colon between them. -/
theorem not_contains_append
    {front cause phrase : String}
    (hphrase : phrase = "not found" ∨ phrase = "cannot be cancelled")
    (hfront : front.toList = front.toList.dropLast.dropLast ++ [':', ' '])
    (hin : contains front phrase = false)
    (hcause : contains cause phrase = false) :
    contains (front ++ cause) phrase = false := by
  have hcolon : ':' ∉ phrase.toList := by
    rcases hphrase with rfl | rfl <;> decide +kernel
  have hblank : phrase.toList.head? ≠ some ' ' := by
    rcases hphrase with rfl | rfl <;> decide +kernel
  rw [Bool.eq_false_iff, Ne, Lib.contains_iff] at hin hcause ⊢
  rw [String.toList_append, hfront, List.append_assoc, List.cons_append, List.cons_append,
    List.nil_append, Lib.isInfix_append_cons_cons_iff hcolon hblank]
  rintro (h | h)
  · exact hin (h.trans ((List.dropLast_prefix _).trans (List.dropLast_prefix _)).isInfix)
  · exact hcause h

theorem not_contains_appendMessage
    {cause phrase : String}
    (hphrase : phrase = "not found" ∨ phrase = "cannot be cancelled")
    (hcause : contains cause phrase = false)
    (err : Wal.AppendError) :
    contains (err.message cause) phrase = false := by
  cases err with
  | closed =>
      show contains "wal: log is closed" phrase = false
      rcases hphrase with rfl | rfl <;> decide +kernel
  | _ =>
      refine not_contains_append hphrase (by decide +kernel) ?_ hcause
      rcases hphrase with rfl | rfl <;> decide +kernel

theorem not_contains_appendError
    (w : Wal.Log) {io : LogEnv} {phrase : String}
    (hphrase : phrase = "not found" ∨ phrase = "cannot be cancelled")
    (hcause : contains io.cause phrase = false) :
    contains (w.appendError io) phrase = false := by
  have hempty : contains "" phrase = false := by
    rcases hphrase with rfl | rfl <;> decide +kernel
  have hlong : contains "wal: body length exceeds uint32 limit" phrase = false := by
    rcases hphrase with rfl | rfl <;> decide +kernel
  unfold Wal.Log.appendError
  split_ifs
  · exact not_contains_appendMessage hphrase hempty .closed
  · exact not_contains_appendMessage hphrase hlong .encode
  · cases io.outcome with
    | ok => exact hempty
    | unwritten => exact not_contains_appendMessage hphrase hcause .write
    | torn => exact not_contains_appendMessage hphrase hcause .flush
    | unsynced => exact not_contains_appendMessage hphrase hcause .sync

/-- An error of `Append` is not taken for one of the other two. -/
theorem not_contains_walCancel
    (w : Wal.Log) {io : LogEnv} {phrase : String}
    (hphrase : phrase = "not found" ∨ phrase = "cannot be cancelled")
    (hcause : contains io.cause phrase = false) :
    contains (CancelError.walCancel (w.appendError io)).message phrase = false := by
  refine not_contains_append hphrase (by decide +kernel) ?_
    (not_contains_appendError w hphrase hcause)
  rcases hphrase with rfl | rfl <;> decide +kernel

theorem cancelFailure_walCancel
    (w : Wal.Log) {io : LogEnv}
    (hio : Unmistakable io) :
    cancelFailure (CancelError.walCancel (w.appendError io)).message =
      writeError 500 (CancelError.walCancel (w.appendError io)).message := by
  have hfound := not_contains_walCancel w (Or.inl rfl) hio.1
  have hstate := not_contains_walCancel w (Or.inr rfl) hio.2
  rw [cancelFailure, hfound, if_neg Bool.false_ne_true, hstate, if_neg Bool.false_ne_true]

end Texts

section Handlers

variable {e : Engine} {d : Disk} {id : TaskID} {now : Time} {io : LogEnv}

theorem handleTaskByID_get
    (hid : id ≠ "") :
    handleTaskByID e d .get ("/tasks/" ++ id) now io = (e, d, getTask e id) := by
  simp only [handleTaskByID, Lib.trimPrefix_append, if_neg hid]

theorem handleTaskByID_delete
    (hid : id ≠ "") :
    handleTaskByID e d .delete ("/tasks/" ++ id) now io = cancelTask e d id now io := by
  simp only [handleTaskByID, Lib.trimPrefix_append, if_neg hid]

/-- The handler does to the engine and to the files what `CancelTask` does. -/
theorem cancelTask_effect
    (e : Engine) (d : Disk) (id : TaskID) (now : Time) (io : LogEnv) :
    (cancelTask e d id now io).1 = (e.cancelTask d id now io).1 ∧
      (cancelTask e d id now io).2.1 = (e.cancelTask d id now io).2.1 := by
  unfold cancelTask
  rcases e.cancelTask d id now io with ⟨e', d', err | ok⟩
  · exact ⟨rfl, rfl⟩
  · dsimp only
    cases e'.tasks.get id <;> exact ⟨rfl, rfl⟩

theorem cancelTask_unknown
    (hget : e.tasks.get id = none) :
    cancelTask e d id now io = (e, d, writeError 404 "task not found") := by
  have hcall : e.cancelTask d id now io = (e, d, .error (.notFound id)) :=
    cancelTask_of_refused (by rw [markCancelled, hget]) d io
  rw [cancelTask, hcall]
  simp only [cancelFailure_notFound]

theorem cancelTask_wrongState
    {t : Task} {nanos : Int} {counter : Nat}
    (hget : e.tasks.get id = some t)
    (hstate : cancellable t.state = false)
    (hid : id = taskID nanos counter) :
    cancelTask e d id now io =
      (e, d, writeError 409 (CancelError.wrongState id t.state).message) := by
  have hcall : e.cancelTask d id now io = (e, d, .error (.wrongState id t.state)) := by
    refine cancelTask_of_refused ?_ d io
    rw [markCancelled, hget]
    simp only [hstate, Bool.false_eq_true, if_false]
  rw [cancelTask, hcall]
  subst hid
  simp only [cancelFailure_wrongState]

/-- A task that can be cancelled is marked, and the answer tells whether this is in the log. -/
theorem cancelTask_marked
    {t : Task}
    (hget : e.tasks.get id = some t)
    (hstate : cancellable t.state = true)
    (hio : Unmistakable io) :
    (cancelTask e d id now io).1.tasks = (e.updateTask id (cancelledAt now)).tasks ∧
      (cancelTask e d id now io).2.1 =
        (if e.walLog.Writes io then d.extend (e.walLog.record .cancel id .nil io) else d) ∧
      (cancelTask e d id now io).2.2 = .respond
        (if e.walLog.Writes io ∧ io.outcome = .ok then
          ⟨200, .cancelled id "cancelled" now⟩
        else
          ⟨500, .error (CancelError.walCancel (e.walLog.appendError io)).message⟩) := by
  have hmark : e.markCancelled id now = .ok (e.updateTask id (cancelledAt now)) := by
    rw [markCancelled, hget]
    exact if_pos hstate
  have hfound : (e.updateTask id (cancelledAt now)).tasks.get id = some (cancelledAt now t) := by
    rw [get_updateTask_self, hget, Option.map_some]
  rw [cancelTask, cancelTask_of_marked hmark]
  by_cases hwrites : e.walLog.Writes io
  · have hmarked : (e.updateTask id (cancelledAt now)).walLog.Writes io := hwrites
    rw [append_of_writes hmarked, if_pos hwrites]
    by_cases hok : io.outcome = .ok
    · have hkept : ((e.updateTask id (cancelledAt now)).nextLog.removeHeap id).tasks.get id =
          some (cancelledAt now t) := hfound
      rw [decide_eq_true hok, if_pos ⟨hwrites, hok⟩]
      dsimp only
      rw [hkept]
      exact ⟨rfl, rfl, rfl⟩
    · rw [decide_eq_false hok, if_neg (fun h => hok h.2)]
      exact ⟨rfl, rfl, cancelFailure_walCancel e.walLog hio⟩
  · obtain ⟨w, happ⟩ := append_of_not_writes (e := e.updateTask id (cancelledAt now)) hwrites d
      .cancel id .nil
    rw [happ, if_neg hwrites, if_neg (fun h => hwrites h.1)]
    exact ⟨rfl, rfl, cancelFailure_walCancel e.walLog hio⟩

end Handlers

end Api

namespace Numbered

open Api
open Engine (Submission submissionOf)

variable {s s' : Numbered}

/-- What every run of the server keeps. -/
structure Serving (s : Numbered) : Prop where
  told : Told s
  sound : System.Sound s.system

theorem serving_initial
    (cfg : Engine.Config) {now : Time}
    (h : -2 ^ 63 ≤ now) :
    Serving (initial cfg now) where
  told := told_initial cfg h
  sound := System.sound_initial cfg

/-- The step of the system, if there is one, that a step of the numbered system makes. -/
theorem step_system
    {ev : Event}
    (hstep : s.step ev = some s') :
    s'.system = s.system ∨ ∃ ev', s.system.step ev' = some s'.system := by
  cases ev with
  | submit task now len =>
      simp only [step] at hstep
      split at hstep
      · cases hstep
        exact Or.inl rfl
      · obtain ⟨system, hsubmit, rfl⟩ := Option.map_eq_some_iff.mp hstep
        exact Or.inr ⟨.submit task _ now len, hsubmit⟩
  | other ev now =>
      obtain ⟨system, hsystem, rfl⟩ := Option.map_eq_some_iff.mp hstep
      split_ifs
      · exact Or.inr ⟨ev, hsystem⟩
      · exact Or.inr ⟨ev, hsystem⟩

theorem step_serving
    (s : Numbered) (ev : Event) (s' : Numbered)
    (h : Serving s)
    (hok : s.Advancing ev)
    (hstep : s.step ev = some s') :
    Serving s' := by
  refine ⟨step_told s ev s' h.told hok hstep, ?_⟩
  rcases step_system hstep with hsame | ⟨ev', hsystem⟩
  · rw [hsame]
    exact h.sound
  · exact System.step_sound h.sound hsystem

/-- The registered tasks have generated IDs. -/
theorem Serving.generated
    (h : Serving s)
    {id : TaskID} {t : Task}
    (hget : s.system.engine.tasks.get id = some t) :
    ∃ nanos counter, id = Engine.taskID nanos counter := by
  obtain ⟨nanos, counter, heq, -⟩ := h.told.issued id (h.sound.named id t hget).2
  exact ⟨nanos, counter, heq⟩

/-- A task is cancelled, and a second request for it is refused. -/
def cancelledOnce : List Event :=
  [.submit Task.zero 5 100, .other (.cancel "task_5_1" 6 50) 6]

/-- The step ends the process. -/
def Event.restarting : Event → Bool
  | .submit _ _ _ => false
  | .other ev _ => restarts ev

/-- A step of the numbered system is one of an archive with the same system. -/
theorem step_archive
    {a : Archive} {ev : Event}
    (ha : Archive.Kept a)
    (hsame : a.system = s.system)
    (hstep : s.step ev = some s') :
    ∃ b, Archive.Kept b ∧ b.system = s'.system ∧ a.submissions ⊆ b.submissions := by
  rcases step_system hstep with hunchanged | ⟨ev', hsystem⟩
  · exact ⟨a, ha, hsame.trans hunchanged.symm, List.Subset.refl _⟩
  · have hnext : a.step ev' = some ⟨s'.system, a.noted ev'⟩ := by
      rw [Archive.step, hsame, hsystem, Option.map_some]
    exact ⟨_, Archive.step_kept ha hnext, rfl, a.subset_noted ev'⟩

theorem run_archive
    {a : Archive} {es : List Event}
    (hrun : Run step Advancing s es s')
    (ha : Archive.Kept a)
    (hsame : a.system = s.system) :
    ∃ b, Archive.Kept b ∧ b.system = s'.system ∧ a.submissions ⊆ b.submissions := by
  induction hrun generalizing a with
  | nil =>
      exact ⟨a, ha, hsame, List.Subset.refl _⟩
  | cons _ hstep _ ih =>
      obtain ⟨b, hb, hmid, hsub⟩ := step_archive ha hsame hstep
      obtain ⟨c, hc, hend, hmore⟩ := ih hb hmid
      exact ⟨c, hc, hend, List.Subset.trans hsub hmore⟩

/-- A step that is no restart leaves every task in the registry. -/
theorem step_registered
    {ev : Event} {id : TaskID}
    (h : Serving s)
    (hev : ev.restarting = false)
    (hstep : s.step ev = some s')
    (hget : (s.system.engine.tasks.get id).isSome) :
    (s'.system.engine.tasks.get id).isSome := by
  have hsystem : ∀ ev' : System.Event, restarts ev' = false →
      s.system.step ev' = some s'.system → (s'.system.engine.tasks.get id).isSome := by
    intro ev' hno hnext
    rcases System.step_effect h.sound hnext with ⟨o, heffect, -⟩ | ⟨hyes, -⟩
    · exact heffect.registered hget
    · rw [hno] at hyes
      cases hyes
  cases ev with
  | submit task now len =>
      simp only [step] at hstep
      split at hstep
      · cases hstep
        exact hget
      · obtain ⟨system, hsubmit, rfl⟩ := Option.map_eq_some_iff.mp hstep
        exact hsystem (.submit task _ now len) rfl hsubmit
  | other ev now =>
      obtain ⟨system, hother, rfl⟩ := Option.map_eq_some_iff.mp hstep
      have hno : restarts ev = false := hev
      rw [hno] at hsystem ⊢
      exact hsystem ev hno hother

theorem run_registered
    {es : List Event} {id : TaskID}
    (hrun : Run step Advancing s es s')
    (h : Serving s)
    (hes : es.any Event.restarting = false)
    (hget : (s.system.engine.tasks.get id).isSome) :
    (s'.system.engine.tasks.get id).isSome := by
  induction hrun with
  | nil =>
      exact hget
  | cons hok hstep _ ih =>
      rw [List.any_cons, Bool.or_eq_false_iff] at hes
      exact ih (step_serving _ _ _ h hok hstep) hes.2 (step_registered h hes.1 hstep hget)

/-- The answer 201 is given for a task that has been registered, under its generated ID. -/
theorem posted_created
    {req : SubmitRequest} {requestNow now : Time} {len : Nat} {generatedID : TaskID}
    {e e' : Engine} {d d' : Engine.Disk} {response : SubmitResponse}
    (h : handleTasks e d .post true (.ok req) generatedID requestNow now (.noError now len) =
      (e', d', .respond ⟨201, .submitted response⟩)) :
    e.duplicateOf (req.task requestNow) = none ∧ response.id = generatedID ∧
      e' = (e.submit d (req.task requestNow) generatedID now (.noError now len)).1 ∧
      d' = (e.submit d (req.task requestNow) generatedID now (.noError now len)).2.1 ∧
      e'.tasks.get generatedID = some (e.prepare (req.task requestNow) generatedID now) := by
  simp only [handleTasks, submitTask, if_true] at h
  split_ifs at h with hpayload
  · cases h
  · have hid : (e.prepare (req.task requestNow) generatedID now).id = generatedID :=
      prepare_id e generatedID now rfl
    obtain ⟨rfl, rfl, hrespond⟩ :
        _ ∧ _ ∧ submitOutcome (e.prepare (req.task requestNow) generatedID now)
          (e.submit d (req.task requestNow) generatedID now (.noError now len)).2.2 = _ := by
      simpa only [Prod.mk.injEq] using h
    cases hresult : (e.submit d (req.task requestNow) generatedID now (.noError now len)).2.2 with
    | ok id =>
        obtain ⟨rfl, hget⟩ := Engine.submit_registered (Or.inl hresult)
        rw [hresult] at hrespond
        simp only [submitOutcome, Outcome.respond.injEq, Response.mk.injEq,
          Body.submitted.injEq, true_and] at hrespond
        rw [hid] at hget
        refine ⟨?_, ?_, rfl, rfl, hget⟩
        · cases hdup : e.duplicateOf (req.task requestNow) with
          | none =>
              rfl
          | some existing =>
              rw [Engine.submit, hdup] at hresult
              cases hresult
        · rw [← hrespond]
          exact hid
    | duplicate t =>
        rw [hresult] at hrespond
        simp [submitOutcome, writeError] at hrespond
    | error err =>
        rw [hresult] at hrespond
        cases err with
        | duplicateIdempotencyKey =>
            simp [submitOutcome, writeError] at hrespond
        | enqueue err =>
            cases err <;> simp [submitOutcome, writeError] at hrespond
        | _ =>
            simp [submitOutcome, writeError] at hrespond
    | blocked id =>
        rw [hresult] at hrespond
        simp [submitOutcome] at hrespond

/-- What is posted is what is registered. -/
theorem submissionOf_posted
    (e : Engine) (req : SubmitRequest) (requestNow now : Time) (generatedID : TaskID) :
    (submissionOf (e.prepare (req.task requestNow) generatedID now)).payload = req.payload ∧
      (submissionOf (e.prepare (req.task requestNow) generatedID now)).priority =
        req.priority.toInt ∧
      (submissionOf (e.prepare (req.task requestNow) generatedID now)).maxRetries =
        if req.maxRetries = 0 then e.cfg.maxRetries else req.maxRetries.toInt := by
  have hzero : req.maxRetries.toInt = 0 ↔ req.maxRetries = 0 := by
    rw [← Int64.toInt_inj, Int64.toInt_zero]
  unfold Engine.prepare Engine.withInitialState
  split_ifs <;> simp_all [submissionOf, SubmitRequest.task]

/--
What a client posts is what it reads.  If `POST /tasks` is answered with 201 at once, in any state
that the server reaches over restarts, the ID of the answer is one that was never given out
before, and in every later state `GET /tasks/id` answers with 200 and the payload, the priority
and the limit of retries of the request (the configured one, if the request had none), whatever
else was submitted, cancelled, run or saved in between; only after a restart it may answer with
404.  The operations are taken whole and meet no I/O errors, and the clock is that of `Advancing`.
-/
theorem posted_task_readable
    (cfg : Engine.Config) (now₀ : Time)
    (hepoch : -2 ^ 63 ≤ now₀)
    (es : List Event) (s : Numbered)
    (hrun : Run step Advancing (initial cfg now₀) es s)
    (req : SubmitRequest) (requestNow now : Time) (len : Nat)
    (hok : s.Advancing (.submit (req.task requestNow) now len))
    (e' : Engine) (d' : Engine.Disk) (response : SubmitResponse)
    (hcreated : handleTasks s.system.engine s.system.disk .post true (.ok req)
        (Engine.generateID s.idCounter now).2 requestNow now (.noError now len) =
      (e', d', .respond ⟨201, .submitted response⟩)) :
    response.id ∉ s.system.issued ∧
    ∃ s', s.step (.submit (req.task requestNow) now len) = some s' ∧
      s'.system.engine = e' ∧ s'.system.disk = d' ∧
      ∀ fs u, Run step Advancing s' fs u → ∀ now' io,
        (∃ details : TaskResponse,
          handleTaskByID u.system.engine u.system.disk .get ("/tasks/" ++ response.id) now' io =
            (u.system.engine, u.system.disk, .respond ⟨200, .task details⟩) ∧
          details.id = response.id ∧ details.payload = req.payload ∧
          details.priority = req.priority.toInt ∧
          details.maxRetries =
            if req.maxRetries = 0 then s.system.engine.cfg.maxRetries
            else req.maxRetries.toInt) ∨
        (fs.any Event.restarting = true ∧
          handleTaskByID u.system.engine u.system.disk .get ("/tasks/" ++ response.id) now' io =
            (u.system.engine, u.system.disk, .respond ⟨404, .error "task not found"⟩)) := by
  have h : Serving s := hrun.invariant Serving step_serving (serving_initial cfg hepoch)
  obtain ⟨a, ha, hsame, -⟩ := run_archive hrun (Archive.kept_initial cfg) rfl
  obtain ⟨hdup, hid, he', hd', hget⟩ := posted_created hcreated
  have hnew : response.id ∉ s.system.issued := by
    rw [hid]
    exact h.told.generateID_new hok.2.1 hok.2.2.1 hok.2.2.2
  have hne : response.id ≠ "" := by
    rw [hid]
    exact Engine.taskID_ne_empty _ _
  rw [hid] at hne hnew ⊢
  set id := (Engine.generateID s.idCounter now).2 with hgenerated
  set t := s.system.engine.prepare (req.task requestNow) id now with ht
  have hprepared : t.id = id := prepare_id s.system.engine id now rfl
  obtain ⟨s', hstep, hengine, hdisk⟩ : ∃ s',
      s.step (.submit (req.task requestNow) now len) = some s' ∧
        s'.system.engine = e' ∧ s'.system.disk = d' := by
    have hnext : s.nextID (req.task requestNow) now = Engine.generateID s.idCounter now :=
      if_pos rfl
    simp only [step, hdup, hnext, System.submit, ← hgenerated, ← ht, hprepared, if_neg hnew,
      Runtime.submit_eq]
    exact ⟨_, rfl, he'.symm, hd'.symm⟩
  obtain ⟨b, hb, hbsame, -⟩ := step_archive ha hsame hstep
  have hposted : submissionOf t ∈ b.submissions := by
    refine (hb.faithful.memory id t ?_).2
    rw [hbsame, hengine]
    exact hget
  refine ⟨hnew, s', hstep, hengine, hdisk, ?_⟩
  intro fs u hlater now' io
  rw [handleTaskByID_get hne, getTask]
  cases hu : u.system.engine.tasks.get id with
  | some t' =>
      left
      obtain ⟨c, hc, hcsame, hmore⟩ := run_archive hlater hb hbsame
      obtain ⟨hid', hread⟩ := hc.faithful.memory id t' (by rw [hcsame]; exact hu)
      have hsub : submissionOf t' = submissionOf t :=
        hc.submission_eq hread (hmore hposted) (hid'.trans hprepared.symm)
      obtain ⟨hpayload, hpriority, hretries⟩ :=
        submissionOf_posted s.system.engine req requestNow now id
      rw [← ht, ← hsub] at hpayload hpriority hretries
      exact ⟨taskResponse t', rfl, hid', hpayload, hpriority, hretries⟩
  | none =>
      right
      refine ⟨?_, rfl⟩
      by_contra hno
      have hthere : (s'.system.engine.tasks.get id).isSome := by
        rw [hengine, hget, Option.isSome_some]
      have hstill := run_registered hlater (step_serving s _ s' h hok hstep)
        (Bool.eq_false_iff.mpr hno) hthere
      rw [hu] at hstill
      cases hstill

/-- A request without a limit of retries. -/
def twoBytes : SubmitRequest where
  payload := [1, 2]
  priority := 5
  delaySeconds := 0
  maxRetries := 0
  timeoutSeconds := 0
  idempotencyKey := "k"

/-- The request comes to the second process, and its task is read from any later state of it. -/
theorem posted_task_readable_acrossRestart :
    ∃ s, Run step Advancing (initial System.roomyConfig 5) acrossRestart s ∧
      ∃ s', s.step (.submit (twoBytes.task 6) 6 100) = some s' ∧
        ∀ fs u, Run step Advancing s' fs u → fs.any Event.restarting = false → ∀ now' io,
          ∃ details : TaskResponse,
            handleTaskByID u.system.engine u.system.disk .get ("/tasks/" ++ "task_6_1") now' io =
              (u.system.engine, u.system.disk, .respond ⟨200, .task details⟩) ∧
            details.payload = [1, 2] ∧ details.priority = 5 := by
  obtain ⟨s, hrun, hok, hcreated⟩ :=
    Lib.exists_run_of_exec step Advancing
      (fun s => s.Advancing (.submit (twoBytes.task 6) 6 100) ∧
        (handleTasks s.system.engine s.system.disk .post true (.ok twoBytes)
          (Engine.generateID s.idCounter 6).2 6 6 (.noError 6 100)).2.2 =
        .respond ⟨201, .submitted ⟨"task_6_1", "pending", 6⟩⟩)
      (initial System.roomyConfig 5) acrossRestart (by decide +kernel)
  obtain ⟨-, s', hstep, -, -, hlater⟩ :=
    posted_task_readable System.roomyConfig 5 (by decide) acrossRestart s hrun twoBytes 6 6 100
      hok _ _ ⟨"task_6_1", "pending", 6⟩ (Prod.ext rfl (Prod.ext rfl hcreated))
  refine ⟨s, hrun, s', hstep, ?_⟩
  intro fs u hu hno now' io
  rcases hlater fs u hu now' io with ⟨details, hreply, -, hpayload, hpriority, -⟩ | ⟨hyes, -⟩
  · exact ⟨details, hreply, hpayload, hpriority⟩
  · rw [hno] at hyes
    cases hyes

end Numbered
end TaskQueue
