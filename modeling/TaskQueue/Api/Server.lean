import Mathlib.Tactic
import TaskQueue.Lib.Decimal
import TaskQueue.Lib.Window
import TaskQueue.Engine.Effects

/-!
# The handlers of the API server

`POST /tasks` and `GET /dlq` of `internal/api/api.go`: the decoded request, the
calls of the engine, and the responses with their status codes and texts.  The
integers of a request are the 64-bit integers of Go, and arithmetic on them
wraps.  The answer of the rate limiter and the result of the JSON decoder are
parameters.  The two methods of the engine that only the handlers and the
workers' contexts need, `ListDLQ` and the choice of the context in
`wrapHandler`, are here as well.

A request that is refused with a status below 500 leaves the engine and the
directory as they were (`handleTasks_refused`).
-/

namespace TaskQueue

open Queue
open Wal (LogEnv)

namespace Engine

/-- `ListDLQ`: the page and the total; `none` is a panic of the slice expression. -/
def listDLQ (e : Engine) (limit offset : Int64) : Option (List TaskID × Nat) :=
  let total := e.dlq.length
  if total ≤ offset.toInt then
    some ([], total)
  else
    -- `offset + limit` is an addition of machine integers
    let sum := (offset + limit).toInt
    let high := if total < sum then (total : Int) else sum
    (Lib.slice e.dlq offset.toInt high).map fun page => (page, total)

/-- The time limit of the context in `wrapHandler`; `none` is `context.WithCancel`. -/
def executionTimeout (t : Task) : Option Duration :=
  if 0 < t.timeout then some t.timeout else none

end Engine

namespace Api

open Engine

/-- The method of a request, as far as the handlers tell them apart. -/
inductive Method
  | get
  | post
  | delete
  | other
deriving DecidableEq, Repr

/-- `SubmitRequest`: the JSON body of `POST /tasks`. -/
structure SubmitRequest where
  payload : List UInt8
  priority : Int64
  delaySeconds : Int64
  maxRetries : Int64
  timeoutSeconds : Int64
  idempotencyKey : String

/-- `SubmitResponse`. -/
structure SubmitResponse where
  id : TaskID
  state : String
  createdAt : Time
deriving DecidableEq, Repr

/-- `TaskResponse`. -/
structure TaskResponse where
  id : TaskID
  state : String
  payload : List UInt8
  priority : Int
  createdAt : Time
  scheduledAt : Option Time
  startedAt : Option Time
  completedAt : Option Time
  retryCount : Int
  maxRetries : Int
  lastError : String
deriving DecidableEq, Repr

/-- The values that are written as JSON. -/
inductive Body
  | error (msg : String)
  | submitted (response : SubmitResponse)
  | task (response : TaskResponse)
  | cancelled (id : TaskID) (state : String) (cancelledAt : Time)
  | deadLetters (tasks : List TaskResponse) (total : Nat)
deriving DecidableEq, Repr

/-- A status code and a body. -/
structure Response where
  status : Nat
  body : Body
deriving DecidableEq, Repr

/-- What a handler does: it responds, waits in `Enqueue`, or panics. -/
inductive Outcome
  | respond (response : Response)
  | waiting (id : TaskID)
  | panics
deriving DecidableEq, Repr

/-- `writeError`. -/
def writeError (status : Nat) (msg : String) : Outcome :=
  .respond ⟨status, .error msg⟩

/-- `time.Second`. -/
def second : Int64 :=
  1000000000

/-- The task that `submitTask` builds; `requestNow` is its reading of the clock. -/
def SubmitRequest.task (req : SubmitRequest) (requestNow : Time) : Task :=
  { Task.zero with
    payload := req.payload
    priority := req.priority.toInt
    maxRetries := req.maxRetries.toInt
    idempotencyKey := req.idempotencyKey
    scheduledAt :=
      if 0 < req.delaySeconds then requestNow + (req.delaySeconds * second).toInt
      else zeroTime
    timeout :=
      if 0 < req.timeoutSeconds then (req.timeoutSeconds * second).toInt
      else 0 }

/-- The response to the result of `Submit`; `result` is the task that it returns. -/
def submitOutcome (result : Task) : SubmitResult → Outcome
  | .ok _ =>
      .respond ⟨201, .submitted
        { id := result.id, state := result.state.string, createdAt := result.createdAt }⟩
  | .duplicate _ => writeError 409 "duplicate idempotency key"
  | .error .duplicateIdempotencyKey => writeError 409 "duplicate idempotency key"
  | .error (.enqueue .full) => writeError 503 "queue at capacity"
  | .error err => writeError 500 ("submit failed: " ++ err.message)
  | .blocked id => .waiting id

/--
`submitTask`.  The clock is read when the delay is added (`requestNow`) and again
in `Submit` (`now`).
-/
def submitTask (e : Engine) (d : Disk) (allow : Bool) (body : Except String SubmitRequest)
    (generatedID : TaskID) (requestNow now : Time) (io : LogEnv) : Engine × Disk × Outcome :=
  if allow then
    match body with
    | .error err => (e, d, writeError 400 ("invalid JSON: " ++ err))
    | .ok req =>
        if req.payload = [] then
          (e, d, writeError 400 "payload is required")
        else
          let task := req.task requestNow
          let r := e.submit d task generatedID now io
          (r.1, r.2.1, submitOutcome (e.prepare task generatedID now) r.2.2)
  else
    (e, d, writeError 429 "rate limit exceeded")

/-- `handleTasks`. -/
def handleTasks (e : Engine) (d : Disk) (method : Method) (allow : Bool)
    (body : Except String SubmitRequest) (generatedID : TaskID) (requestNow now : Time)
    (io : LogEnv) : Engine × Disk × Outcome :=
  match method with
  | .post => submitTask e d allow body generatedID requestNow now io
  | _ => (e, d, writeError 405 "method not allowed")

/-- `queryInt`; `value` is what `Query().Get` returns for the key. -/
def queryInt (value : String) (defaultVal : Int64) : Int64 :=
  if value = "" then
    defaultVal
  else
    (Lib.atoi value).getD defaultVal

/-- `nilTime`. -/
def nilTime (t : Time) : Option Time :=
  if t = zeroTime then none else some t

/-- The entry of a task in the response of `handleDLQ`; three fields are not filled in. -/
def deadLetterResponse (t : Task) : TaskResponse where
  id := t.id
  state := t.state.string
  payload := t.payload
  priority := 0
  createdAt := t.createdAt
  scheduledAt := none
  startedAt := none
  completedAt := nilTime t.completedAt
  retryCount := t.retryCount
  maxRetries := t.maxRetries
  lastError := t.lastError

/-- `handleDLQ`; `query` is `Query().Get`. -/
def handleDLQ (e : Engine) (method : Method) (query : String → String) : Outcome :=
  match method with
  | .get =>
      match e.listDLQ (queryInt (query "limit") 50) (queryInt (query "offset") 0) with
      | none => .panics
      | some (page, total) =>
          let tasks := page.filterMap fun id => (e.tasks.get id).map deadLetterResponse
          .respond ⟨200, .deadLetters tasks total⟩
  | _ => writeError 405 "method not allowed"

/-- `errors.Is(err, ErrDuplicateIdempotencyKey)`. -/
def isDuplicate : SubmitResult → Bool
  | .duplicate _ => true
  | .error .duplicateIdempotencyKey => true
  | _ => false

theorem place_isDuplicate
    (e : Engine) (id : TaskID) (state : TaskState) :
    isDuplicate (e.place id state).2 = false := by
  unfold place
  split_ifs
  · rfl
  · cases e.buffer.enqueue id <;> rfl

theorem submit_isDuplicate
    {e : Engine} {task : Task}
    (hdup : e.duplicateOf task = none)
    (d : Disk) (generatedID : TaskID) (now : Time) (io : LogEnv) :
    isDuplicate (e.submit d task generatedID now io).2.2 = false := by
  unfold submit logSubmit
  rw [hdup]
  dsimp only
  split_ifs
  · rcases (e.register (e.prepare task generatedID now)).append d .enqueue
      (e.prepare task generatedID now).id (.ofTask (e.prepare task generatedID now)) io with
      ⟨e', d', ok⟩
    cases ok with
    | true => exact place_isDuplicate e' _ _
    | false => rfl
  · rfl

/-- Only a duplicate is refused with a status below 500. -/
theorem submitOutcome_refused
    {t : Task} {r : SubmitResult} {status : Nat} {msg : String}
    (h : submitOutcome t r = writeError status msg)
    (hstatus : status < 500) :
    isDuplicate r = true := by
  cases r with
  | ok id => cases h
  | duplicate existing => rfl
  | blocked id => cases h
  | error err =>
      cases err with
      | duplicateIdempotencyKey => rfl
      | marshal cause =>
          cases h
          omega
      | walAppend cause =>
          cases h
          omega
      | enqueue qerr =>
          cases qerr
          all_goals
            cases h
            omega

/-- A request that is refused with a status below 500 changes nothing. -/
theorem handleTasks_refused
    {e : Engine} {d : Disk} {method : Method} {allow : Bool}
    {body : Except String SubmitRequest} {generatedID : TaskID} {requestNow now : Time}
    {io : LogEnv} {status : Nat} {msg : String}
    (h : (handleTasks e d method allow body generatedID requestNow now io).2.2 =
      writeError status msg)
    (hstatus : status < 500) :
    (handleTasks e d method allow body generatedID requestNow now io).1 = e ∧
      (handleTasks e d method allow body generatedID requestNow now io).2.1 = d := by
  unfold handleTasks at h ⊢
  cases method with
  | get => exact ⟨rfl, rfl⟩
  | delete => exact ⟨rfl, rfl⟩
  | other => exact ⟨rfl, rfl⟩
  | post =>
      unfold submitTask at h ⊢
      cases allow with
      | false => exact ⟨rfl, rfl⟩
      | true =>
          cases body with
          | error err => exact ⟨rfl, rfl⟩
          | ok req =>
              by_cases hpayload : req.payload = []
              · simp [hpayload]
              · simp only [if_true, if_neg hpayload] at h ⊢
                have hrefused := submitOutcome_refused h hstatus
                cases hdup : e.duplicateOf (req.task requestNow) with
                | some existing =>
                    rw [submit, hdup]
                    exact ⟨rfl, rfl⟩
                | none =>
                    rw [submit_isDuplicate hdup] at hrefused
                    cases hrefused

end Api
end TaskQueue
