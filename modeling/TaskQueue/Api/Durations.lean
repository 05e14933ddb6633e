import Mathlib.Tactic
import TaskQueue.Engine.FailedSubmit
import TaskQueue.Api.Server

/-!
# Delays and timeouts of a request

A request gives its delay and its timeout in seconds, the task has them in
nanoseconds, and the product is a machine integer.  From 9223372037 seconds (292
years) on it wraps, and the sign tests of `Submit` and of `wrapHandler` then see
another duration.  This file says for every accepted request when its task has
the delay and the timeout that were asked for.
-/

namespace TaskQueue

open Queue
open Wal (LogEnv)

namespace Engine

theorem executionTimeout_eq_some_iff
    {t : Task} {limit : Duration} :
    executionTimeout t = some limit ↔ t.timeout = limit ∧ 0 < t.timeout := by
  unfold executionTimeout
  split_ifs with hpos
  · simp [hpos]
  · simp [hpos]

end Engine

namespace Api

open Engine

/--
The request is accepted: it is answered with 201, or it waits in `Enqueue` with
its task registered and logged, and is answered when there is room.
-/
def Outcome.Accepts (outcome : Outcome) (id : TaskID) : Prop :=
  (∃ response, outcome = .respond ⟨201, .submitted response⟩ ∧ response.id = id) ∨
    outcome = .waiting id

/-- The 201 response comes from a `Submit` without an error. -/
theorem submitOutcome_accepts
    {t : Task} {r : SubmitResult} {id : TaskID}
    (h : (submitOutcome t r).Accepts id) :
    (t.id = id ∧ ∃ j, r = .ok j) ∨ r = .blocked id := by
  cases r with
  | ok j =>
      rcases h with ⟨response, hrespond, hid⟩ | hwait
      · cases hrespond
        exact Or.inl ⟨hid, j, rfl⟩
      · cases hwait
  | duplicate existing =>
      rcases h with ⟨response, hrespond, -⟩ | hwait
      · cases hrespond
      · cases hwait
  | error err =>
      exfalso
      have hstatus : ∃ status msg, submitOutcome t (.error err) = writeError status msg := by
        unfold submitOutcome
        split
        all_goals first | exact ⟨_, _, rfl⟩ | contradiction
      obtain ⟨status, msg, hstatus⟩ := hstatus
      rw [hstatus] at h
      rcases h with ⟨response, hrespond, -⟩ | hwait
      · cases hrespond
      · cases hwait
  | blocked j =>
      rcases h with ⟨response, hrespond, -⟩ | hwait
      · cases hrespond
      · cases hwait
        exact Or.inr rfl

/-- The task of an accepted request. -/
theorem submitTask_accepts
    {e : Engine} {d : Disk} {allow : Bool} {req : SubmitRequest} {generatedID id : TaskID}
    {requestNow now : Time} {io : LogEnv}
    (h : (submitTask e d allow (.ok req) generatedID requestNow now io).2.2.Accepts id) :
    (submitTask e d allow (.ok req) generatedID requestNow now io).1.tasks.get id =
      some (e.prepare (req.task requestNow) generatedID now) := by
  have hwrite : ∀ status msg, ¬(writeError status msg).Accepts id := by
    rintro status msg (⟨response, hrespond, -⟩ | hwait)
    · cases hrespond
    · cases hwait
  unfold submitTask at h ⊢
  cases allow with
  | false =>
      exact absurd h (hwrite _ _)
  | true =>
      by_cases hpayload : req.payload = []
      · simp only [if_true, if_pos hpayload] at h
        exact absurd h (hwrite _ _)
      · simp only [if_true, if_neg hpayload] at h ⊢
        rcases submitOutcome_accepts h with ⟨hid, j, hok⟩ | hblocked
        · obtain ⟨hj, hget⟩ := submit_registered (Or.inl hok)
          rw [hj, hid] at hget
          exact hget
        · exact (submit_registered (Or.inr hblocked)).2

/-- Seconds in nanoseconds: the product is exact up to 9223372036 seconds. -/
theorem toInt_mul_second_eq_iff
    {seconds : Int64}
    (hpos : 0 < seconds) :
    (seconds * second).toInt = seconds.toInt * 1000000000 ↔ seconds ≤ 9223372036 := by
  have hpos' := Int64.lt_iff_toInt_lt.mp hpos
  have hlt := seconds.toInt_lt
  have hsecond : second.toInt = 1000000000 := by decide
  have hzero : (0 : Int64).toInt = 0 := by decide
  have hbound : (9223372036 : Int64).toInt = 9223372036 := by decide
  rw [Int64.toInt_mul, hsecond, Int64.le_iff_toInt_le, hbound, Int.bmod_def]
  omega

theorem mul_second_pos
    {seconds : Int64}
    (hpos : 0 < seconds) :
    0 < seconds.toInt * 1000000000 := by
  have hpos' : (0 : Int) < seconds.toInt := Int64.lt_iff_toInt_lt.mp hpos
  omega

/-- A product that wraps is outside the range of a duration. -/
theorem two_pow_le_of_toInt_mul_second_ne
    {seconds : Int64}
    (hpos : 0 < seconds)
    (hne : (seconds * second).toInt ≠ seconds.toInt * 1000000000) :
    2 ^ 63 ≤ seconds.toInt * 1000000000 := by
  have hbound : (9223372036 : Int64).toInt = 9223372036 := by decide
  rw [Ne, toInt_mul_second_eq_iff hpos, Int64.le_iff_toInt_le, hbound] at hne
  omega

/-- The state and the time of a task whose time is not the zero time. -/
theorem prepare_scheduled_iff
    {e : Engine} {task : Task} {generatedID : TaskID} {now at_ : Time}
    (hat : at_ ≠ zeroTime) :
    ((e.prepare task generatedID now).state = .scheduled ∧
        (e.prepare task generatedID now).scheduledAt = at_) ↔
      task.scheduledAt = at_ ∧ now < at_ := by
  unfold prepare withInitialState
  split_ifs with hfuture
  · constructor
    · rintro ⟨-, hscheduled⟩
      exact ⟨hscheduled, hscheduled ▸ hfuture.2⟩
    · rintro ⟨hscheduled, -⟩
      exact ⟨rfl, hscheduled⟩
  · constructor
    · rintro ⟨hstate, -⟩
      cases hstate
    · rintro ⟨hscheduled, hlt⟩
      rw [hscheduled] at hfuture
      exact absurd ⟨hat, hlt⟩ hfuture

theorem prepare_timeout
    (e : Engine) (task : Task) (generatedID : TaskID) (now : Time) :
    (e.prepare task generatedID now).timeout =
      if task.timeout = 0 then e.cfg.defaultTimeout else task.timeout := by
  have hkept : (withInitialState task now).timeout = task.timeout := by
    unfold withInitialState
    split_ifs <;> rfl
  unfold prepare
  dsimp only
  rw [hkept]

/-- A positive number of seconds is kept exactly, or it is not what the task has. -/
theorem prepare_timeout_iff
    {e : Engine} {task : Task} {generatedID : TaskID} {now : Time} {seconds : Int64}
    (hdefault : e.cfg.defaultTimeout < 2 ^ 63)
    (hpos : 0 < seconds)
    (htask : task.timeout = (seconds * second).toInt) :
    ((e.prepare task generatedID now).timeout = seconds.toInt * 1000000000 ∧
        0 < (e.prepare task generatedID now).timeout) ↔
      seconds ≤ 9223372036 := by
  have hprod := mul_second_pos hpos
  rw [prepare_timeout, htask, ← toInt_mul_second_eq_iff hpos]
  split_ifs with hzero
  · -- a product that wraps to zero leaves the default, which is smaller than the true product
    have hwrapped : (seconds * second).toInt ≠ seconds.toInt * 1000000000 := by
      rw [hzero]
      exact hprod.ne
    have hlarge := two_pow_le_of_toInt_mul_second_ne hpos hwrapped
    constructor
    · rintro ⟨hexact, -⟩
      exact absurd hexact (lt_of_lt_of_le hdefault hlarge).ne
    · intro hexact
      exact absurd hexact hwrapped
  · constructor
    · rintro ⟨hexact, -⟩
      exact hexact
    · intro hexact
      refine ⟨hexact, ?_⟩
      rw [hexact]
      exact hprod

/--
For every accepted request: a positive delay schedules the task exactly that many
seconds after the request if and only if the delay is at most 9223372036 seconds
and `Submit` reads the clock before it is over; a positive timeout is the timeout
of the task if and only if it is at most 9223372036 seconds.
-/
theorem submitTask_durations_iff
    (e : Engine) (d : Disk) (allow : Bool) (req : SubmitRequest) (generatedID id : TaskID)
    (requestNow now : Time) (io : LogEnv)
    (hclock : zeroTime ≤ requestNow)
    (hdefault : e.cfg.defaultTimeout < 2 ^ 63)
    (haccepts :
      (submitTask e d allow (.ok req) generatedID requestNow now io).2.2.Accepts id) :
    ∃ t,
      (submitTask e d allow (.ok req) generatedID requestNow now io).1.tasks.get id = some t ∧
      (0 < req.delaySeconds →
        ((t.state = .scheduled ∧
            t.scheduledAt = requestNow + req.delaySeconds.toInt * 1000000000) ↔
          (req.delaySeconds ≤ 9223372036 ∧
            now < requestNow + req.delaySeconds.toInt * 1000000000))) ∧
      (0 < req.timeoutSeconds →
        ((t.timeout = req.timeoutSeconds.toInt * 1000000000 ∧ 0 < t.timeout) ↔
          req.timeoutSeconds ≤ 9223372036)) := by
  refine ⟨_, submitTask_accepts haccepts, ?_, ?_⟩
  · intro hpos
    have hat : requestNow + req.delaySeconds.toInt * 1000000000 ≠ zeroTime :=
      (lt_add_of_le_of_pos hclock (mul_second_pos hpos)).ne'
    have htask : (req.task requestNow).scheduledAt =
        requestNow + (req.delaySeconds * second).toInt := if_pos hpos
    rw [prepare_scheduled_iff hat, htask, add_right_inj, toInt_mul_second_eq_iff hpos]
  · intro hpos
    have htask : (req.task requestNow).timeout = (req.timeoutSeconds * second).toInt :=
      if_pos hpos
    exact prepare_timeout_iff hdefault hpos htask

/-- The handler of an accepted request runs with the timeout that was asked for, or not. -/
theorem submitTask_executionTimeout_iff
    {e : Engine} {d : Disk} {allow : Bool} {req : SubmitRequest} {generatedID id : TaskID}
    {requestNow now : Time} {io : LogEnv}
    (hdefault : e.cfg.defaultTimeout < 2 ^ 63)
    (haccepts :
      (submitTask e d allow (.ok req) generatedID requestNow now io).2.2.Accepts id)
    (hpos : 0 < req.timeoutSeconds) :
    ((submitTask e d allow (.ok req) generatedID requestNow now io).1.tasks.get id).bind
        executionTimeout = some (req.timeoutSeconds.toInt * 1000000000) ↔
      req.timeoutSeconds ≤ 9223372036 := by
  have htask : (req.task requestNow).timeout = (req.timeoutSeconds * second).toInt :=
    if_pos hpos
  rw [submitTask_accepts haccepts, Option.bind_some, executionTimeout_eq_some_iff]
  exact prepare_timeout_iff hdefault hpos htask

/-- A request with an empty JSON object as its payload. -/
def requestFor (delaySeconds timeoutSeconds : Int64) : SubmitRequest where
  payload := [123, 125]
  priority := 0
  delaySeconds := delaySeconds
  maxRetries := 0
  timeoutSeconds := timeoutSeconds
  idempotencyKey := ""

/-- The request, made to a new engine in November 2023 and submitted 100 ns later. -/
def serveRequest (req : SubmitRequest) : Engine × Disk × Outcome :=
  submitTask (Service.initial System.roomyConfig).engine Disk.empty true (.ok req) "a"
    1700000000000000000 1700000000000000100 (LogEnv.noError 10 300)

/-- One hour and one minute are kept. -/
theorem submitTask_durations_iff_hour :
    (serveRequest (requestFor 3600 60)).2.2.Accepts "a" ∧
      ∃ t, (serveRequest (requestFor 3600 60)).1.tasks.get "a" = some t ∧
        t.state = .scheduled ∧ t.scheduledAt = 1700003600000000000 ∧
        t.timeout = 60000000000 := by
  have haccepts : (serveRequest (requestFor 3600 60)).2.2.Accepts "a" :=
    Or.inl ⟨⟨"a", "scheduled", 1700000000000000100⟩, by decide +kernel, rfl⟩
  obtain ⟨t, hget, hdelay, htimeout⟩ := submitTask_durations_iff _ _ _ (requestFor 3600 60)
    _ "a" 1700000000000000000 1700000000000000100 _ (by decide) (by decide) haccepts
  have hscheduled := (hdelay (by decide)).mpr ⟨by decide, by decide⟩
  have hkept := (htimeout (by decide)).mpr (by decide)
  exact ⟨haccepts, t, hget, hscheduled.1, hscheduled.2, hkept.1⟩

/--
A delay and a timeout of 9223372037 seconds: the task is pending at once, and its
handler runs without a time limit.
-/
theorem submitTask_durations_wrap :
    (serveRequest (requestFor 9223372037 9223372037)).2.2 =
        .respond ⟨201, .submitted ⟨"a", "pending", 1700000000000000100⟩⟩ ∧
      ∃ t, (serveRequest (requestFor 9223372037 9223372037)).1.tasks.get "a" = some t ∧
        t.state = .pending ∧ t.scheduledAt = zeroTime ∧
        t.timeout = -9223372036709551616 ∧ executionTimeout t = none := by
  exact ⟨by decide +kernel, _, rfl, by decide +kernel, by decide +kernel, by decide +kernel,
    by decide +kernel⟩

end Api
end TaskQueue
