import Mathlib.Tactic
import TaskQueue.Lib.Attempts
import TaskQueue.Lib.Custody
import TaskQueue.Engine.Requeue

/-!
# The fate of a task

One process without crashes and cancellations, in which an iteration of a worker is one
step: the `Submit` calls in their blocks, the scheduler, the workers, and whatever the
log does in the meantime.  `fate_documented` shows that what becomes of a task is a
function of the results of its handler alone: the number of runs, the final state, the
dead-letter queue, `RetryCount` and `LastError`.
-/

namespace TaskQueue

open Lib (GoMap Exclusive Consistent Relocated Attempts Exhausted MayTry failures)
open Queue
open Wal (Log LogEnv LogRecord Snapshot)

/-- What a caller of `Submit` says about a task; the engine fills in the other fields. -/
structure Request where
  id : TaskID
  idempotencyKey : String
  payload : List UInt8
  priority : Int
  scheduledAt : Time
  maxRetries : Int
  timeout : Duration
deriving DecidableEq, Repr

/-- The task that the caller hands over. -/
def Request.task (r : Request) : Task :=
  { Task.zero with
    id := r.id
    idempotencyKey := r.idempotencyKey
    payload := r.payload
    priority := r.priority
    scheduledAt := r.scheduledAt
    maxRetries := r.maxRetries
    timeout := r.timeout }

/--
A process: the engine with its directory, the ready list of the scheduler, the `Submit`
calls before and after their `Append`, and the history: the IDs in use, the tasks as they
were registered, and the results of the handler, the latest one last.
-/
structure Process where
  engine : Engine
  disk : Engine.Disk
  ready : List TaskID
  entering : List TaskID
  placing : List TaskID
  issued : List TaskID
  submitted : List Task
  results : List (TaskID × Option Engine.HandlerError)

namespace Process

open Engine (HandlerError)

/-- The steps of the process. -/
inductive Event
  | register (request : Request) (generatedID : TaskID) (now : Time)
  | log (id : TaskID) (io : LogEnv)
  | place (id : TaskID)
  | promote (now : Time)
  | schedule (now later : Time)
  | iterate (now : Time) (io : LogEnv) (result : Option HandlerError) (done : Time)
      (delay : Duration) (io' : LogEnv)
  | checkpoint (log : Log) (disk : Engine.Disk)
  | close

/-- The process after `New` and `Recover`; the registry has the IDs of `order`. -/
def initial (e : Engine) (d : Engine.Disk) (order : List TaskID) : Process where
  engine := e
  disk := d
  ready := []
  entering := []
  placing := []
  issued := order
  submitted := []
  results := []

/-- The first block of `Submit`, for a task that is no duplicate. -/
def register (s : Process) (request : Request) (generatedID : TaskID) (now : Time) :
    Option Process :=
  let t := s.engine.prepare request.task generatedID now
  if t.id ∈ s.issued ∨ (s.engine.duplicateOf request.task).isSome then
    none
  else
    some
      { s with
        engine := s.engine.register t
        entering := t.id :: s.entering
        issued := t.id :: s.issued
        submitted := t :: s.submitted }

/-- The middle block of `Submit`; if it fails the task is taken back. -/
def log (s : Process) (id : TaskID) (io : LogEnv) : Option Process :=
  match s.engine.tasks.get id with
  | none => none
  | some t =>
      if id ∈ s.entering then
        match s.engine.logSubmit s.disk t io with
        | (e, d, none) =>
            some
              { s with
                engine := e
                disk := d
                entering := s.entering.erase id
                placing := id :: s.placing }
        | (e, d, some _) =>
            some
              { s with
                engine := e
                disk := d
                entering := s.entering.erase id
                submitted := s.submitted.filter fun t₀ => decide (t₀.id ≠ id) }
      else
        none

/-- The last block of `Submit`; `none` if it still waits in `Enqueue`. -/
def place (s : Process) (id : TaskID) : Option Process :=
  match s.engine.stateOf id with
  | none => none
  | some state =>
      if id ∈ s.placing then
        (s.engine.tryPlace id state).map fun p =>
          { s with engine := p.1, placing := s.placing.erase id }
      else
        none

/-- The scheduler promotes what is due. -/
def promote (s : Process) (now : Time) : Option Process :=
  (s.engine.promoteNext s.ready now).map fun p => { s with engine := p.1, ready := p.2 }

/-- The scheduler handles the next ready task. -/
def schedule (s : Process) (now later : Time) : Option Process :=
  (s.engine.scheduleNext s.ready now later).map fun p => { s with engine := p.1, ready := p.2 }

/-- An iteration of a worker, whose handler returns `result`. -/
def iterate (s : Process) (now : Time) (io : LogEnv) (result : Option HandlerError)
    (done : Time) (delay : Duration) (io' : LogEnv) : Option Process :=
  match s.engine.startTask s.disk now io with
  | none => none
  | some (id, e, d) =>
      let r := e.finishTask d id result done delay io'
      some
        { s with
          engine := r.1
          disk := r.2
          results := s.results ++ [(id, result)] }

/--
The transitions of the process.  A checkpoint is taken with all that it can do, completed
or not: it leaves some log and some files.
-/
def step (s : Process) : Event → Option Process
  | .register request generatedID now => s.register request generatedID now
  | .log id io => s.log id io
  | .place id => s.place id
  | .promote now => s.promote now
  | .schedule now later => s.schedule now later
  | .iterate now io result done delay io' => s.iterate now io result done delay io'
  | .checkpoint log disk => some { s with engine := { s.engine with walLog := log }, disk := disk }
  | .close => some { s with engine := { s.engine with buffer := s.engine.buffer.close } }

/-- The results of the handler for one task, the first one first. -/
def resultsOf (s : Process) (id : TaskID) : List (Option HandlerError) :=
  (s.results.filter fun r => decide (r.1 = id)).map Prod.snd

/--
What the documentation says about a task with the retries `m` whose handler has returned
`rs`, in this order, and that is `letters` times in the dead-letter queue.
-/
structure Documented (m : Int) (rs : List (Option HandlerError)) (t : Task)
    (letters : Nat) : Prop where
  runs : (rs.length : Int) ≤ max m 0 + 1
  earlier : ∀ r ∈ rs.dropLast, ∃ err, r = some err ∧ err.nonRetryable = false
  completed : t.state = .completed ↔ none ∈ rs
  dead : t.state = .dead ↔
    (∃ err ∈ failures rs, err.nonRetryable = true) ∨ ((failures rs).length : Int) = max m 0 + 1
  letters : letters = if t.state = .dead then 1 else 0
  retryCount : t.retryCount = (failures rs).length
  lastError : t.lastError = ((failures rs).getLast?.map HandlerError.text).getD ""

/-- How often the handler may be run. -/
def runLimit (m : Int) : Nat :=
  (max m 0 + 1).toNat

/-- The invariant of one task, as it was registered and as it is now. -/
structure Follows (rs : List (Option HandlerError)) (letters : Nat) (t₀ t : Task) : Prop where
  maxRetries : t.maxRetries = t₀.maxRetries
  expiresAt : t.expiresAt = zeroTime
  attempts : Attempts HandlerError.nonRetryable (runLimit t₀.maxRetries) rs
  completed : t.state = .completed ↔ none ∈ rs
  dead : t.state = .dead ↔ Exhausted HandlerError.nonRetryable (runLimit t₀.maxRetries) rs
  letters : letters = if t.state = .dead then 1 else 0
  retryCount : t.retryCount = (failures rs).length
  lastError : t.lastError = ((failures rs).getLast?.map HandlerError.text).getD ""

theorem Follows.documented
    {rs : List (Option HandlerError)} {letters : Nat} {t₀ t : Task}
    (h : Follows rs letters t₀ t) :
    Documented t₀.maxRetries rs t letters := by
  refine ⟨?_, h.attempts.earlier, h.completed, ?_, h.letters, h.retryCount, h.lastError⟩
  · have hle := h.attempts.length_le
    unfold runLimit at hle
    omega
  · rw [h.dead, Exhausted, runLimit]
    exact or_congr_right ⟨fun heq => by omega, fun heq => by omega⟩

/-- A task whose handler has not been run. -/
theorem follows_new
    {t : Task}
    (hstate : t.state = .scheduled ∨ t.state = .pending)
    (hexpires : t.expiresAt = zeroTime)
    (hcount : t.retryCount = 0)
    (herror : t.lastError = "") :
    Follows [] 0 t t where
  maxRetries := rfl
  expiresAt := hexpires
  attempts := .start
  completed := by
    rcases hstate with hst | hst <;> simp [hst]
  dead := by
    have hpos : runLimit t.maxRetries ≠ 0 := by
      unfold runLimit
      omega
    rcases hstate with hst | hst <;> simp [hst, Exhausted, failures, hpos.symm]
  letters := by
    rcases hstate with hst | hst <;> simp [hst]
  retryCount := hcount
  lastError := herror

/-- The task is moved from one queue to another. -/
theorem Follows.requeued
    {rs : List (Option HandlerError)} {letters : Nat} {t₀ t u : Task}
    (h : Follows rs letters t₀ t)
    (hstate : t.state = .scheduled ∨ t.state = .pending)
    (hstate' : u.state = .scheduled ∨ u.state = .pending)
    (hmax : u.maxRetries = t.maxRetries)
    (hexpires : u.expiresAt = t.expiresAt)
    (hcount : u.retryCount = t.retryCount)
    (herror : u.lastError = t.lastError) :
    Follows rs letters t₀ u := by
  have hc : t.state ≠ .completed ∧ u.state ≠ .completed := by
    rcases hstate with hst | hst <;> rcases hstate' with hst' | hst' <;> simp [hst, hst']
  have hd : t.state ≠ .dead ∧ u.state ≠ .dead := by
    rcases hstate with hst | hst <;> rcases hstate' with hst' | hst' <;> simp [hst, hst']
  refine ⟨hmax.trans h.maxRetries, hexpires.trans h.expiresAt, h.attempts, ?_, ?_, ?_,
    hcount.trans h.retryCount, herror.trans h.lastError⟩
  · exact iff_of_false hc.2 fun hmem => hc.1 (h.completed.mpr hmem)
  · exact iff_of_false hd.2 fun hex => hd.1 (h.dead.mpr hex)
  · rw [h.letters, if_neg hd.1, if_neg hd.2]

/-- The handler of a task in a queue may be run. -/
theorem Follows.mayTry
    {rs : List (Option HandlerError)} {letters : Nat} {t₀ t : Task}
    (h : Follows rs letters t₀ t)
    (hstate : t.state = .pending) :
    MayTry HandlerError.nonRetryable (runLimit t₀.maxRetries) rs := by
  refine h.attempts.mayTry ?_ ?_
  · intro hmem
    have hc := h.completed.mpr hmem
    rw [hstate] at hc
    cases hc
  · intro hex
    have hd := h.dead.mpr hex
    rw [hstate] at hd
    cases hd

theorem Follows.succeeded
    {rs : List (Option HandlerError)} {letters : Nat} {t₀ t : Task}
    (h : Follows rs letters t₀ t)
    (hstate : t.state = .pending)
    (now done : Time) :
    Follows (rs ++ [none]) letters t₀
      (Engine.completedAt done (Engine.runningFrom now t)) := by
  have hmay := h.mayTry hstate
  refine ⟨h.maxRetries, h.expiresAt, h.attempts.more hmay none, ?_, ?_, ?_, ?_, ?_⟩
  · exact iff_of_true rfl (List.mem_append_right _ List.mem_cons_self)
  · exact iff_of_false (by simp [Engine.completedAt]) hmay.success
  · rw [h.letters, hstate]
    rfl
  · rw [Lib.failures_success]
    exact h.retryCount
  · rw [Lib.failures_success]
    exact h.lastError

/-- The failure is the last one exactly if it exhausts the attempts. -/
theorem Follows.final_iff
    {rs : List (Option HandlerError)} {letters : Nat} {t₀ t : Task}
    (h : Follows rs letters t₀ t)
    (hstate : t.state = .pending)
    (err : HandlerError) :
    Engine.finalFailure t err = true ↔
      Exhausted HandlerError.nonRetryable (runLimit t₀.maxRetries) (rs ++ [some err]) := by
  have hmay := h.mayTry hstate
  have hcount := h.retryCount
  have hlen := (Lib.failures_of_retryable hmay.1).1
  have hlt := hmay.2
  rw [hmay.failure, Engine.finalFailure, Bool.or_eq_true, decide_eq_true_eq, h.maxRetries]
  refine or_congr_right ?_
  unfold runLimit at hlt ⊢
  omega

/-- The failures of the task after another one. -/
theorem Follows.failed
    {rs : List (Option HandlerError)} {letters letters' : Nat} {t₀ t u : Task}
    (h : Follows rs letters t₀ t)
    (hstate : t.state = .pending)
    (err : HandlerError)
    (hmax : u.maxRetries = t.maxRetries)
    (hexpires : u.expiresAt = t.expiresAt)
    (hcount : u.retryCount = t.retryCount + 1)
    (herror : u.lastError = err.text)
    (hu : (u.state = .dead ∧ Engine.finalFailure t err = true) ∨
      (u.state = .scheduled ∧ Engine.finalFailure t err = false))
    (hletters : letters' = if u.state = .dead then 1 else 0) :
    Follows (rs ++ [some err]) letters' t₀ u := by
  have hmay := h.mayTry hstate
  have hfinal := h.final_iff hstate err
  refine ⟨hmax.trans h.maxRetries, hexpires.trans h.expiresAt,
    h.attempts.more hmay (some err), ?_, ?_, hletters, ?_, ?_⟩
  · have hnone : none ∉ rs ++ [some err] := by
      simpa using hmay.not_success
    rcases hu with ⟨hst, -⟩ | ⟨hst, -⟩
    all_goals
      exact iff_of_false (by simp [hst]) hnone
  · rw [← hfinal]
    rcases hu with ⟨hst, hf⟩ | ⟨hst, hf⟩
    · exact iff_of_true hst hf
    · exact iff_of_false (by simp [hst]) (by simp [hf])
  · rw [hcount, h.retryCount, Lib.failures_failure, List.length_append, List.length_singleton]
    push_cast
    rfl
  · rw [herror, Lib.failures_failure, List.getLast?_concat]
    rfl

/-- The places of a task that the engine will still run. -/
inductive Station
  | buffer
  | heap
  | ready
  | entering
  | placing
deriving DecidableEq, Repr

/-- The tasks in a place. -/
def stations (s : Process) : Station → List TaskID
  | .buffer => s.engine.buffer.contents
  | .heap => s.engine.heap.inner
  | .ready => s.ready
  | .entering => s.entering
  | .placing => s.placing

/-- The states of the tasks in a place. -/
def Station.states : Station → List TaskState
  | .buffer => [.pending]
  | .heap => [.scheduled]
  | .ready => [.pending]
  | .entering => [.scheduled, .pending]
  | .placing => [.scheduled, .pending]

/-- A task with this state may be in the place. -/
def Station.Allows (p : Station) (_ : TaskID) (state : Option TaskState) : Prop :=
  ∃ x ∈ p.states, state = some x

/-- A submitted task is registered, and its results explain what has become of it. -/
def Explained (s : Process) (t₀ : Task) : Prop :=
  ∃ t, s.engine.tasks.get t₀.id = some t ∧
    Follows (s.resultsOf t₀.id) (s.engine.dlq.count t₀.id) t₀ t

/-- The invariant of the process. -/
structure Tended (s : Process) : Prop where
  exclusive : Exclusive s.stations
  states : Consistent s.stations s.engine.stateOf Station.Allows
  named : Engine.Named s.issued s.engine
  lettered : ∀ id ∈ s.engine.dlq, id ∈ s.issued
  tried : ∀ id, s.resultsOf id ≠ [] → id ∈ s.issued
  explained : ∀ t₀ ∈ s.submitted, s.Explained t₀

/-- A task in a place is registered. -/
theorem Tended.registered
    {s : Process}
    (h : Tended s)
    {p : Station} {id : TaskID}
    (hid : id ∈ s.stations p) :
    ∃ t, s.engine.tasks.get id = some t ∧ t.state ∈ p.states := by
  obtain ⟨x, hx, hstate⟩ := h.states p id hid
  rw [Engine.stateOf] at hstate
  obtain ⟨t, ht, rfl⟩ := Option.map_eq_some_iff.mp hstate
  exact ⟨t, ht, hx⟩

theorem Tended.waiting
    {p : Station} {x : TaskState}
    (hx : x ∈ p.states) :
    x = .scheduled ∨ x = .pending := by
  cases p <;> simp [Station.states] at hx <;> simp [hx]

/-- A task of a place is in no other. -/
theorem Tended.mem_iff
    {s : Process}
    (h : Tended s)
    {p : Station} {id : TaskID}
    (hid : id ∈ s.stations p)
    (q : Station) :
    id ∈ s.stations q ↔ some p = some q := by
  constructor
  · intro hq
    rw [h.exclusive.unique hid hq]
  · intro hpq
    rw [← Option.some.inj hpq]
    exact hid

/-- An ID that is not in use occurs nowhere. -/
theorem Tended.unused
    {s : Process}
    (h : Tended s)
    {id : TaskID}
    (hid : id ∉ s.issued) :
    s.engine.tasks.get id = none ∧ (∀ p, id ∉ s.stations p) ∧ s.resultsOf id = [] ∧
      s.engine.dlq.count id = 0 := by
  refine ⟨?_, ?_, ?_, ?_⟩
  · exact h.named.get_eq_none hid
  · intro p hp
    obtain ⟨t, ht, -⟩ := h.registered hp
    exact hid (h.named id t ht).2
  · by_contra hne
    exact hid (h.tried id hne)
  · exact List.count_eq_zero.mpr fun hmem => hid (h.lettered id hmem)

/-- A task that a step has nothing to do with. -/
structure Untouched (s s' : Process) (j : TaskID) : Prop where
  task : s'.engine.tasks.get j = s.engine.tasks.get j
  results : s'.resultsOf j = s.resultsOf j
  letters : s'.engine.dlq.count j = s.engine.dlq.count j

theorem Untouched.explained
    {s s' : Process} {t₀ : Task}
    (hu : Untouched s s' t₀.id)
    (h : s.Explained t₀) :
    s'.Explained t₀ := by
  unfold Explained
  rw [hu.task, hu.results, hu.letters]
  exact h

/-- A step that touches one task and takes it from one place to another. -/
theorem Tended.relocated
    {s s' : Process}
    (h : Tended s)
    (id : TaskID) (src dst : Option Station)
    (hsrc : ∀ p, id ∈ s.stations p ↔ src = some p)
    (hne : ∀ p, src = some p → dst ≠ some p)
    (hmove : Relocated id src dst s.stations s'.stations)
    (hother : ∀ j, j ≠ id → Untouched s s' j)
    (hdst : ∀ p, dst = some p → p.Allows id (s'.engine.stateOf id))
    (hname : ∀ t, s'.engine.tasks.get id = some t → t.id = id)
    (hissued : s.issued ⊆ s'.issued)
    (hid : id ∈ s'.issued)
    (hsubmitted : ∀ t₀ ∈ s'.submitted, t₀.id ≠ id → t₀ ∈ s.submitted)
    (hself : ∀ t₀ ∈ s'.submitted, t₀.id = id → s'.Explained t₀) :
    Tended s' := by
  refine ⟨hmove.exclusive h.exclusive hsrc hne, ?_, ?_, ?_, ?_, ?_⟩
  · refine h.states.single id ?_ ?_ ?_
    · intro j hj
      rw [Engine.stateOf, (hother j hj).task, Engine.stateOf]
    · intro p j hp hj
      exact (hmove.mem_iff hj p).mp hp
    · intro p hp
      exact hdst p ((hmove.self_mem_iff h.exclusive hsrc hne p).mp hp)
  · intro j t ht
    by_cases hj : j = id
    · subst hj
      exact ⟨hname t ht, hid⟩
    · rw [(hother j hj).task] at ht
      exact ⟨(h.named j t ht).1, hissued (h.named j t ht).2⟩
  · intro j hmem
    by_cases hj : j = id
    · subst hj
      exact hid
    · rw [← List.count_pos_iff, (hother j hj).letters, List.count_pos_iff] at hmem
      exact hissued (h.lettered j hmem)
  · intro j hres
    by_cases hj : j = id
    · subst hj
      exact hid
    · rw [(hother j hj).results] at hres
      exact hissued (h.tried j hres)
  · intro t₀ ht₀
    by_cases hj : t₀.id = id
    · exact hself t₀ ht₀ hj
    · exact (hother t₀.id hj).explained (h.explained t₀ (hsubmitted t₀ ht₀ hj))

/-- A task of a place goes to another place, with its state fitting there. -/
theorem Tended.requeued
    {s s' : Process} {id : TaskID} {p q : Station} {t u : Task}
    (h : Tended s)
    (hid : id ∈ s.stations p)
    (hpq : p ≠ q)
    (hmove : Relocated id (some p) (some q) s.stations s'.stations)
    (hget : s.engine.tasks.get id = some t)
    (hget' : s'.engine.tasks.get id = some u)
    (hother : ∀ j, j ≠ id → s'.engine.tasks.get j = s.engine.tasks.get j)
    (hstate : u.state ∈ q.states)
    (hsame : u.id = t.id ∧ u.maxRetries = t.maxRetries ∧ u.expiresAt = t.expiresAt ∧
      u.retryCount = t.retryCount ∧ u.lastError = t.lastError)
    (hresults : s'.results = s.results)
    (hdlq : s'.engine.dlq = s.engine.dlq)
    (hissued : s'.issued = s.issued)
    (hsubmitted : s'.submitted = s.submitted) :
    Tended s' := by
  obtain ⟨hname, hmax, hexpires, hcount, herror⟩ := hsame
  have hof : ∀ j, s'.resultsOf j = s.resultsOf j := by
    intro j
    rw [resultsOf, hresults, resultsOf]
  obtain ⟨t₁, ht₁, hst⟩ := h.registered hid
  rw [hget] at ht₁
  cases ht₁
  refine h.relocated id (some p) (some q) (h.mem_iff hid) ?_ hmove ?_ ?_ ?_ ?_ ?_ ?_ ?_
  · rintro r hr hqr
    exact hpq (Option.some.inj (hr.trans hqr.symm))
  · intro j hj
    exact ⟨hother j hj, hof j, by rw [hdlq]⟩
  · intro r hr
    rw [← Option.some.inj hr, Engine.stateOf, hget']
    exact ⟨u.state, hstate, rfl⟩
  · intro u' hu'
    rw [hget'] at hu'
    cases hu'
    exact hname.trans (h.named id t hget).1
  · rw [hissued]
    exact fun _ hj => hj
  · rw [hissued]
    exact (h.named id t hget).2
  · rw [hsubmitted]
    exact fun t₀ ht₀ _ => ht₀
  · rw [hsubmitted]
    intro t₀ ht₀ hj
    obtain ⟨t₁, ht₁, hfollows⟩ := h.explained t₀ ht₀
    rw [hj, hget] at ht₁
    cases ht₁
    refine ⟨u, by rw [hj]; exact hget', ?_⟩
    rw [hof, hdlq]
    exact hfollows.requeued (Tended.waiting hst) (Tended.waiting hstate) hmax hexpires hcount
      herror

theorem register_tended
    {s s' : Process} {request : Request} {generatedID : TaskID} {now : Time}
    (h : Tended s)
    (hstep : s.register request generatedID now = some s') :
    Tended s' := by
  unfold register at hstep
  dsimp only at hstep
  split_ifs at hstep with hcond
  rw [not_or] at hcond
  rw [Option.some.injEq] at hstep
  have hstate := Engine.prepare_state s.engine request.task generatedID now
  have hfields : let t := s.engine.prepare request.task generatedID now
      t.expiresAt = zeroTime ∧ t.retryCount = 0 ∧ t.lastError = "" := by
    unfold Engine.prepare Engine.withInitialState
    split_ifs <;> exact ⟨rfl, rfl, rfl⟩
  generalize s.engine.prepare request.task generatedID now = t at hcond hstate hfields hstep
  obtain ⟨hexpires, hcount, herror⟩ := hfields
  obtain ⟨-, hnowhere, hnoresults, hnoletters⟩ := h.unused hcond.1
  subst hstep
  refine h.relocated t.id none (some .entering) ?_ ?_ ?_ ?_ ?_ ?_ ?_ ?_ ?_ ?_
  · intro p
    exact iff_of_false (hnowhere p) (by simp)
  · intro p hp
    cases hp
  · intro r
    cases r <;> exact List.Perm.refl _
  · intro j hj
    refine ⟨?_, rfl, rfl⟩
    show (s.engine.register t).tasks.get j = _
    rw [Engine.get_register, if_neg hj]
  · intro p hp
    cases hp
    exact ⟨t.state, by simpa [Station.states] using hstate, Engine.stateOf_register_self _ t⟩
  · intro t₁ ht₁
    change (s.engine.register t).tasks.get t.id = some t₁ at ht₁
    rw [Engine.get_register, if_pos rfl] at ht₁
    cases ht₁
    rfl
  · exact List.subset_cons_self _ _
  · exact List.mem_cons_self
  · intro t₀ ht₀ hj
    refine (List.mem_cons.mp ht₀).resolve_left ?_
    rintro rfl
    exact hj rfl
  · intro t₀ ht₀ hj
    have hnew : t₀ = t := by
      refine (List.mem_cons.mp ht₀).resolve_right ?_
      intro hold
      obtain ⟨t₁, ht₁, -⟩ := h.explained t₀ hold
      exact hcond.1 (hj ▸ (h.named t₀.id t₁ ht₁).2)
    subst hnew
    refine ⟨t₀, ?_, ?_⟩
    · show (s.engine.register t₀).tasks.get t₀.id = some t₀
      rw [Engine.get_register, if_pos rfl]
    · show Follows (s.resultsOf t₀.id) (s.engine.dlq.count t₀.id) t₀ t₀
      rw [hnoresults, hnoletters]
      exact follows_new hstate hexpires hcount herror

/-- A `Submit` that fails before its task is logged. -/
theorem Tended.takenBack
    {s s' : Process} {id : TaskID} {t : Task}
    (h : Tended s)
    (hin : id ∈ s.entering)
    (hget : s.engine.tasks.get id = some t)
    (htasks : s'.engine.tasks = s.engine.tasks.delete t.id)
    (hdlq : s'.engine.dlq = s.engine.dlq)
    (hbuffer : s'.engine.buffer = s.engine.buffer)
    (hheap : s'.engine.heap = s.engine.heap)
    (hentering : s'.entering = s.entering.erase id)
    (hrest : (s'.ready, s'.placing, s'.issued, s'.results) =
      (s.ready, s.placing, s.issued, s.results))
    (hsubmitted : s'.submitted = s.submitted.filter fun t₀ => decide (t₀.id ≠ id)) :
    Tended s' := by
  simp only [Prod.mk.injEq] at hrest
  obtain ⟨hready, hplacing, hissued, hresults⟩ := hrest
  have hname : t.id = id := (h.named id t hget).1
  have hdelete : ∀ j, s'.engine.tasks.get j =
      if j = id then none else s.engine.tasks.get j := by
    intro j
    rw [htasks, hname, GoMap.get_delete]
  refine h.relocated id (some .entering) none (h.mem_iff (p := .entering) hin) ?_ ?_ ?_ ?_ ?_
    ?_ ?_ ?_ ?_
  · intro p _ hp
    cases hp
  · intro r
    cases r
    case buffer =>
      simp [stations, hbuffer]
    case heap =>
      simp [stations, hheap]
    case ready =>
      simp [stations, hready]
    case entering =>
      simpa [stations, hentering] using (List.perm_cons_erase hin).symm
    case placing =>
      simp [stations, hplacing]
  · intro j hj
    refine ⟨?_, ?_, by rw [hdlq]⟩
    · rw [hdelete, if_neg hj]
    · rw [resultsOf, hresults, resultsOf]
  · intro p hp
    cases hp
  · intro t₁ ht₁
    rw [hdelete, if_pos rfl] at ht₁
    cases ht₁
  · rw [hissued]
    exact fun _ hj => hj
  · rw [hissued]
    exact (h.named id t hget).2
  · rw [hsubmitted]
    exact fun t₀ ht₀ _ => List.mem_of_mem_filter ht₀
  · rw [hsubmitted]
    intro t₀ ht₀ hj
    exact absurd hj (by simpa using (List.mem_filter.mp ht₀).2)

/-- The record is written, or the task is taken back. -/
theorem log_tended
    {s s' : Process} {id : TaskID} {io : LogEnv}
    (h : Tended s)
    (hstep : s.log id io = some s') :
    Tended s' := by
  unfold log at hstep
  cases hget : s.engine.tasks.get id with
  | none =>
      simp [hget] at hstep
  | some t =>
      simp only [hget] at hstep
      split_ifs at hstep with hin
      rcases s.engine.logSubmit_cases s.disk t io with
        ⟨-, w, err, -, hlog⟩ | ⟨-, -, w, err, -, hlog⟩ | ⟨-, -, hlog⟩
      · rw [hlog] at hstep
        cases hstep
        exact h.takenBack hin hget rfl rfl rfl rfl rfl rfl rfl
      · rw [hlog] at hstep
        cases hstep
        exact h.takenBack hin hget rfl rfl rfl rfl rfl rfl rfl
      · rw [hlog] at hstep
        cases hstep
        refine h.requeued (p := .entering) (q := .placing) hin (by simp) ?_ hget hget
          (fun _ _ => rfl) ?_ ⟨rfl, rfl, rfl, rfl, rfl⟩ rfl rfl rfl rfl
        · intro r
          cases r
          case entering =>
            exact (List.perm_cons_erase hin).symm
          all_goals
            exact List.Perm.refl _
        · obtain ⟨t₁, ht₁, hst⟩ := h.registered (p := .entering) hin
          rw [hget] at ht₁
          cases ht₁
          exact hst

/-- A task leaves its place for good, and stays as it is. -/
theorem Tended.dropped
    {s s' : Process} {id : TaskID} {p : Station}
    (h : Tended s)
    (hid : id ∈ s.stations p)
    (hmove : Relocated id (some p) none s.stations s'.stations)
    (htasks : s'.engine.tasks = s.engine.tasks)
    (hresults : s'.results = s.results)
    (hdlq : s'.engine.dlq = s.engine.dlq)
    (hissued : s'.issued = s.issued)
    (hsubmitted : s'.submitted = s.submitted) :
    Tended s' := by
  obtain ⟨t, hget, -⟩ := h.registered hid
  have hsame : ∀ j, Untouched s s' j := by
    intro j
    refine ⟨by rw [htasks], ?_, by rw [hdlq]⟩
    rw [resultsOf, hresults, resultsOf]
  refine h.relocated id (some p) none (h.mem_iff hid) ?_ hmove (fun j _ => hsame j) ?_ ?_ ?_ ?_
    ?_ ?_
  · intro r _ hr
    cases hr
  · intro r hr
    cases hr
  · intro u hu
    rw [htasks] at hu
    exact (h.named id u hu).1
  · rw [hissued]
    exact fun _ hj => hj
  · rw [hissued]
    exact (h.named id t hget).2
  · rw [hsubmitted]
    exact fun t₀ ht₀ _ => ht₀
  · rw [hsubmitted]
    exact fun t₀ ht₀ _ => (hsame t₀.id).explained (h.explained t₀ ht₀)

theorem contents_perm_of_enqueue
    {rb rb' : RingBuffer TaskID} {id : TaskID}
    (henq : rb.enqueue id = .done rb') :
    rb'.contents.Perm (id :: rb.contents) := by
  rw [(RingBuffer.enqueue_done henq).1]
  exact List.perm_append_singleton id _

/-- The task is put on the heap or in the buffer, or turned away. -/
theorem place_tended
    {s s' : Process} {id : TaskID}
    (h : Tended s)
    (hstep : s.place id = some s') :
    Tended s' := by
  unfold place at hstep
  cases hstate : s.engine.stateOf id with
  | none =>
      simp [hstate] at hstep
  | some x =>
      simp only [hstate] at hstep
      split_ifs at hstep with hin
      obtain ⟨t, hget, hst⟩ := h.registered (p := .placing) hin
      have hx : t.state = x := by
        rwa [Engine.stateOf, hget, Option.map_some, Option.some.injEq] at hstate
      have herase := (List.perm_cons_erase hin).symm
      unfold Engine.tryPlace at hstep
      rcases Engine.place_cases s.engine id x with
        ⟨hs, hplace⟩ | ⟨hs, rb, henq, hplace⟩ | ⟨-, err, hplace⟩ | ⟨-, hplace⟩
      · rw [hplace] at hstep
        cases hstep
        refine h.requeued (p := .placing) (q := .heap) hin (by simp) ?_ hget hget
          (fun _ _ => rfl) ?_ ⟨rfl, rfl, rfl, rfl, rfl⟩ rfl rfl rfl rfl
        · intro r
          cases r
          case heap =>
            exact Engine.pushHeap_perm s.engine id
          case placing =>
            exact herase
          all_goals
            exact List.Perm.refl _
        · rw [hx, hs]
          exact List.mem_cons_self
      · rw [hplace] at hstep
        cases hstep
        refine h.requeued (p := .placing) (q := .buffer) hin (by simp) ?_ hget hget
          (fun _ _ => rfl) ?_ ⟨rfl, rfl, rfl, rfl, rfl⟩ rfl rfl rfl rfl
        · intro r
          cases r
          case buffer =>
            exact contents_perm_of_enqueue henq
          case placing =>
            exact herase
          all_goals
            exact List.Perm.refl _
        · rcases Tended.waiting hst with hsched | hpend
          · exact absurd (hx.symm.trans hsched) hs
          · rw [hpend]
            exact List.mem_cons_self
      · rw [hplace] at hstep
        cases hstep
        refine h.dropped (p := .placing) hin ?_ rfl rfl rfl rfl rfl
        intro r
        cases r
        case placing =>
          exact herase
        all_goals
          exact List.Perm.refl _
      · rw [hplace] at hstep
        cases hstep

/-- The scheduler takes what is due from the heap. -/
theorem promote_tended
    {s s' : Process} {now : Time}
    (h : Tended s)
    (hstep : s.promote now = some s') :
    Tended s' := by
  obtain ⟨p, hp, rfl⟩ := Option.map_eq_some_iff.mp hstep
  obtain ⟨hready, rfl⟩ := Engine.promoteNext_some hp
  have hprom := (Engine.promoteReady_promoted s.engine now).perm
  have hget := Engine.get_promoteReady s.engine now
  have hheap : ∀ j ∈ (s.engine.promoteReady now).1, j ∈ s.engine.heap.inner := fun j hj =>
    hprom.mem_iff.mp (List.mem_append_left _ hj)
  have hnot : ∀ p, p ≠ .heap → ∀ j ∈ s.stations p, j ∉ (s.engine.promoteReady now).1 :=
    fun p hp j hj hmem => hp (h.exclusive.unique hj (hheap j hmem))
  have hex : Exclusive (stations { s with
      engine := (s.engine.promoteReady now).2, ready := (s.engine.promoteReady now).1 }) := by
    refine h.exclusive.transfer (p := .heap) (q := .ready) (s.engine.promoteReady now).1
      (by simp) hprom ?_ ?_
    · show (s.engine.promoteReady now).1.Perm ((s.engine.promoteReady now).1 ++ s.ready)
      rw [hready, List.append_nil]
    · intro r hr hr'
      cases r
      case heap =>
        exact absurd rfl hr
      case ready =>
        exact absurd rfl hr'
      all_goals
        rfl
  refine ⟨hex, ?_, ?_, h.lettered, h.tried, ?_⟩
  · intro p j hj
    have hold : j ∉ (s.engine.promoteReady now).1 → j ∈ s.stations p →
        p.Allows j ((s.engine.promoteReady now).2.stateOf j) := by
      intro hnotin hmem
      rw [Engine.stateOf, hget j, if_neg hnotin]
      exact h.states p j hmem
    cases p
    case heap =>
      refine hold (fun hmem => ?_) (hprom.mem_iff.mp (List.mem_append_right _ hj))
      exact absurd (hex.unique (p := .ready) (q := .heap) hmem hj) (by simp)
    case ready =>
      change j ∈ (s.engine.promoteReady now).1 at hj
      obtain ⟨t, ht, -⟩ := h.registered (p := .heap) (hheap j hj)
      refine ⟨.pending, List.mem_cons_self, ?_⟩
      show (s.engine.promoteReady now).2.stateOf j = some .pending
      rw [Engine.stateOf, hget j, if_pos hj, ht]
      rfl
    case buffer =>
      exact hold (hnot .buffer (by simp) j hj) hj
    case entering =>
      exact hold (hnot .entering (by simp) j hj) hj
    case placing =>
      exact hold (hnot .placing (by simp) j hj) hj
  · exact (Engine.sameTasks_promoteReady s.engine now).named h.named
  · intro t₀ ht₀
    obtain ⟨t, ht, hfollows⟩ := h.explained t₀ ht₀
    by_cases hmem : t₀.id ∈ (s.engine.promoteReady now).1
    · obtain ⟨t₁, ht₁, hst⟩ := h.registered (p := .heap) (hheap _ hmem)
      rw [ht] at ht₁
      cases ht₁
      refine ⟨t.forceSetState .pending, ?_, ?_⟩
      · show (s.engine.promoteReady now).2.tasks.get t₀.id = _
        rw [hget, if_pos hmem, ht]
        rfl
      · exact hfollows.requeued (Tended.waiting hst) (Or.inr rfl) rfl rfl rfl rfl
    · refine ⟨t, ?_, hfollows⟩
      show (s.engine.promoteReady now).2.tasks.get t₀.id = _
      rw [hget, if_neg hmem]
      exact ht

/-- A ready task goes to the buffer or back to the heap; only another's can be expired. -/
theorem schedule_tended
    {s s' : Process} {now later : Time}
    (h : Tended s)
    (hstep : s.schedule now later = some s') :
    Tended s' := by
  obtain ⟨⟨e, rest⟩, hp, rfl⟩ := Option.map_eq_some_iff.mp hstep
  obtain ⟨id, hready, he⟩ := Engine.scheduleNext_some hp
  have hin : id ∈ s.stations .ready := by
    rw [stations, hready]
    exact List.mem_cons_self
  have hpop : (id :: rest).Perm s.ready := by
    rw [hready]
  obtain ⟨t, hget, hst⟩ := h.registered hin
  have hpending : t.state = .pending := by
    simpa [Station.states] using hst
  rcases Engine.scheduleReady_cases hget he with
    ⟨hc, -⟩ | ⟨-, hexpired, rfl⟩ | ⟨-, rb, henq, rfl⟩ | ⟨-, rfl⟩
  · rw [hpending] at hc
    cases hc
  · refine h.relocated id (some .ready) none (h.mem_iff hin) ?_ ?_ ?_ ?_ ?_
      (fun _ hj => hj) (h.named id t hget).2 (fun t₀ ht₀ _ => ht₀) ?_
    · intro r _ hr
      cases hr
    · intro r
      cases r
      case ready =>
        exact hpop
      all_goals
        exact List.Perm.refl _
    · intro j hj
      refine ⟨?_, rfl, rfl⟩
      exact GoMap.get_modify_of_ne _ _ hj
    · intro r hr
      cases hr
    · intro u hu
      rw [Engine.get_updateTask_self, hget] at hu
      cases hu
      exact (h.named id t hget).1
    · intro t₀ ht₀ hj
      obtain ⟨t₁, ht₁, hfollows⟩ := h.explained t₀ ht₀
      rw [hj, hget] at ht₁
      cases ht₁
      simp [Engine.expired, hfollows.expiresAt] at hexpired
  · refine h.requeued (p := .ready) (q := .buffer) hin (by simp) ?_ hget hget
      (fun _ _ => rfl) hst ⟨rfl, rfl, rfl, rfl, rfl⟩ rfl rfl rfl rfl
    intro r
    cases r
    case buffer =>
      exact contents_perm_of_enqueue henq
    case ready =>
      exact hpop
    all_goals
      exact List.Perm.refl _
  · have hget' : (s.engine.updateTask id
        (Engine.postponedTo (later + 100000000))).tasks.get id =
        some (Engine.postponedTo (later + 100000000) t) := by
      rw [Engine.get_updateTask_self, hget]
      rfl
    refine h.requeued (p := .ready) (q := .heap) hin (by simp) ?_ hget hget'
      (fun j hj => ?_) List.mem_cons_self ⟨rfl, rfl, rfl, rfl, rfl⟩ rfl rfl rfl rfl
    · intro r
      cases r
      case heap =>
        exact Engine.pushHeap_perm _ id
      case ready =>
        exact hpop
      all_goals
        exact List.Perm.refl _
    · exact GoMap.get_modify_of_ne _ _ hj

/-- What every iteration of a worker does, whatever the handler returns. -/
structure Ran (s s' : Process) (id : TaskID) (rb : RingBuffer TaskID)
    (result : Option HandlerError) : Prop where
  dequeued : s.engine.buffer.dequeue = .done id rb
  buffer : s'.engine.buffer = rb
  results : s'.results = s.results ++ [(id, result)]
  ready : s'.ready = s.ready
  entering : s'.entering = s.entering
  placing : s'.placing = s.placing
  issued : s'.issued = s.issued
  submitted : s'.submitted = s.submitted
  others : ∀ j, j ≠ id → s'.engine.tasks.get j = s.engine.tasks.get j

/-- The three ends of an iteration of a worker. -/
theorem iterate_cases
    {s s' : Process} {now done : Time} {io io' : LogEnv} {result : Option HandlerError}
    {delay : Duration}
    (h : Tended s)
    (hstep : s.iterate now io result done delay io' = some s') :
    ∃ id rb t, Ran s s' id rb result ∧ s.engine.tasks.get id = some t ∧
      ((result = none ∧
          s'.engine.tasks.get id =
            some (Engine.completedAt done (Engine.runningFrom now t)) ∧
          s'.engine.heap = s.engine.heap ∧ s'.engine.dlq = s.engine.dlq) ∨
        (∃ err, result = some err ∧ Engine.finalFailure t err = true ∧
          s'.engine.tasks.get id =
            some (Engine.deadAt err done (Engine.runningFrom now t)) ∧
          s'.engine.heap = s.engine.heap ∧ s'.engine.dlq = s.engine.dlq ++ [id]) ∨
        (∃ err, result = some err ∧ Engine.finalFailure t err = false ∧
          s'.engine.tasks.get id =
            some (Engine.retriedAt err (done + delay) (Engine.runningFrom now t)) ∧
          s'.engine.heap.inner.Perm (id :: s.engine.heap.inner) ∧
          s'.engine.dlq = s.engine.dlq)) := by
  unfold iterate at hstep
  cases hstart : s.engine.startTask s.disk now io with
  | none =>
      simp [hstart] at hstep
  | some r =>
      obtain ⟨id, e, d⟩ := r
      simp only [hstart, Option.some.injEq] at hstep
      obtain ⟨rb, hdeq, he, -⟩ := Engine.startTask_some hstart
      have hfront : id ∈ s.stations .buffer := by
        rw [stations, (RingBuffer.dequeue_done hdeq).1]
        exact List.mem_cons_self
      obtain ⟨t, hget, -⟩ := h.registered hfront
      have hget' : e.tasks.get id = some (Engine.runningFrom now t) := by
        rw [he, Engine.append_tasks, Engine.get_updateTask_self]
        show (s.engine.tasks.get id).map _ = _
        rw [hget]
        rfl
      have hframe : e.buffer = rb ∧ e.heap = s.engine.heap ∧ e.dlq = s.engine.dlq ∧
          ∀ j, j ≠ id → e.tasks.get j = s.engine.tasks.get j := by
        rw [he]
        exact ⟨rfl, rfl, rfl, fun j hj => GoMap.get_modify_of_ne _ _ hj⟩
      obtain ⟨hbuffer, hheap, hdlq, hother⟩ := hframe
      have hself : ∀ f : Task → Task, (e.updateTask id f).tasks.get id =
          some (f (Engine.runningFrom now t)) := by
        intro f
        rw [Engine.get_updateTask_self, hget']
        rfl
      have hothers : ∀ (f : Task → Task) (j : TaskID), j ≠ id →
          (e.updateTask id f).tasks.get j = s.engine.tasks.get j := fun f j hj =>
        (GoMap.get_modify_of_ne _ _ hj).trans (hother j hj)
      refine ⟨id, rb, t, ?_⟩
      subst hstep
      rcases Engine.finishTask_cases hget' d result done delay io' with
        ⟨hr, hfin⟩ | ⟨err, hr, hfinal, hfin⟩ | ⟨err, hr, hfinal, hfin⟩
      · rw [hfin]
        exact ⟨⟨hdeq, hbuffer, rfl, rfl, rfl, rfl, rfl, rfl, hothers _⟩, hget,
          Or.inl ⟨hr, hself _, hheap, hdlq⟩⟩
      · rw [hfin]
        refine ⟨⟨hdeq, hbuffer, rfl, rfl, rfl, rfl, rfl, rfl, hothers _⟩, hget,
          Or.inr (Or.inl ⟨err, hr, hfinal, hself _, hheap, ?_⟩)⟩
        show e.dlq ++ [id] = _
        rw [hdlq]
      · rw [hfin]
        refine ⟨⟨hdeq, hbuffer, rfl, rfl, rfl, rfl, rfl, rfl, hothers _⟩, hget,
          Or.inr (Or.inr ⟨err, hr, hfinal, hself _, ?_, hdlq⟩)⟩
        rw [← hheap]
        exact Engine.pushHeap_perm _ id

theorem Ran.mem_buffer
    {s s' : Process} {id : TaskID} {rb : RingBuffer TaskID} {result : Option HandlerError}
    (hran : Ran s s' id rb result) :
    id ∈ s.stations .buffer := by
  rw [stations, (RingBuffer.dequeue_done hran.dequeued).1]
  exact List.mem_cons_self

theorem Ran.resultsOf
    {s s' : Process} {id : TaskID} {rb : RingBuffer TaskID} {result : Option HandlerError}
    (hran : Ran s s' id rb result)
    (j : TaskID) :
    s'.resultsOf j = if j = id then s.resultsOf j ++ [result] else s.resultsOf j := by
  unfold Process.resultsOf
  rw [hran.results]
  split_ifs with hj
  · simp [hj]
  · simp [Ne.symm hj]

/-- The task leaves the buffer, for the heap if it is retried, and follows the result. -/
theorem Ran.tended
    {s s' : Process} {id : TaskID} {rb : RingBuffer TaskID} {result : Option HandlerError}
    {t u : Task}
    (hran : Ran s s' id rb result)
    (retried : Bool)
    (h : Tended s)
    (hget : s.engine.tasks.get id = some t)
    (hget' : s'.engine.tasks.get id = some u)
    (hname : u.id = t.id)
    (hheap : s'.engine.heap.inner.Perm
      (if retried then id :: s.engine.heap.inner else s.engine.heap.inner))
    (hstate : retried = true → u.state = .scheduled)
    (hletters : ∀ j, j ≠ id → s'.engine.dlq.count j = s.engine.dlq.count j)
    (hfollows : ∀ t₀, Follows (s.resultsOf id) (s.engine.dlq.count id) t₀ t →
      Follows (s.resultsOf id ++ [result]) (s'.engine.dlq.count id) t₀ u) :
    Tended s' := by
  have hin := hran.mem_buffer
  refine h.relocated id (some .buffer) (if retried then some .heap else none)
    (h.mem_iff hin) ?_ ?_ ?_ ?_ ?_ ?_ ?_ ?_ ?_
  · intro p hp
    cases hp
    split_ifs <;> simp
  · intro r
    cases r
    case buffer =>
      have hcontents := (RingBuffer.dequeue_done hran.dequeued).1
      cases retried <;> simp [stations, hran.buffer, hcontents]
    case heap =>
      cases retried <;> simpa [stations] using hheap
    case ready =>
      cases retried <;> simp [stations, hran.ready]
    case entering =>
      cases retried <;> simp [stations, hran.entering]
    case placing =>
      cases retried <;> simp [stations, hran.placing]
  · intro j hj
    refine ⟨hran.others j hj, ?_, hletters j hj⟩
    rw [hran.resultsOf, if_neg hj]
  · intro p hp
    split_ifs at hp with hretried
    cases hp
    refine ⟨.scheduled, List.mem_cons_self, ?_⟩
    rw [Engine.stateOf, hget', Option.map_some, hstate hretried]
  · intro u' hu'
    rw [hget'] at hu'
    cases hu'
    exact hname.trans (h.named id t hget).1
  · rw [hran.issued]
    exact fun _ hj => hj
  · rw [hran.issued]
    exact (h.named id t hget).2
  · rw [hran.submitted]
    exact fun t₀ ht₀ _ => ht₀
  · rw [hran.submitted]
    intro t₀ ht₀ hj
    obtain ⟨t₁, ht₁, hfollows₁⟩ := h.explained t₀ ht₀
    rw [hj] at ht₁ hfollows₁
    rw [hget] at ht₁
    cases ht₁
    refine ⟨u, by rw [hj]; exact hget', ?_⟩
    rw [hj, hran.resultsOf, if_pos rfl]
    exact hfollows t₀ hfollows₁

theorem iterate_tended
    {s s' : Process} {now done : Time} {io io' : LogEnv} {result : Option HandlerError}
    {delay : Duration}
    (h : Tended s)
    (hstep : s.iterate now io result done delay io' = some s') :
    Tended s' := by
  obtain ⟨id, rb, t, hran, hget, hcases⟩ := iterate_cases h hstep
  have hpending : t.state = .pending := by
    obtain ⟨t₁, ht₁, hst⟩ := h.registered hran.mem_buffer
    rw [hget] at ht₁
    cases ht₁
    simpa [Station.states] using hst
  rcases hcases with ⟨rfl, hget', hheap, hdlq⟩ | ⟨err, rfl, hfinal, hget', hheap, hdlq⟩ |
    ⟨err, rfl, hfinal, hget', hheap, hdlq⟩
  · refine hran.tended false h hget hget' rfl ?_ ?_ (fun j _ => by rw [hdlq]) ?_
    · rw [hheap]
      exact List.Perm.refl _
    · intro hretried
      cases hretried
    · intro t₀ hfollows
      rw [hdlq]
      exact hfollows.succeeded hpending now done
  · refine hran.tended false h hget hget' rfl ?_ ?_ ?_ ?_
    · rw [hheap]
      exact List.Perm.refl _
    · intro hretried
      cases hretried
    · intro j hj
      rw [hdlq, List.count_append, List.count_singleton]
      simp [Ne.symm hj]
    · intro t₀ hfollows
      refine hfollows.failed hpending err rfl rfl rfl rfl (Or.inl ⟨rfl, hfinal⟩) ?_
      rw [hdlq, List.count_append, hfollows.letters, hpending]
      simp [Engine.deadAt]
  · refine hran.tended true h hget hget' rfl hheap (fun _ => rfl)
      (fun j _ => by rw [hdlq]) ?_
    intro t₀ hfollows
    refine hfollows.failed hpending err rfl rfl rfl rfl (Or.inr ⟨rfl, hfinal⟩) ?_
    rw [hdlq, hfollows.letters, hpending]
    rfl

/-- Every step keeps the invariant. -/
theorem step_tended
    (s : Process) (e : Event) (s' : Process)
    (h : Tended s)
    (hstep : s.step e = some s') :
    Tended s' := by
  cases e with
  | register request generatedID now =>
      exact register_tended h hstep
  | log id io =>
      exact log_tended h hstep
  | place id =>
      exact place_tended h hstep
  | promote now =>
      exact promote_tended h hstep
  | schedule now later =>
      exact schedule_tended h hstep
  | iterate now io result done delay io' =>
      exact iterate_tended h hstep
  | checkpoint log disk =>
      cases hstep
      exact ⟨h.exclusive, h.states, h.named, h.lettered, h.tried, h.explained⟩
  | close =>
      cases hstep
      exact ⟨h.exclusive, h.states, h.named, h.lettered, h.tried, h.explained⟩

/-- A process that has come up has its queues right, and no task of its own yet. -/
theorem tended_initial
    {cfg : Engine.Config} {d : Engine.Disk} {order : List TaskID} {e : Engine}
    (hrec : Engine.Recovered cfg d order e) :
    Tended (initial e d order) := by
  obtain ⟨loaded, last, hload, horder, hall⟩ := hrec.restarted
  have hcount : ∀ id, e.buffer.contents.count id + e.heap.inner.count id ≤ 1 := by
    intro id
    have hone := hall.once id
    rwa [Engine.queued, List.count_append] at hone
  have hmem : ∀ id t, e.tasks.get id = some t → t.id = id ∧ id ∈ order := by
    intro id t ht
    rw [hall.tasks id] at ht
    obtain ⟨t₀, ht₀, rfl⟩ := Option.map_eq_some_iff.mp ht
    constructor
    · rw [Engine.requeue_id]
      exact Engine.loadTasks_named hload ht₀
    · rw [horder.mem, ht₀]
      rfl
  refine ⟨⟨?_, ?_⟩, ?_, hmem, ?_, ?_, ?_⟩
  · intro p
    cases p
    case buffer =>
      exact List.nodup_iff_count_le_one.mpr fun id => (Nat.le_add_right _ _).trans (hcount id)
    case heap =>
      exact List.nodup_iff_count_le_one.mpr fun id => (Nat.le_add_left _ _).trans (hcount id)
    all_goals
      exact List.nodup_nil
  · intro p q id hp hq
    have hboth : ¬ (id ∈ e.buffer.contents ∧ id ∈ e.heap.inner) := by
      rintro ⟨hb, hh⟩
      have hone := hcount id
      have hb' : 0 < e.buffer.contents.count id := List.count_pos_iff.mpr hb
      have hh' : 0 < e.heap.inner.count id := List.count_pos_iff.mpr hh
      omega
    have hwhere : ∀ r, id ∈ (initial e d order).stations r →
        (r = .buffer ∧ id ∈ e.buffer.contents) ∨ (r = .heap ∧ id ∈ e.heap.inner) := by
      intro r hr
      cases r
      case buffer =>
        exact Or.inl ⟨rfl, hr⟩
      case heap =>
        exact Or.inr ⟨rfl, hr⟩
      all_goals
        cases hr
    rcases hwhere p hp with ⟨rfl, hb⟩ | ⟨rfl, hh⟩
    · rcases hwhere q hq with ⟨rfl, -⟩ | ⟨-, hh⟩
      · rfl
      · exact absurd ⟨hb, hh⟩ hboth
    · rcases hwhere q hq with ⟨-, hb⟩ | ⟨rfl, -⟩
      · exact absurd ⟨hb, hh⟩ hboth
      · rfl
  · intro p id hid
    cases p
    case buffer =>
      exact ⟨.pending, List.mem_cons_self, hall.pending hid⟩
    case heap =>
      exact ⟨.scheduled, List.mem_cons_self, hall.scheduled hid⟩
    all_goals
      cases hid
  · intro id hid
    change id ∈ e.dlq at hid
    rw [hall.dlq] at hid
    exact horder.mem.mpr (Engine.loadTasks_dlq hload id hid)
  · intro id hres
    exact absurd rfl hres
  · intro t₀ ht₀
    cases ht₀

/--
In every run of a process that has come up from any directory, the fate of every task
submitted to it is the documented function of the results of its handler.
-/
theorem fate_documented
    (cfg : Engine.Config) (d : Engine.Disk) (order : List TaskID) (e : Engine)
    (hrec : Engine.Recovered cfg d order e)
    (es : List Event) (s : Process)
    (hrun : Lib.Run step (fun _ _ => True) (initial e d order) es s) :
    ∀ t₀ ∈ s.submitted, ∃ t, s.engine.tasks.get t₀.id = some t ∧
      Documented t₀.maxRetries (s.resultsOf t₀.id) t (s.engine.dlq.count t₀.id) := by
  have h := hrun.invariant Tended (fun s e s' h _ hstep => step_tended s e s' h hstep)
    (tended_initial hrec)
  intro t₀ ht₀
  obtain ⟨t, ht, hfollows⟩ := h.explained t₀ ht₀
  exact ⟨t, ht, hfollows.documented⟩

/-- A task with one retry. -/
def oneRetry : Request where
  id := ""
  idempotencyKey := ""
  payload := [123, 125]
  priority := 0
  scheduledAt := zeroTime
  maxRetries := 1
  timeout := 0

/-- Two failures, with a push-back on a full buffer and failing appends in between. -/
def failsTwice : List Event :=
  [.register oneRetry "a" 10, .log "a" (.noError 10 300), .place "a",
    .iterate 20 (.diskFull 20 100) (some ⟨"boom", false⟩) 30 1000 (.noError 30 100),
    .register oneRetry "b" 40, .log "b" (.noError 40 300), .place "b",
    .promote 2000, .schedule 2000 2000, .checkpoint Log.opened Engine.Disk.empty,
    .iterate 2010 (.noError 2010 100) none 2020 0 (.fsyncFails 2020 100),
    .promote 200000000, .schedule 200000000 200000000,
    .iterate 200000010 (.noError 200000010 100) (some ⟨"bang", false⟩) 200000020 0
      (.noError 200000020 100)]

theorem fate_documented_failsTwice :
    ∃ e s, Engine.Recovered Engine.tightConfig Engine.Disk.empty [] e ∧
      Lib.Run step (fun _ _ => True) (initial e Engine.Disk.empty []) failsTwice s ∧
      s.submitted.map Task.id = ["b", "a"] ∧
      s.engine.stateOf "a" = some .dead ∧ s.engine.stateOf "b" = some .completed ∧
      ∀ t₀ ∈ s.submitted, ∃ t, s.engine.tasks.get t₀.id = some t ∧
        Documented t₀.maxRetries (s.resultsOf t₀.id) t (s.engine.dlq.count t₀.id) := by
  have hrec : Engine.Recovered Engine.tightConfig Engine.Disk.empty []
      (System.initial Engine.tightConfig).engine :=
    ⟨System.recover_empty Engine.tightConfig, by decide +kernel⟩
  obtain ⟨s, hrun, hids, hdead, hcompleted⟩ := Lib.exists_run_of_exec step (fun _ _ => True)
    (fun s => s.submitted.map Task.id = ["b", "a"] ∧ s.engine.stateOf "a" = some .dead ∧
      s.engine.stateOf "b" = some .completed)
    (initial (System.initial Engine.tightConfig).engine Engine.Disk.empty []) failsTwice
    (by decide +kernel)
  exact ⟨_, s, hrec, hrun, hids, hdead, hcompleted,
    fate_documented Engine.tightConfig Engine.Disk.empty [] _ hrec failsTwice s hrun⟩

end Process
end TaskQueue
